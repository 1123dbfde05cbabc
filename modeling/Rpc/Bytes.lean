/-!
# Byte strings

- fixed-width big-endian and little-endian words (`Bytes.bigEndian`, `Bytes.littleEndian`) and the number a word
  stands for (`Bytes.toNat`);
- bytes put in the place of others (`Bytes.overwrite`);
- texts as their UTF-8 bytes (`Bytes.ofString`), and back where the bytes are valid UTF-8 (`Bytes.toString?`).
-/

namespace Rpc

-- Powers are those of the core library, also where algebra has other ones.
attribute [instance (high), default_instance 20000] instPowNat

/-- A finite sequence of bytes, first byte first. -/
abbrev Bytes := List UInt8

namespace Bytes

/-! ## Words -/

/-- The `width` low bytes of `n`, most significant first. -/
def bigEndian : (width : Nat) → (n : Nat) → Bytes
  | 0, _ => []
  | k + 1, n => UInt8.ofNat (n / 256 ^ k) :: bigEndian k n

/-- The `width` low bytes of `n`, least significant first. -/
def littleEndian (width n : Nat) : Bytes :=
  (bigEndian width n).reverse

/-- The number written by the bytes, most significant first. -/
def toNat (bs : Bytes) : Nat :=
  bs.foldl (fun n b => n * 256 + b.toNat) 0

@[simp] theorem length_bigEndian (width n : Nat) : (bigEndian width n).length = width := by
  induction width with
  | zero => rfl
  | succ k ih => simp [bigEndian, ih]

@[simp] theorem length_littleEndian (width n : Nat) : (littleEndian width n).length = width := by
  simp [littleEndian]

/-- A word stands for the number it was made from, as far as its width goes. -/
theorem toNat_bigEndian (width n : Nat) : toNat (bigEndian width n) = n % 256 ^ width := by
  suffices h : ∀ a, (bigEndian width n).foldl (fun n b => n * 256 + b.toNat) a = a * 256 ^ width + n % 256 ^ width by
    simpa [toNat] using h 0
  induction width with
  | zero => intro a; simp [bigEndian, Nat.mod_one]
  | succ k ih =>
    intro a
    have hlow : (UInt8.ofNat (n / 256 ^ k)).toNat = n / 256 ^ k % 256 := by simp
    simp only [bigEndian, List.foldl_cons, ih, hlow, Nat.pow_succ, Nat.mod_mul]
    rw [Nat.add_mul, Nat.mul_assoc, Nat.mul_comm 256, Nat.mul_comm (256 ^ k) (n / 256 ^ k % 256)]
    omega

/-- As many bytes hold no greater number. -/
theorem toNat_lt (bs : Bytes) : toNat bs < 256 ^ bs.length := by
  suffices h : ∀ a, bs.foldl (fun n b => n * 256 + b.toNat) a < (a + 1) * 256 ^ bs.length by
    simpa [toNat] using h 0
  induction bs with
  | nil => intro a; simp
  | cons b bs ih =>
    intro a
    have hb := b.toNat_lt
    have hstep : a * 256 + b.toNat + 1 ≤ (a + 1) * 256 := by omega
    calc (b :: bs).foldl (fun n b => n * 256 + b.toNat) a
      _ < (a * 256 + b.toNat + 1) * 256 ^ bs.length := ih _
      _ ≤ (a + 1) * 256 * 256 ^ bs.length := Nat.mul_le_mul_right _ hstep
      _ = (a + 1) * 256 ^ (b :: bs).length := by rw [List.length_cons, Nat.pow_succ', Nat.mul_assoc]

/-! ## Places -/

/-- The bytes with those from a place on replaced by as many others. -/
def overwrite (bs : Bytes) (place : Nat) (new : Bytes) : Bytes :=
  bs.take place ++ new ++ bs.drop (place + new.length)

/-- Of three parts the middle one is replaced. -/
theorem overwrite_append {front old new back : Bytes} (h : old.length = new.length) :
    overwrite (front ++ old ++ back) front.length new = front ++ new ++ back := by
  simp [overwrite, ← h]

/-! ## Texts -/

/-- The UTF-8 bytes of a text. -/
def ofString (s : String) : Bytes :=
  s.toUTF8.toList

/-- The text with these UTF-8 bytes, if they are valid UTF-8. -/
def toString? (bs : Bytes) : Option String :=
  String.fromUTF8? bs.toByteArray

end Bytes

end Rpc
