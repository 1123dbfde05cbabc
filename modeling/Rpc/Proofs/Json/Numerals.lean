import Rpc.Json.Number
import Rpc.Json.Writer
import Rpc.Proofs.Bytes.Reader
import Rpc.Proofs.Bytes.Text

/-!
# Integers in JSON that come back

The decimal digits of a number (`Json.digits`) are read up to a byte that no number goes on with, and an integer of 64
bits that is written with them is read as the same integer (`Json.readNumeral_toString`). What holds of all digit
strings is proved by one induction, a last digit at a time (`Json.digits_induction`).
-/

namespace Rpc.Json

open Reader

variable {b : UInt8} {ds rest : Bytes} {n : Nat}

/-! ## Digits -/

/-- The decimal digits of a number, without zeros in front. -/
def digits (n : Nat) : Bytes := (Nat.toDigits 10 n).map fun c => UInt8.ofNat c.toNat

/-- The byte of a digit. -/
def digitByte (d : Nat) : UInt8 := UInt8.ofNat (48 + d)

theorem digits_of_lt (h : n < 10) : digits n = [digitByte n] := by
  rw [digits, Nat.toDigits_of_lt_base h, List.map_singleton, Nat.toNat_digitChar_of_lt_ten h, digitByte]

theorem digits_of_le (h : 10 ≤ n) : digits n = digits (n / 10) ++ [digitByte (n % 10)] := by
  rw [digits, Nat.toDigits_of_base_le (by decide) h, List.map_append, List.map_singleton,
    Nat.toNat_digitChar_of_lt_ten (Nat.mod_lt n (by decide)), digits, digitByte]

/-- What holds of one digit, and of one more digit behind those of a positive number, holds of all digits. -/
theorem digits_induction {P : Nat → Bytes → Prop} (one : ∀ d < 10, P d [digitByte d])
    (more : ∀ n ds d, 0 < n → d < 10 → P n ds → P (10 * n + d) (ds ++ [digitByte d])) (n : Nat) : P n (digits n) := by
  induction n using Nat.strongRecOn with
  | ind n ih =>
    by_cases h : n < 10
    · exact digits_of_lt h ▸ one n h
    · have hle : 10 ≤ n := Nat.le_of_not_lt h
      have hstep := more (n / 10) _ (n % 10) (by omega) (Nat.mod_lt n (by decide)) (ih (n / 10) (by omega))
      rwa [Nat.div_add_mod, ← digits_of_le hle] at hstep

theorem toNat_digitByte {d : Nat} (h : d < 10) : (digitByte d).toNat = 48 + d :=
  UInt8.toNat_ofNat_of_lt' (show 48 + d < 2 ^ 8 by omega)

theorem isDigit_digitByte {d : Nat} (h : d < 10) : isDigit (digitByte d) :=
  (by decide : ∀ d < 10, isDigit (digitByte d)) d h

theorem digits_ne_nil (n : Nat) : digits n ≠ [] :=
  digits_induction (P := fun _ ds => ds ≠ []) (fun _ _ => nofun) (fun _ _ _ _ _ _ => by simp) n

theorem isDigit_of_mem_digits : ∀ d ∈ digits n, isDigit d :=
  digits_induction (P := fun _ ds => ∀ d ∈ ds, isDigit d)
    (fun d hd => by simpa using isDigit_digitByte hd)
    (fun _ ds d _ hd ih => by simpa [or_imp, forall_and] using ⟨ih, isDigit_digitByte hd⟩) n

/-- Only zero starts with a zero, and it has no other digits. -/
theorem length_digits_of_head? (n : Nat) (h : (digits n).head? = some 0x30) : (digits n).length = 1 := by
  suffices hall : digits n ≠ [] ∧ ((digits n).head? = some 0x30 → n = 0 ∧ (digits n).length = 1) from (hall.2 h).2
  refine digits_induction (P := fun n ds => ds ≠ [] ∧ (ds.head? = some 0x30 → n = 0 ∧ ds.length = 1)) ?_ ?_ n
  · intro d hd
    have hzero : digitByte d = 0x30 → d = 0 := (by decide : ∀ d < 10, digitByte d = 0x30 → d = 0) d hd
    exact ⟨nofun, fun h => ⟨hzero (Option.some.inj h), rfl⟩⟩
  · intro n ds d hn _ ih
    obtain ⟨first, others, rfl⟩ := List.exists_cons_of_ne_nil ih.1
    refine ⟨nofun, fun h => ?_⟩
    have hzero := (ih.2 h).1
    omega

/-- Digits behind others are taken behind them. -/
theorem absorb_append {more : Bytes} {s : Nat} (h : Numeral.absorb s ds = (n, [])) :
    Numeral.absorb s (ds ++ more) = Numeral.absorb n more := by
  induction ds generalizing s with
  | nil =>
    obtain rfl : s = n := congrArg Prod.fst h
    rfl
  | cons d ds ih =>
    simp only [Numeral.absorb, List.cons_append] at h ⊢
    split at h
    · next hlt => simp only [hlt, if_true, ih h]
    · cases h

/-- The digits of a number of 64 bits are taken for the number. -/
theorem absorb_digits (h : n < 2 ^ 64) : Numeral.absorb 0 (digits n) = (n, []) := by
  refine digits_induction (P := fun n ds => n < 2 ^ 64 → Numeral.absorb 0 ds = (n, [])) ?_ ?_ n h
  · intro d hd hlt
    simp [Numeral.absorb, toNat_digitByte hd, hlt]
  · intro n ds d _ hd ih hlt
    have hnext : n * 10 + (48 + d - 0x30) = 10 * n + d := by omega
    simp only [absorb_append (ih (by omega)), Numeral.absorb, toNat_digitByte hd, hnext, hlt, if_true]

/-! ## Written numbers -/

theorem ofString_toString_nat (n : Nat) : Bytes.ofString (toString n) = digits n := by
  have hascii : ∀ c ∈ Nat.toDigits 10 n, c.toNat < 128 := by
    intro c hc
    have hdigit := Nat.isDigit_of_mem_toDigits (by decide) (by decide) hc
    simp only [Char.isDigit, Bool.and_eq_true, decide_eq_true_eq] at hdigit
    exact Nat.lt_of_le_of_lt (UInt32.le_iff_toNat_le.mp hdigit.2) (by decide)
  rw [Nat.toString_eq_ofList_toDigits, Bytes.ofString_ascii hascii]
  rfl

/-- An integer is written with its sign and the digits of its absolute value. -/
theorem ofString_toString_int (n : Int) :
    Bytes.ofString (toString n) = if 0 ≤ n then digits n.toNat else 0x2d :: digits (-n).toNat := by
  have hminus : Bytes.ofString "-" = [0x2d] := Bytes.ofString_eq "-"
  rw [Int.toString_eq_repr, Int.repr_eq_if]
  split
  · exact ofString_toString_nat n.toNat
  · rw [Bytes.ofString_append, hminus]
    exact congrArg (0x2d :: ·) (ofString_toString_nat (-n).toNat)

/-! ## Numerals -/

/-- A number goes on with this byte behind its digits. -/
def goesOn (b : UInt8) : Bool := isDigit b || b = 0x2e || b = 0x65 || b = 0x45

theorem accept_of_ne {b c : UInt8} (h : c ≠ b) (rest : Bytes) : accept b (c :: rest) = some (false, c :: rest) := by
  simp [accept, h]

theorem readDigits_append (hne : ds ≠ []) (hds : ∀ d ∈ ds, isDigit d) (hb : isDigit b = false) (rest : Bytes) :
    readDigits (ds ++ b :: rest) = some (ds, b :: rest) := by
  have htake : takeWhile isDigit (ds ++ b :: rest) = some (ds, b :: rest) := by
    simp [takeWhile, List.takeWhile_append_of_pos hds, List.dropWhile_append_of_pos hds, hb]
  have hempty : ds.isEmpty = false := by simpa using hne
  rw [readDigits, bind_eq _ htake]
  simp only [hempty, Bool.false_eq_true, if_false, pure_eq]

/-- The parts of a number that is written with digits only. -/
def numeral (negative : Bool) (n : Nat) : Numeral := ⟨negative, digits n, [], none⟩

theorem readWhole_digits (n : Nat) (hb : isDigit b = false) (rest : Bytes) :
    readWhole (digits n ++ b :: rest) = some (digits n, b :: rest) := by
  have hzero : ¬ ((digits n).head? = some 0x30 && 1 < (digits n).length) = true := by
    simp only [Bool.and_eq_true, decide_eq_true_eq]
    rintro ⟨hhead, hlong⟩
    exact absurd (length_digits_of_head? n hhead) (Nat.ne_of_gt hlong)
  rw [readWhole, bind_eq _ (readDigits_append (digits_ne_nil n) isDigit_of_mem_digits hb rest), if_neg hzero,
    pure_eq]

/-- Digits are read up to a byte that no number goes on with. -/
theorem readNumeral_parts (n : Nat) (hb : goesOn b = false) (rest : Bytes) (negative : Bool) :
    (do pure ⟨negative, ← readWhole, ← readDecimals, ← readExponent⟩ : Reader Numeral) (digits n ++ b :: rest) =
      some (numeral negative n, b :: rest) := by
  simp only [goesOn, Bool.or_eq_false_iff, decide_eq_false_iff_not] at hb
  obtain ⟨⟨⟨hdigit, hpoint⟩, hsmall⟩, hlarge⟩ := hb
  have hdecimals : readDecimals (b :: rest) = some ([], b :: rest) := by
    rw [readDecimals, bind_eq _ (accept_of_ne hpoint rest)]
    rfl
  have hexponent : readExponent (b :: rest) = some (none, b :: rest) := by
    rw [readExponent, bind_eq _ (accept_of_ne hsmall rest)]
    exact bind_eq _ (accept_of_ne hlarge rest)
  rw [bind_eq _ (readWhole_digits n hdigit rest), bind_eq _ hdecimals, bind_eq _ hexponent]
  rfl

theorem toInt?_numeral_false (h : n < 2 ^ 64) : (numeral false n).toInt? = some (n : Int) := by
  simp [numeral, Numeral.toInt?, Numeral.isWhole, absorb_digits h]

theorem toInt?_numeral_true (hpos : n ≠ 0) (h : n ≤ 2 ^ 63) : (numeral true n).toInt? = some (-n : Int) := by
  have hrange : ¬ (n = 0 ∨ 2 ^ 63 < n) := by omega
  simp [numeral, Numeral.toInt?, Numeral.isWhole, absorb_digits (show n < 2 ^ 64 by omega)]
  omega

/-- **An integer of 64 bits comes back.** -/
theorem readNumeral_toString {n : Int} (hn : Value.isIntegerInRange n) (hb : goesOn b = false) (rest : Bytes) :
    ∃ m, readNumeral (writeText (toString n) (b :: rest)) = some (m, b :: rest) ∧ m.toInt? = some n := by
  simp only [Value.isIntegerInRange, Bool.and_eq_true, decide_eq_true_eq] at hn
  rw [writeText, ofString_toString_int]
  split
  · next hpos =>
    refine ⟨numeral false n.toNat, ?_, ?_⟩
    · obtain ⟨d, ds, hds⟩ := List.exists_cons_of_ne_nil (digits_ne_nil n.toNat)
      have hd : d ≠ 0x2d := fun h => by
        have hdigit := isDigit_of_mem_digits d (hds ▸ List.mem_cons_self)
        rw [h] at hdigit
        cases hdigit
      have hsign : accept 0x2d (digits n.toNat ++ b :: rest) = some (false, digits n.toNat ++ b :: rest) := by
        rw [hds, List.cons_append]
        exact accept_of_ne hd _
      rw [readNumeral, bind_eq _ hsign]
      exact readNumeral_parts n.toNat hb rest false
    · rw [toInt?_numeral_false (by omega), Int.toNat_of_nonneg hpos]
  · next hneg =>
    refine ⟨numeral true (-n).toNat, ?_, ?_⟩
    · have hsign : accept 0x2d (0x2d :: (digits (-n).toNat ++ b :: rest)) =
          some (true, digits (-n).toNat ++ b :: rest) := rfl
      rw [List.cons_append, readNumeral, bind_eq _ hsign]
      exact readNumeral_parts (-n).toNat hb rest true
    · rw [toInt?_numeral_true (by omega) (by omega), Int.toNat_of_nonneg (by omega), Int.neg_neg]

end Rpc.Json
