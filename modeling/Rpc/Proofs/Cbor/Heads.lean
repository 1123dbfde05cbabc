import Rpc.Cbor.Reader
import Rpc.Cbor.Writer
import Rpc.Proofs.Binary64.Narrow
import Rpc.Proofs.Bytes.Reader
import Rpc.Proofs.Bytes.Text

/-!
# Heads that come back

An argument below `2 ^ 64` is read in the width it was written in, whatever its major type
(`Cbor.readHead_writeArgument`), and a finite double in the shortest of the three widths that keep it
(`Cbor.readHead_writeFloat`). With the heads, texts and numbers come back as well (`Cbor.readText_writeText`,
`Cbor.readUInt32_writeUInt32`).
-/

namespace Rpc.Cbor

open Reader

variable {n : Nat} {rest : Bytes}

/-! ## Arguments -/

/-- A word is the argument that it was written for. -/
theorem take_bigEndian {width : Nat} (h : n < 256 ^ width) (rest : Bytes) :
    (do pure (some (← Reader.take width).toNat) : Reader (Option Nat)) (Bytes.bigEndian width n ++ rest) =
      some (some n, rest) := by
  rw [bind_eq _ (take_append (Bytes.length_bigEndian width n)), pure_eq, Bytes.toNat_bigEndian, Nat.mod_eq_of_lt h]

/-- An argument is written in one of five widths, and read back in the same. -/
theorem readArgument_writeArgument (major : Nat) (hn : n < 2 ^ 64) (rest : Bytes) :
    ∃ minor bs, minor < 28 ∧ writeArgument major n rest = UInt8.ofNat (major * 32 + minor) :: bs ∧
      readArgument minor bs = some (some n, rest) := by
  unfold writeArgument
  split
  · next h => exact ⟨n, rest, by omega, rfl, by simp only [readArgument, h, if_true, pure_eq]⟩
  · split
    · next h => exact ⟨24, _, by decide, rfl, take_bigEndian (show n < 256 ^ 1 from h) rest⟩
    · split
      · next h => exact ⟨25, _, by decide, rfl, take_bigEndian (show n < 256 ^ 2 from h) rest⟩
      · split
        · next h => exact ⟨26, _, by decide, rfl, take_bigEndian (show n < 256 ^ 4 from h) rest⟩
        · exact ⟨27, _, by decide, rfl, take_bigEndian (show n < 256 ^ 8 from hn) rest⟩

/-- How many bytes a head takes. -/
def headLength (n : Nat) : Nat :=
  if n < 24 then 1 else if n < 2 ^ 8 then 2 else if n < 2 ^ 16 then 3 else if n < 2 ^ 32 then 5 else 9

theorem length_writeArgument (major n : Nat) (rest : Bytes) :
    (writeArgument major n rest).length = headLength n + rest.length := by
  unfold writeArgument headLength
  repeat' split
  all_goals
    simp only [List.length_cons, List.length_append, Bytes.length_bigEndian]
    omega

theorem headLength_pos (n : Nat) : 0 < headLength n := by
  unfold headLength
  repeat' split
  all_goals decide

theorem headLength_le (n : Nat) : headLength n ≤ 9 := by
  unfold headLength
  repeat' split
  all_goals decide

theorem lt_length_writeArgument (major n : Nat) (rest : Bytes) : rest.length < (writeArgument major n rest).length := by
  rw [length_writeArgument]
  exact Nat.lt_add_of_pos_left (headLength_pos n)

/-! ## Heads -/

/-- The head of a major type with its argument. -/
def Head.given : (major n : Nat) → Head
  | 0, n => .unsigned n
  | 1, n => .negative n
  | 2, n => .bytes (some n)
  | 3, n => .text (some n)
  | 4, n => .array (some n)
  | 5, n => .map (some n)
  | _, n => .tag n

/-- A first byte has the major type above its five low bits. -/
theorem toNat_first {major minor : Nat} (hmajor : major < 8) (hminor : minor < 32) :
    (UInt8.ofNat (major * 32 + minor)).toNat / 32 = major ∧ (UInt8.ofNat (major * 32 + minor)).toNat % 32 = minor := by
  rw [UInt8.toNat_ofNat_of_lt' (show major * 32 + minor < 2 ^ 8 by omega)]
  omega

/-- **The head of an argument comes back,** for every major type that has one. -/
theorem readHead_writeArgument {major : Nat} (hmajor : major < 7) (hn : n < 2 ^ 64) (rest : Bytes) :
    readHead (writeArgument major n rest) = some (.given major n, rest) := by
  obtain ⟨minor, bs, hminor, hwrite, hread⟩ := readArgument_writeArgument major hn rest
  obtain ⟨hdiv, hmod⟩ := toNat_first (show major < 8 by omega) (show minor < 32 by omega)
  have hclosed : readClosed minor bs = some (n, rest) := by
    rw [readClosed, bind_eq _ hread]
    rfl
  have hbyte : Reader.byte (UInt8.ofNat (major * 32 + minor) :: bs) = some (UInt8.ofNat (major * 32 + minor), bs) := rfl
  rw [hwrite, readHead, bind_eq _ hbyte]
  simp only [hdiv, hmod]
  rcases major with _ | _ | _ | _ | _ | _ | _ | major
  · exact bind_eq _ hclosed
  · exact bind_eq _ hclosed
  · exact bind_eq _ hread
  · exact bind_eq _ hread
  · exact bind_eq _ hread
  · exact bind_eq _ hread
  · exact bind_eq _ hclosed
  · omega

/-- The word of a double is behind a head of major type 7. -/
theorem readHead_special {b : UInt8} {minor width : Nat} (hb : b = UInt8.ofNat (7 * 32 + minor)) (hminor : minor < 32)
    (hargument : readArgument minor (Bytes.bigEndian width n ++ rest) = some (some n, rest)) :
    readHead (b :: (Bytes.bigEndian width n ++ rest)) =
      (if minor ≤ 24 then pure (.simple n)
      else if minor = 25 then pure (.float (Interchange.half.widen n))
      else if minor = 26 then pure (.float (Interchange.single.widen n))
      else pure (.float ⟨UInt64.ofNat n⟩) : Reader Head) rest := by
  obtain ⟨hdiv, hmod⟩ := toNat_first (show 7 < 8 by decide) hminor
  have hbyte : Reader.byte (b :: (Bytes.bigEndian width n ++ rest)) = some (b, Bytes.bigEndian width n ++ rest) := rfl
  rw [readHead, bind_eq _ hbyte]
  simp only [hb, hdiv, hmod]
  exact bind_eq _ hargument

/-- A double is written in one of three widths. -/
theorem writeFloat_eq (x : Binary64) (rest : Bytes) :
    (∃ w, Interchange.half.narrow? x = some w ∧ writeFloat x rest = 0xf9 :: (Bytes.bigEndian 2 w ++ rest)) ∨
      (∃ w, Interchange.single.narrow? x = some w ∧ writeFloat x rest = 0xfa :: (Bytes.bigEndian 4 w ++ rest)) ∨
      writeFloat x rest = 0xfb :: (Bytes.bigEndian 8 x.bits.toNat ++ rest) := by
  unfold writeFloat
  -- The shorter forms get names, since unfolding them has no end.
  generalize Interchange.half.narrow? x = half
  generalize Interchange.single.narrow? x = single
  cases half with
  | some w => exact .inl ⟨w, rfl, rfl⟩
  | none =>
    cases single with
    | some w => exact .inr (.inl ⟨w, rfl, rfl⟩)
    | none => exact .inr (.inr rfl)

theorem lt_length_writeFloat (x : Binary64) (rest : Bytes) : rest.length < (writeFloat x rest).length := by
  rcases writeFloat_eq x rest with ⟨w, -, h⟩ | ⟨w, -, h⟩ | h
  all_goals
    rw [h]
    exact lt_length_cons_append _ _ rest

/-- **The head of a finite double comes back.** -/
theorem readHead_writeFloat {x : Binary64} (hx : x.isFinite) (rest : Bytes) :
    readHead (writeFloat x rest) = some (.float x, rest) := by
  rcases writeFloat_eq x rest with ⟨w, hw, h⟩ | ⟨w, hw, h⟩ | h
  · have hlt : w < 256 ^ 2 := Nat.lt_of_lt_of_eq (Interchange.narrow?_lt (by decide) hx hw) (by decide)
    have hbyte : (0xf9 : UInt8) = UInt8.ofNat (7 * 32 + 25) := by decide
    rw [h, readHead_special hbyte (by decide) (take_bigEndian hlt rest)]
    simp [pure_eq, Interchange.widen_narrow? _ hw]
  · have hlt : w < 256 ^ 4 := Nat.lt_of_lt_of_eq (Interchange.narrow?_lt (by decide) hx hw) (by decide)
    have hbyte : (0xfa : UInt8) = UInt8.ofNat (7 * 32 + 26) := by decide
    rw [h, readHead_special hbyte (by decide) (take_bigEndian hlt rest)]
    simp [pure_eq, Interchange.widen_narrow? _ hw]
  · have hlt : x.bits.toNat < 256 ^ 8 := Nat.lt_of_lt_of_eq x.bits.toNat_lt (by decide)
    have hbyte : (0xfb : UInt8) = UInt8.ofNat (7 * 32 + 27) := by decide
    rw [h, readHead_special hbyte (by decide) (take_bigEndian hlt rest), UInt64.ofNat_toNat]
    simp [pure_eq]

/-- A head that is no tag has no tags in front of it. -/
theorem untagged_of_readHead {bs : Bytes} {h : Head} (hread : readHead bs = some (h, rest)) (htag : ∀ n, h ≠ .tag n) :
    untagged bs = some (h, rest) := by
  rw [untagged, untaggedFrom, bind_eq _ hread]
  cases h with
  | tag n => exact absurd rfl (htag n)
  | _ => rfl

/-! ## Texts -/

/-- A text takes its head and its bytes. -/
theorem length_writeText {s : String} {n : Nat} (hs : (Bytes.ofString s).length = n) (rest : Bytes) :
    (writeText s rest).length = headLength n + n + rest.length := by
  rw [writeText, length_writeArgument, hs, List.length_append, hs, Nat.add_assoc]

theorem lt_length_writeText (s : String) (rest : Bytes) : rest.length < (writeText s rest).length := by
  have := headLength_pos (Bytes.ofString s).length
  rw [length_writeText rfl]
  omega

theorem readHead_writeText {s : String} (hlen : (writeText s rest).length < 2 ^ 64) :
    readHead (writeText s rest) = some (.text (some (Bytes.ofString s).length), Bytes.ofString s ++ rest) := by
  have hlt := lt_length_writeArgument 3 (Bytes.ofString s).length (Bytes.ofString s ++ rest)
  rw [List.length_append] at hlt
  rw [writeText] at hlen ⊢
  exact readHead_writeArgument (by decide) (by omega) _

theorem untagged_writeText {s : String} (hlen : (writeText s rest).length < 2 ^ 64) :
    untagged (writeText s rest) = some (.text (some (Bytes.ofString s).length), Bytes.ofString s ++ rest) :=
  untagged_of_readHead (readHead_writeText hlen) nofun

theorem textTail_append (s : String) (rest : Bytes) :
    textTail (some (Bytes.ofString s).length) (Bytes.ofString s ++ rest) = some (s, rest) := by
  rw [textTail, bind_eq _ (take_append rfl), Bytes.toString?_ofString]
  rfl

/-- **A text comes back.** -/
theorem readText_writeText {s : String} (hlen : (writeText s rest).length < 2 ^ 64) :
    readText (writeText s rest) = some (s, rest) := by
  rw [readText, bind_eq _ (untagged_writeText hlen)]
  exact textTail_append s rest

/-- A text comes back as a key, unless it is too long for one. -/
theorem readKey_writeText {s : String} (hkey : (Bytes.ofString s).length ≤ maxKeyLength)
    (hlen : (writeText s rest).length < 2 ^ 64) : readKey (writeText s rest) = some (s, rest) := by
  rw [readKey, bind_eq _ (untagged_writeText hlen)]
  simp only [hkey, if_true]
  exact textTail_append s rest

/-- A text comes back as a name, unless it is too long for one. -/
theorem readName_writeText {s : String} (hkey : (Bytes.ofString s).length ≤ maxKeyLength)
    (hlen : (writeText s rest).length < 2 ^ 64) : readName (writeText s rest) = some (some s, rest) := by
  rw [readName, bind_eq _ (untagged_writeText hlen)]
  simp only [hkey, if_true]
  rw [bind_eq _ (textTail_append s rest)]
  rfl

/-! ## Small numbers -/

/-- A number of 32 bits. -/
def writeUInt32 (n : UInt32) (rest : Bytes) : Bytes := writeArgument 0 n.toNat rest

/-- **A number of 32 bits comes back.** -/
theorem readUInt32_writeUInt32 (n : UInt32) (rest : Bytes) : readUInt32 (writeUInt32 n rest) = some (n, rest) := by
  rw [writeUInt32]
  have hlt := n.toNat_lt
  have hhead : untaggedInteger (writeArgument 0 n.toNat rest) = some (.unsigned n.toNat, rest) := by
    rw [untaggedInteger, untaggedFrom,
      bind_eq _ (readHead_writeArgument (show 0 < 7 by decide) (Nat.lt_trans hlt (by decide)) rest)]
    rfl
  have htail : integerTail (.unsigned n.toNat) rest = some ((n.toNat : Int), rest) := rfl
  have hrange : (0 ≤ (n.toNat : Int) && (n.toNat : Int) < 2 ^ 32) = true := by
    simp only [Bool.and_eq_true, decide_eq_true_eq]
    omega
  rw [readUInt32, bind_eq _ hhead, bind_eq _ htail, if_pos hrange]
  simp [pure_eq]

end Rpc.Cbor
