import Rpc.Json.Text
import Rpc.Json.Writer
import Rpc.Proofs.Bytes.Reader
import Rpc.Proofs.Bytes.Text

/-!
# JSON strings that come back

Byte by byte, what is written for a string is read as the same byte (`Json.chars_escape`): with its escape letter, as a
code point below the blank, or as it is. So every string comes back (`Json.readString_writeString`).
-/

namespace Rpc.Json

open Reader

variable {rest : Bytes}

/-! ## Blanks -/

theorem blanks_cons {b : UInt8} (hb : isBlank b = false) (rest : Bytes) : blanks (b :: rest) = some ((), b :: rest) := by
  simp [blanks, hb]

/-! ## Escapes -/

/-- An escape letter is read as the byte that it was written for. -/
theorem unescape?_escapeLetter {b : UInt8} {c : Char} (h : escapeLetter? b = some c) :
    UInt8.ofNat c.toNat ≠ 0x75 ∧ unescape? (UInt8.ofNat c.toNat) = some b := by
  unfold escapeLetter? at h
  repeat' split at h
  all_goals cases h <;> (subst b; decide)

/-- A byte without an escape letter is neither the quote nor the backslash. -/
theorem ne_of_escapeLetter_eq_none {b : UInt8} (h : escapeLetter? b = none) : b ≠ 0x22 ∧ b ≠ 0x5c := by
  constructor <;> rintro rfl <;> cases h

/-- A control character is read from its two digits. -/
theorem unit?_hexDigit {n : Nat} (h : n < 0x20) : unit? 0x30 0x30 (hexDigit (n / 16)) (hexDigit (n % 16)) = some n :=
  (by decide : ∀ n < 0x20, unit? 0x30 0x30 (hexDigit (n / 16)) (hexDigit (n % 16)) = some n) n h

/-- A control character is one byte. -/
theorem pushCodePoint_control {b : UInt8} (h : b < 0x20) (done : Bytes) : pushCodePoint b.toNat done = b :: done := by
  have hlt : b.toNat < 0x20 := h
  have hchar : (Char.ofNat b.toNat).toNat = b.toNat :=
    (by decide : ∀ n < 0x20, (Char.ofNat n).toNat = n) b.toNat hlt
  have hascii : ∀ c ∈ [Char.ofNat b.toNat], c.toNat < 128 := by
    simp only [List.mem_singleton, forall_eq]
    omega
  rw [pushCodePoint, String.singleton_eq_ofList, Bytes.ofString_ascii hascii, List.map_singleton, hchar,
    UInt8.ofNat_toNat]
  rfl

theorem chars_quote (done rest : Bytes) : chars done (0x22 :: rest) = some (done.reverse, rest) := by
  rw [chars.eq_def]
  rfl

theorem chars_plain {b : UInt8} (hquote : b ≠ 0x22) (hcontrol : ¬ b < 0x20) (hbackslash : b ≠ 0x5c) (done : Bytes) :
    chars done (b :: rest) = chars (b :: done) rest := by
  rw [chars.eq_def]
  simp [hquote, hcontrol, hbackslash]

theorem chars_letter {e b : UInt8} (he : e ≠ 0x75) (h : unescape? e = some b) (done : Bytes) :
    chars done (0x5c :: e :: rest) = chars (b :: done) rest := by
  rw [chars.eq_def]
  simp [he, h]

theorem chars_unit {h₁ h₂ h₃ h₄ : UInt8} {n : Nat} (h : unit? h₁ h₂ h₃ h₄ = some n) (hlow : isLowSurrogate n = false)
    (hhigh : isHighSurrogate n = false) (done : Bytes) :
    chars done (0x5c :: 0x75 :: h₁ :: h₂ :: h₃ :: h₄ :: rest) = chars (pushCodePoint n done) rest := by
  rw [chars.eq_def]
  simp [h, hlow, hhigh]

/-- **A byte of a string is read as what it was.** -/
theorem chars_escape (b : UInt8) (done rest : Bytes) : chars done (escape b rest) = chars (b :: done) rest := by
  unfold escape
  cases hletter : escapeLetter? b with
  | some c =>
    obtain ⟨hc, hback⟩ := unescape?_escapeLetter hletter
    exact chars_letter hc hback done
  | none =>
    obtain ⟨hquote, hbackslash⟩ := ne_of_escapeLetter_eq_none hletter
    by_cases hcontrol : b < 0x20
    · have hlt : b.toNat < 0x20 := hcontrol
      have hlow : isLowSurrogate b.toNat = false := by simp [isLowSurrogate]; omega
      have hhigh : isHighSurrogate b.toNat = false := by simp [isHighSurrogate]; omega
      simp only [hcontrol, if_true]
      rw [chars_unit (unit?_hexDigit hlt) hlow hhigh, pushCodePoint_control hcontrol]
    · simp only [hcontrol, if_false]
      exact chars_plain hquote hcontrol hbackslash done

theorem chars_foldr_escape (bs done rest : Bytes) :
    chars done (bs.foldr escape (0x22 :: rest)) = some (done.reverse ++ bs, rest) := by
  induction bs generalizing done with
  | nil => rw [List.foldr_nil, chars_quote, List.append_nil]
  | cons b bs ih => rw [List.foldr_cons, chars_escape, ih, List.reverse_cons, List.append_assoc, List.singleton_append]

/-! ## Strings -/

theorem stringTail_writeString (s : String) (rest : Bytes) :
    stringTail ((Bytes.ofString s).foldr escape (0x22 :: rest)) = some (s, rest) := by
  simp [stringTail, chars_foldr_escape, Bytes.toString?_ofString]

/-- **A string comes back.** -/
theorem readString_writeString (s : String) (rest : Bytes) : readString (writeString s rest) = some (s, rest) := by
  rw [readString, writeString, bind_eq _ (blanks_cons (by decide) _)]
  exact stringTail_writeString s rest

theorem lt_length_escape (b : UInt8) (rest : Bytes) : rest.length < (escape b rest).length := by
  unfold escape
  split
  · exact lt_length_cons_append _ [_] rest
  · split
    · exact lt_length_cons_append _ [_, _, _, _, _] rest
    · exact Nat.lt_succ_self _

theorem length_writeString (s : String) (rest : Bytes) : rest.length + 2 ≤ (writeString s rest).length := by
  have := length_le_length_foldr lt_length_escape (Bytes.ofString s) (0x22 :: rest)
  rw [writeString, List.length_cons]
  rw [List.length_cons] at this
  omega

end Rpc.Json
