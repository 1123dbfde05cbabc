import Rpc.Json.Reader
import Rpc.Proofs.Codec.Bodies
import Rpc.Proofs.Json.Numerals
import Rpc.Proofs.Json.Strings

/-!
# JSON values that come back

A value without doubles is read back from what was written for it, whatever stands behind it that no number goes on
with (`Json.readValue_writeValue`), if it is nested no deeper than the reader allows. The induction is on the depth, as
the reader's recursion is.
-/

namespace Rpc.Json

open Reader

variable {b : UInt8} {rest : Bytes} {depth : Nat}

/-! ## Lists and objects as written -/

/-- An entry of an object. -/
def writeEntry (e : String × Value) (rest : Bytes) : Bytes := writeString e.1 (0x3a :: writeValue e.2 rest)

theorem writeItems_eq_foldr (vs : List Value) (rest : Bytes) :
    writeItems vs rest = vs.foldr (fun v rest => 0x2c :: writeValue v rest) (0x5d :: rest) := by
  induction vs with
  | nil => rfl
  | cons v vs ih => rw [writeItems, ih, List.foldr_cons]

theorem writeEntries_eq_foldr (es : List (String × Value)) (rest : Bytes) :
    writeEntries es rest = es.foldr (fun e rest => 0x2c :: writeEntry e rest) (0x7d :: rest) := by
  induction es with
  | nil => rfl
  | cons e es ih => rw [writeEntries, ih, List.foldr_cons, writeEntry]

theorem writeValue_array (vs : List Value) (rest : Bytes) :
    writeValue (.array vs) rest = 0x5b :: writeSeparated writeValue 0x2c 0x5d rest vs := by
  cases vs with
  | nil =>
    have hempty : Bytes.ofString "[]" = [0x5b, 0x5d] := Bytes.ofString_eq "[]"
    rw [writeValue, writeText, hempty]
    rfl
  | cons v vs => rw [writeValue, writeItems_eq_foldr, writeSeparated]

theorem writeValue_object (es : List (String × Value)) (rest : Bytes) :
    writeValue (.object es) rest = 0x7b :: writeSeparated writeEntry 0x2c 0x7d rest es := by
  cases es with
  | nil =>
    have hempty : Bytes.ofString "\x7b\x7d" = [0x7b, 0x7d] := Bytes.ofString_eq "\x7b\x7d"
    rw [writeValue, writeText, hempty]
    rfl
  | cons e es => rw [writeValue, writeEntries_eq_foldr, writeSeparated, writeEntry]

/-! ## Lengths -/

theorem le_length_writeText (s : String) (rest : Bytes) : rest.length ≤ (writeText s rest).length := by
  rw [writeText, List.length_append]
  exact Nat.le_add_left _ _

mutual

theorem le_length_writeValue : ∀ (v : Value) (rest : Bytes), rest.length ≤ (writeValue v rest).length
  | .null, rest => le_length_writeText _ rest
  | .bool _, rest => le_length_writeText _ rest
  | .int _, rest => le_length_writeText _ rest
  | .float _, rest => le_length_writeText _ rest
  | .string s, rest => Nat.le_of_add_right_le (length_writeString s rest)
  | .array [], rest => le_length_writeText _ rest
  | .array (v :: vs), rest =>
    Nat.le_succ_of_le (Nat.le_trans (le_length_writeItems vs rest) (le_length_writeValue v _))
  | .object [], rest => le_length_writeText _ rest
  | .object ((k, v) :: es), rest => by
    have hentries := Nat.le_trans (le_length_writeEntries es rest) (le_length_writeValue v _)
    have hkey := length_writeString k (0x3a :: writeValue v (writeEntries es rest))
    rw [List.length_cons] at hkey
    rw [writeValue, List.length_cons]
    omega

theorem le_length_writeItems : ∀ (vs : List Value) (rest : Bytes), rest.length ≤ (writeItems vs rest).length
  | [], _ => Nat.le_succ _
  | v :: vs, rest =>
    Nat.le_succ_of_le (Nat.le_trans (le_length_writeItems vs rest) (le_length_writeValue v _))

theorem le_length_writeEntries :
    ∀ (es : List (String × Value)) (rest : Bytes), rest.length ≤ (writeEntries es rest).length
  | [], _ => Nat.le_succ _
  | (k, v) :: es, rest => by
    have hentries := Nat.le_trans (le_length_writeEntries es rest) (le_length_writeValue v _)
    have hkey := length_writeString k (0x3a :: writeValue v (writeEntries es rest))
    rw [List.length_cons] at hkey
    rw [writeEntries, List.length_cons]
    omega

end

theorem le_length_writeEntry (e : String × Value) (rest : Bytes) : rest.length ≤ (writeEntry e rest).length := by
  have hvalue := le_length_writeValue e.2 rest
  have hkey := length_writeString e.1 (0x3a :: writeValue e.2 rest)
  rw [List.length_cons] at hkey
  rw [writeEntry]
  omega

/-! ## First bytes -/

theorem ofString_null : Bytes.ofString "null" = [0x6e, 0x75, 0x6c, 0x6c] := Bytes.ofString_eq "null"

theorem ofString_false : Bytes.ofString "false" = [0x66, 0x61, 0x6c, 0x73, 0x65] := Bytes.ofString_eq "false"

theorem ofString_true : Bytes.ofString "true" = [0x74, 0x72, 0x75, 0x65] := Bytes.ofString_eq "true"

/-- A number starts with this byte. -/
def startsNumber (b : UInt8) : Bool := b = 0x2d || isDigit b

theorem startsNumber_toString (n : Int) : ∃ d ds, Bytes.ofString (toString n) = d :: ds ∧ startsNumber d := by
  rw [ofString_toString_int]
  split
  · obtain ⟨d, ds, hds⟩ := List.exists_cons_of_ne_nil (digits_ne_nil n.toNat)
    exact ⟨d, ds, hds, by simp [startsNumber, isDigit_of_mem_digits d (hds ▸ List.mem_cons_self)]⟩
  · exact ⟨0x2d, _, rfl, rfl⟩

/-- The first byte of a number is that of nothing else. -/
theorem startsNumber_only (h : startsNumber b) :
    isBlank b = false ∧ b ≠ 0x5b ∧ b ≠ 0x5d ∧ b ≠ 0x7b ∧ b ≠ 0x7d ∧ b ≠ 0x6e ∧ b ≠ 0x74 ∧ b ≠ 0x66 ∧ b ≠ 0x22 := by
  have hne {c : UInt8} (hc : startsNumber c = false) : b ≠ c := by
    rintro rfl
    exact Bool.noConfusion (h.symm.trans hc)
  have hblank : isBlank b = false := by
    simp [isBlank, hne (c := 0x20) rfl, hne (c := 0x09) rfl, hne (c := 0x0a) rfl, hne (c := 0x0d) rfl]
  exact ⟨hblank, hne rfl, hne rfl, hne rfl, hne rfl, hne rfl, hne rfl, hne rfl, hne rfl⟩

/-- A value of JSON: without doubles, and with any keys. -/
abbrev IsPlain (v : Value) : Prop := v.isWithin (fun _ => false) fun _ => true

/-- No value starts with a blank or with the end of a list. -/
theorem writeValue_first {v : Value} (hplain : IsPlain v) (rest : Bytes) :
    ∃ b tail, writeValue v rest = b :: tail ∧ isBlank b = false ∧ b ≠ 0x5d := by
  have hword {text : String} {b : UInt8} {bs : Bytes} (htext : Bytes.ofString text = b :: bs) :
      writeText text rest = b :: (bs ++ rest) := by rw [writeText, htext, List.cons_append]
  cases v with
  | null => exact ⟨_, _, hword ofString_null, by decide, by decide⟩
  | bool b =>
    cases b with
    | false => exact ⟨_, _, hword ofString_false, by decide, by decide⟩
    | true => exact ⟨_, _, hword ofString_true, by decide, by decide⟩
  | int n =>
    obtain ⟨d, ds, hds, hd⟩ := startsNumber_toString n
    obtain ⟨hblank, -, hclose, -⟩ := startsNumber_only hd
    exact ⟨d, _, hword hds, hblank, hclose⟩
  | float x => cases hplain
  | string s => exact ⟨_, _, rfl, by decide, by decide⟩
  | array vs => exact ⟨_, _, writeValue_array vs rest, by decide, by decide⟩
  | object es => exact ⟨_, _, writeValue_object es rest, by decide, by decide⟩

/-! ## Values without others inside -/

theorem peek_cons (b : UInt8) (bs : Bytes) : peek (b :: bs) = some (b, b :: bs) := rfl

/-- A value that opens neither a list nor an object is read as it is, at any depth. -/
theorem readValue_scalar (hblank : isBlank b = false) (harray : b ≠ 0x5b) (hobject : b ≠ 0x7b) (tail : Bytes) :
    readValue depth (b :: tail) = readScalar b (b :: tail) := by
  cases depth with
  | zero =>
    rw [readValue, bind_eq _ (blanks_cons hblank tail), bind_eq _ (peek_cons b tail)]
    simp [harray, hobject]
  | succ depth =>
    rw [readValue, bind_eq _ (blanks_cons hblank tail), bind_eq _ (peek_cons b tail)]
    simp [harray, hobject]

theorem word_writeText {α : Type} (text : String) (a : α) (rest : Bytes) :
    word text a (writeText text rest) = some (a, rest) := by
  rw [word, writeText, bind_eq _ (literal_append _ rest), pure_eq]

/-- A fixed word comes back as its value. -/
theorem readValue_word {text : String} {v : Value} {bs : Bytes} (htext : Bytes.ofString text = b :: bs)
    (hblank : isBlank b = false) (harray : b ≠ 0x5b) (hobject : b ≠ 0x7b) (hword : readScalar b = word text v)
    (rest : Bytes) : readValue depth (writeText text rest) = some (v, rest) := by
  have hstart : writeText text rest = b :: (bs ++ rest) := by rw [writeText, htext, List.cons_append]
  rw [hstart, readValue_scalar hblank harray hobject, hword, ← hstart]
  exact word_writeText text v rest

/-- An integer comes back. -/
theorem readValue_toString {n : Int} (hn : Value.isIntegerInRange n) (hb : goesOn b = false) (rest : Bytes) :
    readValue depth (writeText (toString n) (b :: rest)) = some (.int n, b :: rest) := by
  obtain ⟨d, ds, hds, hd⟩ := startsNumber_toString n
  obtain ⟨hblank, harray, -, hobject, -, hnull, htrue, hfalse, hquote⟩ := startsNumber_only hd
  have hstart : writeText (toString n) (b :: rest) = d :: (ds ++ b :: rest) := by
    rw [writeText, hds, List.cons_append]
  obtain ⟨m, hread, hvalue⟩ := readNumeral_toString hn hb rest
  have hto : m.toValue? = some (.int n) := by rw [Numeral.toValue?, hvalue]
  rw [hstart, readValue_scalar hblank harray hobject, readScalar, if_neg hnull, if_neg htrue, if_neg hfalse,
    if_neg hquote, ← hstart, bind_eq _ hread, hto, ofOption_some]

/-- A value that holds no others comes back at any depth. -/
theorem readValue_of_depth_eq_zero {v : Value} (hplain : IsPlain v) (hscalar : v.depth = 0) (hb : goesOn b = false)
    (rest : Bytes) : readValue depth (writeValue v (b :: rest)) = some (v, b :: rest) := by
  cases v with
  | null => exact readValue_word ofString_null (by decide) (by decide) (by decide) rfl (b :: rest)
  | bool x =>
    cases x with
    | false => exact readValue_word ofString_false (by decide) (by decide) (by decide) rfl (b :: rest)
    | true => exact readValue_word ofString_true (by decide) (by decide) (by decide) rfl (b :: rest)
  | int n => exact readValue_toString hplain hb rest
  | float x => cases hplain
  | string s =>
    have hread : readScalar 0x22 (writeString s (b :: rest)) = some (.string s, b :: rest) :=
      bind_eq _ (readString_writeString s (b :: rest))
    exact (readValue_scalar (by decide) (by decide) (by decide) _).trans hread
  | array vs => cases hscalar
  | object es => cases hscalar

/-! ## Lists -/

/-- A list comes back up to its end, if its items do. -/
theorem list_back {α : Type} {item : Reader α} {write : α → Bytes → Bytes} {close : UInt8} {as : List α}
    (hclose : close = 0x5d ∨ close = 0x7d) (hwrite : ∀ a rest, rest.length ≤ (write a rest).length)
    (hfirst : ∀ a ∈ as, ∀ rest, ∃ b tail, write a rest = b :: tail ∧ isBlank b = false ∧ b ≠ close)
    (hitem : ∀ a ∈ as, ∀ b rest, goesOn b = false → item (write a (b :: rest)) = some (a, b :: rest)) (rest : Bytes) :
    separated blanks item 0x2c close (writeSeparated write 0x2c close rest as) = some (as, rest) := by
  have hends : 0x2c ≠ close ∧ isBlank close = false ∧ goesOn close = false := by
    rcases hclose with rfl | rfl <;> decide
  refine separated_writeSeparated hends.1 hwrite (blanks_cons hends.2.1 rest) ?_ ?_ ?_
  · intro a ha rest
    obtain ⟨b, tail, hstart, hblank, hb⟩ := hfirst a ha rest
    exact ⟨b, tail, hstart, hb, blanks_cons hblank tail⟩
  · exact fun a ha => ⟨blanks_cons (by decide), fun rest => hitem a ha _ rest (by decide)⟩
  · exact fun a ha => ⟨blanks_cons hends.2.1, fun rest => hitem a ha _ rest hends.2.2⟩

/-! ## All values -/

theorem expect_cons (b : UInt8) (bs : Bytes) : expect b (b :: bs) = some ((), bs) := by
  simp [expect]

/-- An entry comes back if its value does. -/
theorem readEntry_writeEntry {value : Reader Value} {e : String × Value}
    (hvalue : value (writeValue e.2 rest) = some (e.2, rest)) :
    readEntry value (writeEntry e rest) = some (e, rest) := by
  rw [readEntry, writeEntry, bind_eq _ (readString_writeString e.1 _), bind_eq _ (blanks_cons (by decide) _),
    bind_eq _ (expect_cons 0x3a _), bind_eq _ hvalue, pure_eq]

/-- **A value comes back,** whatever follows it that no number goes on with. -/
theorem readValue_writeValue {v : Value} (hplain : IsPlain v) (hdepth : v.depth ≤ depth) (hb : goesOn b = false)
    (rest : Bytes) : readValue depth (writeValue v (b :: rest)) = some (v, b :: rest) := by
  induction depth generalizing v b rest with
  | zero => exact readValue_of_depth_eq_zero hplain (Nat.le_zero.mp hdepth) hb rest
  | succ depth ih =>
    cases v with
    | array vs =>
      have hplain := Value.itemsWithin_iff.mp hplain
      have hdepth := Value.depthItems_le_iff.mp (Nat.le_of_succ_le_succ hdepth)
      have hback := list_back (.inl rfl) le_length_writeValue (fun v hv => writeValue_first (hplain v hv))
        (fun v hv b rest hb => ih (hplain v hv) (hdepth v hv) hb rest) (b :: rest)
      rw [writeValue_array, readValue, bind_eq _ (blanks_cons (by decide) _), bind_eq _ (peek_cons _ _), if_pos rfl,
        bind_eq _ (expect_cons _ _), bind_eq _ hback, pure_eq]
    | object es =>
      obtain ⟨hascending, hplain⟩ := Bool.and_eq_true_iff.mp hplain
      have hplain := Value.entriesWithin_iff.mp hplain
      have hdepth := Value.depthEntries_le_iff.mp (Nat.le_of_succ_le_succ hdepth)
      have hback := list_back (.inr rfl) le_length_writeEntry (fun e _ rest => ⟨0x22, _, rfl, by decide, by decide⟩)
        (fun e he b rest hb => readEntry_writeEntry (ih (hplain e he).2 (hdepth e he) hb rest)) (b :: rest)
      rw [writeValue_object, readValue, bind_eq _ (blanks_cons (by decide) _), bind_eq _ (peek_cons _ _),
        if_neg (by decide), if_pos rfl, bind_eq _ (expect_cons _ _), bind_eq _ hback, pure_eq,
        Value.ofEntries_of_isAscending (of_decide_eq_true hascending)]
    | _ => exact readValue_of_depth_eq_zero hplain rfl hb rest

end Rpc.Json
