import Rpc.Proofs.Cbor.Heads
import Rpc.Proofs.Codec.Bodies

/-!
# Values that come back

A value is read back from what was written for it, with nothing of what follows taken (`Cbor.readValue_writeValue`), if
its doubles are finite, its keys are no longer than the reader allows, and it is nested no deeper. The induction is on
the depth, as the reader's recursion is; each item of an array and each entry of an object lies one level below.

Lengths are written as numbers of 64 bits, so what is written has to have a length of 64 bits.
-/

namespace Rpc.Cbor

open Reader

variable {rest : Bytes} {depth : Nat}

/-- A key that the reader allows to come first. -/
def isKey (k : String) : Bool := (Bytes.ofString k).length ≤ maxKeyLength

theorem isKey_iff {k : String} : isKey k ↔ k.utf8ByteSize ≤ maxKeyLength := by
  rw [isKey, Bytes.ofString_eq, Array.length_toList, decide_eq_true_iff]
  rfl

/-- An entry of a map. -/
def writeEntry (e : String × Value) (rest : Bytes) : Bytes := writeText e.1 (writeValue e.2 rest)

theorem writeItems_eq_foldr (items : List Value) (rest : Bytes) : writeItems items rest = items.foldr writeValue rest := by
  induction items with
  | nil => rfl
  | cons v items ih => rw [writeItems, ih, List.foldr_cons]

theorem writeEntries_eq_foldr (entries : List (String × Value)) (rest : Bytes) :
    writeEntries entries rest = entries.foldr writeEntry rest := by
  induction entries with
  | nil => rfl
  | cons e entries ih => rw [writeEntries, ih, List.foldr_cons, writeEntry]

/-! ## Lengths -/

mutual

/-- Every value takes a byte at least. -/
theorem lt_length_writeValue : ∀ (v : Value) (rest : Bytes), rest.length < (writeValue v rest).length
  | .null, _ => Nat.lt_succ_self _
  | .bool _, _ => Nat.lt_succ_self _
  | .int n, rest => by
    rw [writeValue, writeInt]
    split <;> exact lt_length_writeArgument _ _ rest
  | .float x, rest => lt_length_writeFloat x rest
  | .string s, rest => lt_length_writeText s rest
  | .array items, rest =>
    Nat.lt_of_le_of_lt (le_length_writeItems items rest) (lt_length_writeArgument 4 items.length _)
  | .object entries, rest =>
    Nat.lt_of_le_of_lt (le_length_writeEntries entries rest) (lt_length_writeArgument 5 entries.length _)

theorem le_length_writeItems : ∀ (items : List Value) (rest : Bytes), rest.length ≤ (writeItems items rest).length
  | [], _ => Nat.le_refl _
  | v :: items, rest =>
    Nat.le_trans (le_length_writeItems items rest) (Nat.le_of_lt (lt_length_writeValue v _))

theorem le_length_writeEntries :
    ∀ (entries : List (String × Value)) (rest : Bytes), rest.length ≤ (writeEntries entries rest).length
  | [], _ => Nat.le_refl _
  | (k, v) :: entries, rest =>
    Nat.le_trans (le_length_writeEntries entries rest)
      (Nat.le_of_lt (Nat.lt_trans (lt_length_writeValue v _) (lt_length_writeText k _)))

end

theorem lt_length_writeEntry (e : String × Value) (rest : Bytes) : rest.length < (writeEntry e rest).length :=
  Nat.lt_trans (lt_length_writeValue e.2 rest) (lt_length_writeText e.1 _)

/-! ## Values without others inside -/

/-- Behind a head that opens nothing a value is read as it is, at any depth. -/
theorem readValue_scalar {bs tail : Bytes} {h : Head} {v : Value} (hhead : readHead bs = some (h, tail))
    (harray : ∀ n, h ≠ .array n) (hmap : ∀ n, h ≠ .map n) (hscalar : scalarTail h tail = some (v, rest)) :
    readValue depth bs = some (v, rest) := by
  cases depth with
  | zero => rw [readValue, bind_eq _ hhead, hscalar]
  | succ depth =>
    rw [readValue, bind_eq _ hhead]
    cases h with
    | array n => exact absurd rfl (harray n)
    | map n => exact absurd rfl (hmap n)
    | _ => exact hscalar

/-- An integer comes back, on its side of zero. -/
theorem readValue_writeInt {n : Int} (hn : Value.isIntegerInRange n) (rest : Bytes) :
    readValue depth (writeInt n rest) = some (.int n, rest) := by
  have hvalue : ofOption (Value.ofInt? n) rest = some (.int n, rest) := by
    rw [Value.ofInt?, if_pos hn]
    rfl
  simp only [Value.isIntegerInRange, Bool.and_eq_true, decide_eq_true_eq] at hn
  unfold writeInt
  split
  · next hpos =>
    refine readValue_scalar (readHead_writeArgument (by decide) (by omega) rest) nofun nofun ?_
    have htail : integerTail (.unsigned n.toNat) rest = some (n, rest) := by
      rw [integerTail, pure_eq, Int.toNat_of_nonneg hpos]
    exact (bind_eq _ htail).trans hvalue
  · next hneg =>
    refine readValue_scalar (readHead_writeArgument (by decide) (by omega) rest) nofun nofun ?_
    have htail : integerTail (.negative (-1 - n).toNat) rest = some (n, rest) := by
      rw [integerTail, pure_eq, show (-1 - ((-1 - n).toNat : Int)) = n by omega]
    exact (bind_eq _ htail).trans hvalue

/-- A value that holds no others comes back at any depth. -/
theorem readValue_of_depth_eq_zero {v : Value} (hwithin : v.isWithin Binary64.isFinite isKey) (hscalar : v.depth = 0)
    (hlen : (writeValue v rest).length < 2 ^ 64) : readValue depth (writeValue v rest) = some (v, rest) := by
  cases v with
  | null => exact readValue_scalar (h := .simple 22) rfl nofun nofun rfl
  | bool b => cases b <;> exact readValue_scalar rfl nofun nofun rfl
  | int n => exact readValue_writeInt hwithin rest
  | float x =>
    have hfinite : x.isFinite := hwithin
    refine readValue_scalar (readHead_writeFloat hfinite rest) nofun nofun ?_
    rw [scalarTail, pure_eq, Value.ofBinary64, if_pos hfinite]
  | string s =>
    refine readValue_scalar (readHead_writeText hlen) nofun nofun ?_
    rw [scalarTail, bind_eq _ (textTail_append s rest), pure_eq]
  | array items => cases hscalar
  | object entries => cases hscalar

/-! ## Lists -/

/-- The length of a list comes back, and the list behind it is shorter still. -/
theorem length_back {α : Type} {major : Nat} {write : α → Bytes → Bytes} {as : List α} (hmajor : major < 7)
    (hwrite : ∀ a rest, rest.length < (write a rest).length)
    (hlen : (writeArgument major as.length (as.foldr write rest)).length < 2 ^ 64) :
    readHead (writeArgument major as.length (as.foldr write rest)) =
        some (.given major as.length, as.foldr write rest) ∧
      (as.foldr write rest).length < 2 ^ 64 := by
  have hitems : (as.foldr write rest).length < 2 ^ 64 := Nat.lt_trans (lt_length_writeArgument major _ _) hlen
  have hcount : as.length < 2 ^ 64 := by
    have := length_le_length_foldr hwrite as rest
    omega
  exact ⟨readHead_writeArgument hmajor hcount _, hitems⟩

/-- A list behind its length comes back, if its items do. -/
theorem list_back {α : Type} {major : Nat} {item : Reader α} {write : α → Bytes → Bytes} {as : List α}
    (hmajor : major < 7) (hwrite : ∀ a rest, rest.length < (write a rest).length)
    (hitem : ∀ a ∈ as, ∀ rest, (write a rest).length < 2 ^ 64 → item (write a rest) = some (a, rest))
    (hlen : (writeArgument major as.length (as.foldr write rest)).length < 2 ^ 64) :
    readHead (writeArgument major as.length (as.foldr write rest)) =
        some (.given major as.length, as.foldr write rest) ∧
      items item (some as.length) (as.foldr write rest) = some (as, rest) := by
  obtain ⟨hhead, hitems⟩ := length_back hmajor hwrite hlen
  exact ⟨hhead, count_foldr hwrite hitem hitems⟩

/-! ## All values -/

/-- An entry comes back if its key and its value do. -/
theorem readEntry_writeEntry {key : Reader String} {value : Reader Value} {e : String × Value}
    (hkey : key (writeEntry e rest) = some (e.1, writeValue e.2 rest))
    (hvalue : value (writeValue e.2 rest) = some (e.2, rest)) :
    readEntry key value (writeEntry e rest) = some (e, rest) := by
  rw [readEntry, bind_eq _ hkey, bind_eq _ hvalue, pure_eq]

/-- Entries come back if their values do and the first key is short enough. -/
theorem readEntries_writeEntry {value : Reader Value} {entries : List (String × Value)}
    (hfirst : ∀ e ∈ entries.head?, isKey e.1)
    (hvalue : ∀ e ∈ entries, ∀ rest, (writeValue e.2 rest).length < 2 ^ 64 →
      value (writeValue e.2 rest) = some (e.2, rest))
    (hlen : (entries.foldr writeEntry rest).length < 2 ^ 64) :
    readEntries value (some entries.length) (entries.foldr writeEntry rest) = some (entries, rest) := by
  have hback {e : String × Value} (he : e ∈ entries) {rest : Bytes} (hlen : (writeEntry e rest).length < 2 ^ 64) :
      value (writeValue e.2 rest) = some (e.2, rest) :=
    hvalue e he rest (Nat.lt_trans (lt_length_writeText e.1 _) hlen)
  cases entries with
  | nil => rfl
  | cons e entries =>
    have hkey := readKey_writeText (of_decide_eq_true (hfirst e rfl)) hlen
    have hothers : items (readEntry readText value) (some entries.length) (entries.foldr writeEntry rest) =
        some (entries, rest) :=
      count_foldr lt_length_writeEntry
        (fun e' he' _ hlen' => readEntry_writeEntry (readText_writeText hlen') (hback (List.mem_cons_of_mem e he') hlen'))
        (Nat.lt_trans (lt_length_writeEntry e _) hlen)
    rw [List.length_cons, List.foldr_cons, readEntries, someEntries,
      bind_eq _ (readEntry_writeEntry hkey (hback List.mem_cons_self hlen)), bind_eq _ hothers, pure_eq]

/-- **A value comes back.** -/
theorem readValue_writeValue {v : Value} (hwithin : v.isWithin Binary64.isFinite isKey) (hdepth : v.depth ≤ depth)
    (hlen : (writeValue v rest).length < 2 ^ 64) : readValue depth (writeValue v rest) = some (v, rest) := by
  induction depth generalizing v rest with
  | zero => exact readValue_of_depth_eq_zero hwithin (Nat.le_zero.mp hdepth) hlen
  | succ depth ih =>
    cases v with
    | array items =>
      have hwithin := Value.itemsWithin_iff.mp hwithin
      have hdepth := Value.depthItems_le_iff.mp (Nat.le_of_succ_le_succ hdepth)
      rw [writeValue, writeItems_eq_foldr] at hlen ⊢
      obtain ⟨hhead, hitems⟩ :=
        list_back (by decide) lt_length_writeValue (fun v hv rest => ih (hwithin v hv) (hdepth v hv)) hlen
      rw [readValue, bind_eq _ hhead]
      exact bind_eq _ hitems
    | object entries =>
      obtain ⟨hascending, hwithin⟩ := Bool.and_eq_true_iff.mp hwithin
      have hwithin := Value.entriesWithin_iff.mp hwithin
      have hdepth := Value.depthEntries_le_iff.mp (Nat.le_of_succ_le_succ hdepth)
      rw [writeValue, writeEntries_eq_foldr] at hlen ⊢
      obtain ⟨hhead, hlen⟩ := length_back (by decide) lt_length_writeEntry hlen
      have hentries := readEntries_writeEntry (fun e he => (hwithin e (List.mem_of_mem_head? he)).1)
        (fun e he rest => ih (hwithin e he).2 (hdepth e he)) hlen
      rw [readValue, bind_eq _ hhead, ← Value.ofEntries_of_isAscending (of_decide_eq_true hascending)]
      exact bind_eq _ hentries
    | _ => exact readValue_of_depth_eq_zero hwithin rfl hlen

end Rpc.Cbor
