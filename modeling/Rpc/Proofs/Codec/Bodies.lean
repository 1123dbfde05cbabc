import Rpc.Codec.Builtin

/-!
# Payloads that a format can hold

What a format asks of a payload is a predicate on its values (`Value.isWithin`), with the doubles and the keys that the
format has as parameters, and a bound on how deep the body is nested (`Payload.depth`). The serializer of a format
takes every payload back whose record the format takes back (`Serializer.ofRecords_round_trip`).
-/

namespace Rpc

namespace Value

/-! ## Objects -/

/-- The entries stand in ascending order of their keys, one entry a key. -/
def IsAscending (entries : List (String × Value)) : Prop := entries.Pairwise fun e e' => e.1 < e'.1

instance (entries : List (String × Value)) : Decidable (IsAscending entries) :=
  inferInstanceAs (Decidable (entries.Pairwise fun e e' => e.1 < e'.1))

/-- A key above all others goes to the end. -/
theorem insertEntry_of_lt {k : String} {v : Value} {entries : List (String × Value)} (h : ∀ e ∈ entries, e.1 < k) :
    insertEntry k v entries = entries ++ [(k, v)] := by
  induction entries with
  | nil => rfl
  | cons e entries ih =>
    obtain ⟨he, hrest⟩ := List.forall_mem_cons.mp h
    have hnot : ¬ k < e.1 := String.lt_asymm he
    have hne : k ≠ e.1 := fun heq => String.lt_irrefl k (heq ▸ he)
    simp only [insertEntry, hnot, hne, if_false, ih hrest, List.cons_append]

/-- Entries in ascending order are inserted one behind the other. -/
theorem foldl_insertEntry (front : List (String × Value)) {entries : List (String × Value)}
    (h : IsAscending (front ++ entries)) :
    entries.foldl (fun es e => insertEntry e.1 e.2 es) front = front ++ entries := by
  induction entries generalizing front with
  | nil => simp
  | cons e entries ih =>
    have hlast : ∀ e' ∈ front, e'.1 < e.1 := fun e' he' => (List.pairwise_append.mp h).2.2 e' he' e List.mem_cons_self
    rw [List.foldl_cons, insertEntry_of_lt hlast, ih _ (by simpa using h)]
    simp

/-- The object of entries in ascending order has these entries. -/
theorem ofEntries_of_isAscending {entries : List (String × Value)} (h : IsAscending entries) :
    ofEntries entries = .object entries :=
  congrArg Value.object (foldl_insertEntry [] h)

/-! ## Values -/

section Within

variable (float : Binary64 → Bool) (key : String → Bool)

mutual

/-- The value is one of the type throughout, with integers of 64 bits and objects in order, and its doubles and its
keys are among the given ones. -/
def isWithin : Value → Bool
  | .null | .bool _ | .string _ => true
  | .int n => isIntegerInRange n
  | .float x => float x
  | .array items => itemsWithin items
  | .object entries => decide (IsAscending entries) && entriesWithin entries

/-- All items are. -/
def itemsWithin : List Value → Bool
  | [] => true
  | v :: rest => isWithin v && itemsWithin rest

/-- All entries are. -/
def entriesWithin : List (String × Value) → Bool
  | [] => true
  | (k, v) :: rest => key k && isWithin v && entriesWithin rest

end

variable {float key}

theorem itemsWithin_iff {items : List Value} : itemsWithin float key items ↔ ∀ v ∈ items, v.isWithin float key := by
  induction items with
  | nil => simp [itemsWithin]
  | cons v rest ih => simp [itemsWithin, ih]

theorem entriesWithin_iff {entries : List (String × Value)} :
    entriesWithin float key entries ↔ ∀ e ∈ entries, key e.1 ∧ e.2.isWithin float key := by
  induction entries with
  | nil => simp [entriesWithin]
  | cons e rest ih => simp [entriesWithin, ih]

end Within

theorem depthItems_le_iff {items : List Value} {n : Nat} : depthItems items ≤ n ↔ ∀ v ∈ items, v.depth ≤ n := by
  induction items with
  | nil => simp [depthItems]
  | cons v rest ih => rw [depthItems, Nat.max_le, ih, List.forall_mem_cons]

theorem depthEntries_le_iff {entries : List (String × Value)} {n : Nat} :
    depthEntries entries ≤ n ↔ ∀ e ∈ entries, e.2.depth ≤ n := by
  induction entries with
  | nil => simp [depthEntries]
  | cons e rest ih => rw [depthEntries, Nat.max_le, ih, List.forall_mem_cons]

end Value

/-! ## Payloads -/

namespace Payload

/-- The values that a payload carries. -/
def values : Payload → List Value
  | .empty => []
  | .request r => r.args
  | .response r => r.result?.toList

/-- The greatest number of arrays and objects around a part of the body, its records and the lists of a request
included. -/
def depth : Payload → Nat
  | .empty => 0
  | .request r => Value.depthItems r.args + 2
  | .response ⟨_, .ok result⟩ => result.depth + 1
  | .response ⟨_, .error _⟩ => 2

end Payload

/-- What is sent in the place of a result is as the payload is: beside an error it is null. -/
theorem Response.wireResult_within {float : Binary64 → Bool} {key : String → Bool} {r : Response} {n : Nat}
    (hwithin : ∀ v ∈ (Payload.response r).values, v.isWithin float key) (hdepth : (Payload.response r).depth ≤ n) :
    r.wireResult.isWithin float key ∧ r.wireResult.depth ≤ n - 1 := by
  obtain ⟨requestId, error | result⟩ := r
  · exact ⟨rfl, Nat.zero_le _⟩
  · exact ⟨hwithin result (List.mem_singleton.mpr rfl), Nat.le_sub_of_add_le hdepth⟩

/-- The kinds of errors have names of their own. -/
theorem RemoteErrorKind.ofName?_name (kind : RemoteErrorKind) : RemoteErrorKind.ofName? kind.name = some kind := by
  cases kind <;> rfl

/-- The fields of a response make the response again. -/
theorem Response.toResponse_fields (r : Response) :
    ResponseFields.toResponse ⟨r.requestId, r.wireResult, r.error?⟩ = .ok r := by
  obtain ⟨requestId, result | error⟩ := r <;> rfl

/-- A payload comes back from its body if its record does. -/
theorem Serializer.ofRecords_round_trip {name : String} {writeRequest : Request → Bytes} {writeResponse : Response → Bytes}
    {readRequest : Bytes → Except BodyError Request} {readResponse : Bytes → Except BodyError Response}
    {type : MessageType} {p : Payload} (hfits : p.fits type)
    (hrequest : ∀ r, p = .request r → readRequest (writeRequest r) = .ok r)
    (hresponse : ∀ r, p = .response r → readResponse (writeResponse r) = .ok r) :
    ∃ body, (Serializer.ofRecords name writeRequest writeResponse readRequest readResponse).serialize p = .ok body ∧
      (Serializer.ofRecords name writeRequest writeResponse readRequest readResponse).deserialize type body = .ok p := by
  cases p with
  | empty =>
    refine ⟨[], rfl, ?_⟩
    cases type <;> simp_all [Payload.fits, Serializer.ofRecords]
  | request r =>
    obtain rfl : type = .request := by cases type <;> simp_all [Payload.fits]
    exact ⟨writeRequest r, rfl, by simp only [Serializer.ofRecords, hrequest r rfl]; rfl⟩
  | response r =>
    obtain rfl : type = .response := by cases type <;> simp_all [Payload.fits]
    exact ⟨writeResponse r, rfl, by simp only [Serializer.ofRecords, hresponse r rfl]; rfl⟩

end Rpc
