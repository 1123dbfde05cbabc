import Rpc.Message

/-!
# Bodies

A body is the record of a request or of a response, field by field and in any order. While it is read, its fields
collect in a draft; a field comes at most once, and `finish?` says what may be missing. A response body must not carry
an error beside a result that is not null (`BodyError.resultAndError`).
-/

namespace Rpc

/-- Why a body is refused. -/
inductive BodyError where
  /-- Not a record of the format, or not of the fields that are asked for. -/
  | malformed
  /-- Both a result and an error. -/
  | resultAndError (requestId : UInt32)
  deriving DecidableEq

/-- The wording in messages to people. -/
def BodyError.text : BodyError → String
  | .malformed => "malformed body"
  | .resultAndError id => "response " ++ toString id.toNat ++ " carries both a result and an error"

/-- The first value given to a field; a second one is refused. -/
def once {α : Type} (old : Option α) (new : α) : Option (Option α) :=
  match old with
  | none => some (some new)
  | some _ => none

/-- The fields of a request read so far. -/
structure RequestDraft where
  service : Option String := none
  method : Option String := none
  paramTypes : Option (List String) := none
  args : Option (List Value) := none

/-- A request needs all of its fields. -/
def RequestDraft.finish? (d : RequestDraft) : Option Request := do
  some ⟨← d.service, ← d.method, ← d.paramTypes, ← d.args⟩

/-- The fields of an error read so far. -/
structure ErrorDraft where
  kind : Option RemoteErrorKind := none
  message : Option String := none
  filter : Option (Option String) := none

/-- An error without a filter is not about one. -/
def ErrorDraft.finish? (d : ErrorDraft) : Option RemoteError := do
  some ⟨← d.kind, ← d.message, d.filter.getD none⟩

/-- The fields of a response read so far. -/
structure ResponseDraft where
  requestId : Option UInt32 := none
  result : Option Value := none
  error : Option (Option RemoteError) := none

/-- The fields of a response; a missing result is null, a missing error is none. -/
structure ResponseFields where
  requestId : UInt32
  result : Value
  error : Option RemoteError

/-- A response needs its id only. -/
def ResponseDraft.finish? (d : ResponseDraft) : Option ResponseFields := do
  some ⟨← d.requestId, d.result.getD .null, d.error.getD none⟩

/-- The response with these fields, unless they hold both a result and an error. -/
def ResponseFields.toResponse (f : ResponseFields) : Except BodyError Response :=
  match f.error, f.result with
  | none, result => .ok (.ok f.requestId result)
  | some e, .null => .ok (.err f.requestId e)
  | some _, _ => .error (.resultAndError f.requestId)

end Rpc
