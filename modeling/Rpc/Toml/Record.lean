import Rpc.Toml.Document

/-!
# Records in documents

A record is a table of its fields, or an array of them in their order, in which the last ones may be missing
(`Toml.Record`). Fields that nobody asks for do not count.
-/

namespace Rpc.Toml

/-- The fields of a record. -/
inductive Record where
  | named (fields : List (String × Value))
  | ordered (fields : List Value)

namespace Record

/-- The record that a value stands for; a date is a record without a field that anybody asks for. -/
def ofValue? : Value → Option Record
  | .table fields => some (.named fields)
  | .array fields => some (.ordered fields)
  | .dateTime _ => some (.named [])
  | _ => none

/-- A field, by its place or by its name. -/
def get? (r : Record) (place : Nat) (name : String) : Option Value :=
  match r with
  | .named fields => fields.lookup name
  | .ordered fields => fields[place]?

/-- What a field holds, or the default if it is missing. -/
def getD {α : Type} (r : Record) (place : Nat) (name : String) (read : Value → Option α) (default : α) : Option α :=
  match r.get? place name with
  | none => some default
  | some v => read v

end Record

/-! ## What fields hold -/

/-- A text. -/
def Value.asString? : Value → Option String
  | .string s => some s
  | _ => none

/-- A truth value. -/
def Value.asBool? : Value → Option Bool
  | .boolean b => some b
  | _ => none

/-- A count of 64 bits. -/
def Value.asCount? : Value → Option Nat
  | .integer n => if 0 ≤ n ∧ n < 2 ^ 64 then some n.toNat else none
  | _ => none

/-- A float, or an integer of 64 bits that is rounded to one. -/
def Value.asBinary64? : Value → Option Binary64
  | .float x => some x
  | .integer n => if -(2 ^ 63) ≤ n ∧ n < 2 ^ 64 then some (Binary64.round (n < 0) n.natAbs 1) else none
  | _ => none

end Rpc.Toml
