import Rpc.Binary64.Decimal
import Rpc.Text.Quoted
import Rpc.Value

/-!
# Values of types

A type says which values a method takes or a caller wants (`ValueType`), and `ValueType.Carrier` what they are read
as.

- `ValueType.read`: a value as one of a type; there are no conversions, a float is no integer;
- `readArguments`: a list of values as one of each of some types, from left to right; neither more nor fewer. The types
  are those of `ValueType` or any others that say how their values are read.
-/

namespace Rpc

universe u

/-! ## Types -/

/-- A range of integers. -/
inductive IntegerType where
  | int64
  | word64
  | size
  | byte
  deriving DecidableEq

namespace IntegerType

/-- The name in messages to people. -/
def name : IntegerType → String
  | int64 => "i64"
  | word64 => "u64"
  | size => "usize"
  | byte => "u8"

/-- The integer lies in the range. -/
def contains (t : IntegerType) (n : Int) : Bool :=
  match t with
  | int64 => -(2 ^ 63) ≤ n && n < 2 ^ 63
  | word64 | size => 0 ≤ n && n < 2 ^ 64
  | byte => 0 ≤ n && n < 2 ^ 8

end IntegerType

/-- A type of values. -/
inductive ValueType where
  | string
  | boolean
  | integer (t : IntegerType)
  | list (item : ValueType)
  /-- Null, or a value of the type. -/
  | optional (t : ValueType)
  | unit
  deriving DecidableEq

namespace ValueType

/-- What a value of the type is read as. -/
@[reducible] def Carrier : ValueType → Type
  | string => String
  | boolean => Bool
  | integer _ => Int
  | list item => List item.Carrier
  | optional t => Option t.Carrier
  | unit => Unit

/-- What a value of the type has to be, in messages to people. -/
def expectation : ValueType → String
  | string => "a string"
  | boolean => "a boolean"
  | integer t => t.name
  | list _ => "a sequence"
  | optional t => t.expectation
  | unit => "unit"

end ValueType

/-! ## Values that do not fit -/

/-- Why a value is not of a type. -/
inductive Mismatch where
  | wrongType (found : Value) (expected : ValueType)
  | outOfRange (found : Int) (expected : IntegerType)
  /-- The arguments end before the types. -/
  | tooFew (found arity : Nat)
  /-- The types end before the arguments. -/
  | tooMany (found : Nat)
  /-- A reason that a type has of its own. -/
  | other (reason : String)

/-- What a value is, in messages to people. -/
def Value.description : Value → String
  | .null => "null"
  | .bool b => "boolean \x60" ++ (if b then "true" else "false") ++ "\x60"
  | .int n => "integer \x60" ++ toString n ++ "\x60"
  | .float x => "floating point \x60" ++ x.render .pointed ++ "\x60"
  | .string s => "string " ++ Text.quoted s
  | .array _ => "sequence"
  | .object _ => "map"

/-- The wording in messages to people. -/
def Mismatch.message : Mismatch → String
  | wrongType found expected => "invalid type: " ++ found.description ++ ", expected " ++ expected.expectation
  | outOfRange found expected => "invalid value: " ++ (Value.int found).description ++ ", expected " ++ expected.name
  | tooFew found arity =>
    "invalid length " ++ toString found ++ ", expected a tuple of size " ++ toString arity
  | tooMany found => "invalid length " ++ toString found ++ ", expected fewer elements in array"
  | other reason => reason

/-! ## Reading -/

/-- A value as one of a type. -/
def ValueType.read : (t : ValueType) → Value → Except Mismatch t.Carrier
  | .string, .string s => .ok s
  | .boolean, .bool b => .ok b
  | .integer t, .int n => if t.contains n then .ok n else .error (.outOfRange n t)
  | .list item, .array vs => vs.mapM item.read
  | .optional _, .null => .ok none
  | .optional t, v => (t.read v).map some
  | .unit, .null => .ok ()
  | t, v => .error (.wrongType v t)

/-- One value for each of some types, as what `Carrier` says that values of a type are read as. -/
@[reducible] def Tuple {ι : Type u} (Carrier : ι → Type) : List ι → Type
  | [] => Unit
  | t :: ts => Carrier t × Tuple Carrier ts

/-- One value for each of some types of values. -/
@[reducible] def Arguments (ts : List ValueType) : Type := Tuple ValueType.Carrier ts

section
variable {ι : Type u} {Carrier : ι → Type} (read : (t : ι) → Value → Except Mismatch (Carrier t))

/-- Values as one of each of some types; `arity` and `found` are how many of either there are in all. -/
def readEach (arity found : Nat) : (ts : List ι) → List Value → Except Mismatch (Tuple Carrier ts)
  | [], [] => .ok ()
  | [], _ :: _ => .error (.tooMany found)
  | _ :: _, [] => .error (.tooFew found arity)
  | t :: ts, v :: vs => do
    let x ← read t v
    let xs ← readEach arity found ts vs
    .ok (x, xs)

/-- Arguments as one of each of some types. A list of no types stands for the unit, which is not written as a list, so
that no arguments are of these types. -/
def readArguments (ts : List ι) (args : List Value) : Except Mismatch (Tuple Carrier ts) :=
  match ts with
  | [] => .error (.wrongType (.array args) .unit)
  | t :: ts => readEach read (ts.length + 1) args.length (t :: ts) args

end

end Rpc
