import Rpc.Binary64.Decimal
import Rpc.Body
import Rpc.Bytes

/-!
# Writing JSON

Each writer puts a text in front of the bytes that follow it. Strings escape only what has to be: the quote, the
backslash and the control characters below the blank (`Json.escape`). Records are written with their fields in order
and without blanks (`Json.writeRequest`, `Json.writeResponse`).
-/

namespace Rpc.Json

/-- The bytes of a literal text in front of `rest`. -/
def writeText (s : String) (rest : Bytes) : Bytes := Bytes.ofString s ++ rest

/-- The escape letter of a byte that has one. -/
def escapeLetter? (b : UInt8) : Option Char :=
  if b = 0x22 then some '"'
  else if b = 0x5c then some '\\'
  else if b = 0x08 then some 'b'
  else if b = 0x09 then some 't'
  else if b = 0x0a then some 'n'
  else if b = 0x0c then some 'f'
  else if b = 0x0d then some 'r'
  else none

/-- A lower-case hexadecimal digit. -/
def hexDigit (n : Nat) : UInt8 := if n < 10 then UInt8.ofNat (48 + n) else UInt8.ofNat (87 + n)

/-- A byte of a string as it stands between the quotes. -/
def escape (b : UInt8) (rest : Bytes) : Bytes :=
  match escapeLetter? b with
  | some c => 0x5c :: UInt8.ofNat c.toNat :: rest
  | none =>
    if b < 0x20 then
      0x5c :: 0x75 :: 0x30 :: 0x30 :: hexDigit (b.toNat / 16) :: hexDigit (b.toNat % 16) :: rest
    else b :: rest

/-- A string in quotes. -/
def writeString (s : String) (rest : Bytes) : Bytes :=
  0x22 :: (Bytes.ofString s).foldr escape (0x22 :: rest)

/-- A list in brackets, with commas between the items. -/
def writeList {α : Type} (write : α → Bytes → Bytes) (rest : Bytes) : List α → Bytes
  | [] => 0x5b :: 0x5d :: rest
  | a :: as => 0x5b :: write a (as.foldr (fun b r => 0x2c :: write b r) (0x5d :: rest))

mutual

/-- A value. -/
def writeValue : Value → Bytes → Bytes
  | .null, rest => writeText "null" rest
  | .bool b, rest => writeText (if b then "true" else "false") rest
  | .int n, rest => writeText (toString n) rest
  | .float x, rest => writeText (x.render .json) rest
  | .string s, rest => writeString s rest
  | .array [], rest => writeText "[]" rest
  | .array (v :: vs), rest => 0x5b :: writeValue v (writeItems vs rest)
  | .object [], rest => writeText "\x7b\x7d" rest
  | .object ((k, v) :: es), rest => 0x7b :: writeString k (0x3a :: writeValue v (writeEntries es rest))

/-- The further items of an array and its end. -/
def writeItems : List Value → Bytes → Bytes
  | [], rest => 0x5d :: rest
  | v :: vs, rest => 0x2c :: writeValue v (writeItems vs rest)

/-- The further entries of an object and its end. -/
def writeEntries : List (String × Value) → Bytes → Bytes
  | [], rest => 0x7d :: rest
  | (k, v) :: es, rest => 0x2c :: writeString k (0x3a :: writeValue v (writeEntries es rest))

end

/-! ## Bodies -/

/-- The name of a field and the mark after it. -/
def writeField (name : String) (rest : Bytes) : Bytes := writeString name (0x3a :: rest)

/-- A value that may be absent. -/
def writeOption {α : Type} (write : α → Bytes → Bytes) : Option α → Bytes → Bytes
  | none, rest => writeText "null" rest
  | some a, rest => write a rest

/-- The record of a request. -/
def writeRequest (r : Request) (rest : Bytes) : Bytes :=
  0x7b :: writeField "service" (writeString r.service <|
    0x2c :: writeField "method" (writeString r.method <|
    0x2c :: writeField "param_types" (writeList writeString (
    0x2c :: writeField "args" (writeList writeValue (0x7d :: rest) r.args)) r.paramTypes)))

/-- The record of an error. -/
def writeError (e : RemoteError) (rest : Bytes) : Bytes :=
  0x7b :: writeField "kind" (writeString e.kind.name <|
    0x2c :: writeField "message" (writeString e.message <|
    0x2c :: writeField "filter" (writeOption writeString e.filter (0x7d :: rest))))

/-- The record of a response. -/
def writeResponse (r : Response) (rest : Bytes) : Bytes :=
  0x7b :: writeField "request_id" (writeText (toString r.requestId.toNat) <|
    0x2c :: writeField "result" (writeValue r.wireResult <|
    0x2c :: writeField "error" (writeOption writeError r.error? (0x7d :: rest))))

end Rpc.Json
