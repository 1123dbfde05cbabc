import Rpc.Body
import Rpc.Cbor.Head

/-!
# Writing CBOR

Each writer puts an item in front of the bytes that follow it. Lengths are always given, integers and doubles take the
fewest bytes that keep them, and a record is a map from the names of its fields, in order.
-/

namespace Rpc.Cbor

/-- A text. -/
def writeText (s : String) (rest : Bytes) : Bytes :=
  let bs := Bytes.ofString s
  writeArgument 3 bs.length (bs ++ rest)

/-- An integer that a value can hold. -/
def writeInt (n : Int) (rest : Bytes) : Bytes :=
  if 0 ≤ n then writeArgument 0 n.toNat rest else writeArgument 1 (-1 - n).toNat rest

/-- Null. -/
def writeNull (rest : Bytes) : Bytes := 0xf6 :: rest

mutual

/-- A value. -/
def writeValue : Value → Bytes → Bytes
  | .null, rest => writeNull rest
  | .bool b, rest => (if b then 0xf5 else 0xf4) :: rest
  | .int n, rest => writeInt n rest
  | .float x, rest => writeFloat x rest
  | .string s, rest => writeText s rest
  | .array items, rest => writeArgument 4 items.length (writeItems items rest)
  | .object entries, rest => writeArgument 5 entries.length (writeEntries entries rest)

/-- The items of an array. -/
def writeItems : List Value → Bytes → Bytes
  | [], rest => rest
  | v :: vs, rest => writeValue v (writeItems vs rest)

/-- The entries of an object. -/
def writeEntries : List (String × Value) → Bytes → Bytes
  | [], rest => rest
  | (k, v) :: es, rest => writeText k (writeValue v (writeEntries es rest))

end

/-! ## Bodies -/

/-- A list of texts. -/
def writeTexts (ss : List String) (rest : Bytes) : Bytes :=
  writeArgument 4 ss.length (ss.foldr writeText rest)

/-- A value that may be absent. -/
def writeOption {α : Type} (write : α → Bytes → Bytes) : Option α → Bytes → Bytes
  | none, rest => writeNull rest
  | some a, rest => write a rest

/-- The record of a request. -/
def writeRequest (r : Request) (rest : Bytes) : Bytes :=
  writeArgument 5 4 <|
    writeText "service" <| writeText r.service <|
    writeText "method" <| writeText r.method <|
    writeText "param_types" <| writeTexts r.paramTypes <|
    writeText "args" <| writeArgument 4 r.args.length <| writeItems r.args rest

/-- The record of an error. -/
def writeError (e : RemoteError) (rest : Bytes) : Bytes :=
  writeArgument 5 3 <|
    writeText "kind" <| writeText e.kind.name <|
    writeText "message" <| writeText e.message <|
    writeText "filter" <| writeOption writeText e.filter rest

/-- The record of a response. -/
def writeResponse (r : Response) (rest : Bytes) : Bytes :=
  writeArgument 5 3 <|
    writeText "request_id" <| writeArgument 0 r.requestId.toNat <|
    writeText "result" <| writeValue r.wireResult <|
    writeText "error" <| writeOption writeError r.error? rest

end Rpc.Cbor
