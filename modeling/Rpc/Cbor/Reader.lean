import Rpc.Body
import Rpc.Cbor.Head

/-!
# Reading CBOR

- `Cbor.readValue`: one value, nested no deeper than a given number of levels; byte strings, tags other than those of
  integers, and unknown simple values are no values;
- `Cbor.skipValue`: one item that nobody looks at;
- `Cbor.readRequest?`, `Cbor.readResponse?`: a body at the front of a byte string; what follows it is ignored.

Where the kind of an item is known in advance, tags in front of it are skipped.
-/

namespace Rpc.Cbor

/-! ## Strings -/

/-- The most bytes of a name of a field, and of the first key of an object. -/
def maxKeyLength : Nat := 4096

/-- The pieces of a string of indefinite length; such strings may stand inside each other. -/
def readPieces {α : Type} (isPiece : Head → Option (Option Nat)) (piece : Bytes → Option α) :
    (fuel : Nat) → (opened : Nat) → List α → Reader (List α)
  | _, 0, done => pure done.reverse
  | 0, _ + 1, _ => failure
  | fuel + 1, opened + 1, done => do
    match ← readHead with
    | .stop => readPieces isPiece piece fuel opened done
    | h =>
      match isPiece h with
      | none => failure
      | some none => readPieces isPiece piece fuel (opened + 2) done
      | some (some n) =>
        let a ← Reader.ofOption (piece (← Reader.take n))
        readPieces isPiece piece fuel (opened + 1) (a :: done)

/-- The length given by the head of a text. -/
def textHead : Head → Option (Option Nat)
  | .text n => some n
  | _ => none

/-- The length given by the head of a byte string. -/
def bytesHead : Head → Option (Option Nat)
  | .bytes n => some n
  | _ => none

/-- What follows the head of a text; every piece is valid UTF-8 by itself. -/
def textTail : (length : Option Nat) → Reader String
  | some n => do Reader.ofOption (Bytes.toString? (← Reader.take n))
  | none => fun bs => do
    let (pieces, rest) ← readPieces textHead Bytes.toString? (bs.length + 1) 1 [] bs
    some (String.join pieces, rest)

/-- What follows the head of a byte string. -/
def bytesTail : (length : Option Nat) → Reader Bytes
  | some n => Reader.take n
  | none => fun bs => do
    let (pieces, rest) ← readPieces bytesHead some (bs.length + 1) 1 [] bs
    some (pieces.flatten, rest)

/-- A text of any length. -/
def readText : Reader String := do
  match ← untagged with
  | .text n => textTail n
  | _ => failure

/-- The first key of an object: a text of a length given at once, not beyond `maxKeyLength`. -/
def readKey : Reader String := do
  match ← untagged with
  | .text (some n) => if n ≤ maxKeyLength then textTail (some n) else failure
  | _ => failure

/-- The name of a field or of a kind: as a first key, but its bytes may also come as a byte string. -/
def readName : Reader (Option String) := do
  match ← untagged with
  | .text (some n) =>
    if n ≤ maxKeyLength then
      let s ← textTail (some n)
      pure (some s)
    else failure
  | .bytes (some n) =>
    if n ≤ maxKeyLength then
      let bs ← Reader.take n
      pure (Bytes.toString? bs)
    else failure
  | _ => failure

/-! ## Integers -/

/-- The natural number whose bytes follow, at most 16 of them after leading zeros. -/
def readBigNat : Reader Nat := do
  match ← readHead with
  | .bytes n =>
    let bs := (← bytesTail n).dropWhile (· = 0)
    if bs.length ≤ 16 then pure (Bytes.toNat bs) else failure
  | _ => failure

/-- The integer with a given head. -/
def integerTail : Head → Reader Int
  | .unsigned n => pure n
  | .negative n => pure (-1 - n)
  | .tag t => do
    let n ← readBigNat
    if t = tagPositive then pure n
    else if t = tagNegative then pure (-1 - n)
    else failure
  | _ => failure

/-- An integer from 0 to `2 ^ 32 - 1`. -/
def readUInt32 : Reader UInt32 := do
  let h ← untaggedInteger
  let n ← integerTail h
  if 0 ≤ n && n < 2 ^ 32 then pure (UInt32.ofNat n.toNat) else failure

/-! ## Values -/

/-- The items of an array or a map. -/
def items {α : Type} (item : Reader α) : (length : Option Nat) → Reader (List α)
  | some n => Reader.count item n
  | none => Reader.untilStop item 0xff

/-- A value without others inside, by its head. -/
def scalarTail : Head → Reader Value
  | .float x => pure (.ofBinary64 x)
  | .text n => do pure (.string (← textTail n))
  | .simple n =>
    if n = 20 then pure (.bool false)
    else if n = 21 then pure (.bool true)
    else if n = 22 || n = 23 then pure .null
    else failure
  | .bytes _ | .array _ | .map _ | .stop => failure
  | h => do Reader.ofOption (Value.ofInt? (← integerTail h))

/-- An entry of an object. -/
def readEntry (key : Reader String) (value : Reader Value) : Reader (String × Value) := do
  let k ← key
  let v ← value
  pure (k, v)

/-- The entries of an object that has some, by the number of those behind the first. The rule for keys is about the first
of them; every later one is any text. -/
def someEntries (value : Reader Value) (others : Option Nat) : Reader (List (String × Value)) := do
  let e ← readEntry readKey value
  let es ← items (readEntry readText value) others
  pure (e :: es)

/-- The entries of an object. -/
def readEntries (value : Reader Value) : (length : Option Nat) → Reader (List (String × Value))
  | some 0 => pure []
  | some (n + 1) => someEntries value (some n)
  | none => do
    if ← Reader.accept 0xff then pure []
    else someEntries value none

/-- A value with at most `depth` arrays and maps around any part of it. -/
def readValue : (depth : Nat) → Reader Value
  | 0 => do scalarTail (← readHead)
  | depth + 1 => do
    match ← readHead with
    | .array n =>
      let vs ← items (readValue depth) n
      pure (.array vs)
    | .map n =>
      let es ← readEntries (readValue depth) n
      pure (.ofEntries es)
    | h => scalarTail h

/-- An item without others inside that nobody looks at, by its head. -/
def skipScalarTail : Head → Reader Unit
  | .unsigned _ | .negative _ | .float _ => pure ()
  | .bytes n => do
    let _ ← bytesTail n
    pure ()
  | .text n => do
    let _ ← textTail n
    pure ()
  | .simple n => if 20 ≤ n && n ≤ 23 then pure () else failure
  | .tag t => do
    let n ← readBigNat
    if t = tagPositive || t = tagNegative && n < 2 ^ 127 then pure () else failure
  | .array _ | .map _ | .stop => failure

/-- An item that nobody looks at, with at most `depth` arrays, maps and tags around any part of it. -/
def skipValue : (depth : Nat) → Reader Unit
  | 0 => do skipScalarTail (← readHead)
  | depth + 1 => do
    match ← readHead with
    | .array n =>
      let _ ← items (skipValue depth) n
      pure ()
    | .map n =>
      let _ ← items (do skipValue depth; skipValue depth) n
      pure ()
    | .tag t => if t = tagPositive || t = tagNegative then skipScalarTail (.tag t) else skipValue depth
    | h => skipScalarTail h

/-! ## Records -/

/-- Levels of arrays and maps that may be open at once in a body. -/
def maxDepth : Nat := 256

/-- Reads what stands for a field into a draft; `none` for a name that is no field. -/
abbrev FieldReader (draft : Type) := String → draft → Option (Reader draft)

/-- One entry of a record; entries that nobody knows are skipped. -/
def readField {draft : Type} (depth : Nat) (field : FieldReader draft) (d : draft) : Reader draft := do
  let name ← readName
  match name.bind (field · d) with
  | some read => read
  | none =>
    skipValue depth
    pure d

/-- A given number of entries of a record. -/
def countFields {draft : Type} (depth : Nat) (field : FieldReader draft) : (n : Nat) → draft → Reader draft
  | 0, d => pure d
  | n + 1, d => do countFields depth field n (← readField depth field d)

/-- The entries of a record up to the stop. -/
def stopFields {draft : Type} (depth : Nat) (field : FieldReader draft) : (fuel : Nat) → draft → Reader draft
  | 0, _ => failure
  | fuel + 1, d => do
    if ← Reader.accept 0xff then pure d
    else stopFields depth field fuel (← readField depth field d)

/-- A record, with at most `depth` levels inside it. -/
def readRecord {draft : Type} (depth : Nat) (field : FieldReader draft) (d : draft) : Reader draft := do
  match ← untagged with
  | .map (some n) => countFields depth field n d
  | .map none => fun bs => stopFields depth field (bs.length + 1) d bs
  | _ => failure

/-! ## Fields -/

/-- Null, or what the reader gives. -/
def readOption {α : Type} (read : Reader α) : Reader (Option α) := fun bs => do
  match ← readHead bs with
  | (.simple 22, rest) | (.simple 23, rest) => some (none, rest)
  | _ =>
    let (a, rest) ← read bs
    some (some a, rest)

/-- A list of texts; an empty byte string is an empty list as well. -/
def readTexts : Reader (List String) := do
  match ← untagged with
  | .array n => items readText n
  | .bytes n =>
    let bs ← bytesTail n
    if bs.isEmpty then pure [] else failure
  | _ => failure

/-- A list of values; a byte string is the list of its bytes. -/
def readValues (depth : Nat) : Reader (List Value) := do
  match ← untagged with
  | .array n => items (readValue depth) n
  | .bytes n =>
    let bs ← bytesTail n
    pure (bs.map fun b => .int b.toNat)
  | _ => failure

/-- The kind of an error: its name, before which the head of a map with one entry may stand. -/
def readErrorKind : Reader RemoteErrorKind := fun bs => do
  let (h, inner) ← untagged bs
  let (name, rest) ← match h with
    | .text (some _) => readName bs
    | .map (some 1) => readName inner
    | _ => none
  let kind ← name.bind RemoteErrorKind.ofName?
  some (kind, rest)

/-- A field that has not come before. -/
def onceField {α draft : Type} (old : Option α) (read : Reader α) (set : Option α → draft) : Reader draft := do
  let a ← read
  let new ← Reader.ofOption (once old a)
  pure (set new)

/-- The fields of a request. -/
def requestField : FieldReader RequestDraft := fun name d =>
  if name = "service" then some (onceField d.service readText fun x => { d with service := x })
  else if name = "method" then some (onceField d.method readText fun x => { d with method := x })
  else if name = "param_types" then some (onceField d.paramTypes readTexts fun x => { d with paramTypes := x })
  else if name = "args" then some (onceField d.args (readValues (maxDepth - 2)) fun x => { d with args := x })
  else none

/-- The fields of an error. -/
def errorField : FieldReader ErrorDraft := fun name d =>
  if name = "kind" then some (onceField d.kind readErrorKind fun x => { d with kind := x })
  else if name = "message" then some (onceField d.message readText fun x => { d with message := x })
  else if name = "filter" then some (onceField d.filter (readOption readText) fun x => { d with filter := x })
  else none

/-- The record of an error. -/
def readError : Reader RemoteError := do
  let d ← readRecord (maxDepth - 2) errorField {}
  Reader.ofOption d.finish?

/-- The fields of a response. -/
def responseField : FieldReader ResponseDraft := fun name d =>
  if name = "request_id" then some (onceField d.requestId readUInt32 fun x => { d with requestId := x })
  else if name = "result" then some (onceField d.result (readValue (maxDepth - 1)) fun x => { d with result := x })
  else if name = "error" then some (onceField d.error (readOption readError) fun x => { d with error := x })
  else none

/-! ## Bodies -/

/-- The record of a request. -/
def readRequest : Reader Request := do
  let d ← readRecord (maxDepth - 1) requestField {}
  Reader.ofOption d.finish?

/-- The record of a response, which may still hold both a result and an error. -/
def readResponse : Reader ResponseFields := do
  let d ← readRecord (maxDepth - 1) responseField {}
  Reader.ofOption d.finish?

/-- A body that starts with a request. -/
def readRequest? (bs : Bytes) : Except BodyError Request :=
  match readRequest bs with
  | some (r, _) => .ok r
  | none => .error .malformed

/-- A body that starts with a response. -/
def readResponse? (bs : Bytes) : Except BodyError Response :=
  match readResponse bs with
  | some (f, _) => f.toResponse
  | none => .error .malformed

end Rpc.Cbor
