import Rpc.Body
import Rpc.Json.Number
import Rpc.Json.Text

/-!
# Reading JSON

- `Json.readValue`: one value, nested no deeper than a given number of levels;
- `Json.skipValue`: one value of any depth that nobody looks at;
- `Json.readRecord`: a record as an object, its fields in any order, or as the array of its fields in order;
- `Json.readRequest?`, `Json.readResponse?`: whole bodies, with nothing but blanks behind them.
-/

namespace Rpc.Json

/-! ## Values -/

/-- A fixed word. -/
def word {α : Type} (text : String) (a : α) : Reader α := do
  Reader.literal (Bytes.ofString text)
  pure a

/-- A value that holds no others, its first byte given. -/
def readScalar (first : UInt8) : Reader Value := do
  if first = 0x6e then word "null" .null
  else if first = 0x74 then word "true" (.bool true)
  else if first = 0x66 then word "false" (.bool false)
  else if first = 0x22 then
    let s ← readString
    pure (.string s)
  else
    let n ← readNumeral
    Reader.ofOption n.toValue?

/-- An entry of an object: its key, the mark, its value. -/
def readEntry {α : Type} (value : Reader α) : Reader (String × α) := do
  let k ← readString
  blanks
  Reader.expect 0x3a
  let v ← value
  pure (k, v)

/-- A value, blanks before it allowed, with at most `depth` arrays and objects around any part of it. -/
def readValue : (depth : Nat) → Reader Value
  | 0 => do
    blanks
    let b ← Reader.peek
    if b = 0x5b || b = 0x7b then failure else readScalar b
  | depth + 1 => do
    blanks
    let b ← Reader.peek
    if b = 0x5b then
      Reader.expect 0x5b
      let items ← Reader.separated blanks (readValue depth) 0x2c 0x5d
      pure (.array items)
    else if b = 0x7b then
      Reader.expect 0x7b
      let entries ← Reader.separated blanks (readEntry (readValue depth)) 0x2c 0x7d
      pure (.ofEntries entries)
    else readScalar b

/-- A value that holds no others and that nobody looks at, its first byte given. -/
def skipScalar (first : UInt8) : Reader Unit := do
  if first = 0x6e then word "null" ()
  else if first = 0x74 then word "true" ()
  else if first = 0x66 then word "false" ()
  else if first = 0x22 then skipString
  else
    let _ ← readNumeral
    pure ()

/-- An entry of an object that nobody looks at. -/
def skipEntry (value : Reader Unit) : Reader Unit := do
  skipString
  blanks
  Reader.expect 0x3a
  value

/-- The steps of `skipValue`; no text is nested deeper than it is long. -/
def skipNested : (depth : Nat) → Reader Unit
  | 0 => failure
  | depth + 1 => do
    blanks
    let b ← Reader.peek
    if b = 0x5b then
      Reader.expect 0x5b
      let _ ← Reader.separated blanks (skipNested depth) 0x2c 0x5d
      pure ()
    else if b = 0x7b then
      Reader.expect 0x7b
      let _ ← Reader.separated blanks (skipEntry (skipNested depth)) 0x2c 0x7d
      pure ()
    else skipScalar b

/-- A value that nobody looks at, of any depth. -/
def skipValue : Reader Unit := fun bs => skipNested (bs.length + 1) bs

/-! ## Records -/

/-- Levels of arrays and objects that may be open at once in a body. -/
def maxDepth : Nat := 127

/-- Reads what stands for a field into a draft; `none` for a name that is no field. -/
abbrev FieldReader (draft : Type) := String → draft → Option (Reader draft)

/-- One field of an object; fields that nobody knows are skipped. -/
def readField {draft : Type} (field : FieldReader draft) (d : draft) : Reader draft := do
  let k ← readString
  blanks
  Reader.expect 0x3a
  match field k d with
  | some read => read
  | none =>
    skipValue
    pure d

/-- The fields of an object after the first, up to its end. -/
def readFields {draft : Type} (field : FieldReader draft) : (fuel : Nat) → draft → Reader draft
  | 0, _ => failure
  | fuel + 1, d => do
    let d ← readField field d
    blanks
    let b ← Reader.byte
    if b = 0x7d then pure d
    else if b = 0x2c then readFields field fuel d
    else failure

/-- The fields of an array in order; the array may end early. -/
def readPositions {draft : Type} (field : FieldReader draft) : List String → draft → Reader draft
  | [], d => do
    blanks
    Reader.expect 0x5d
    pure d
  | name :: names, d => do
    Reader.expect 0x2c
    match field name d with
    | none => failure
    | some read =>
      let d ← read
      blanks
      if ← Reader.accept 0x5d then pure d else readPositions field names d

/-- A record: an object with its fields in any order, or an array of the named fields in order. -/
def readRecord {draft : Type} (field : FieldReader draft) (names : List String) (d : draft) : Reader draft := do
  blanks
  let b ← Reader.byte
  if b = 0x7b then
    blanks
    if ← Reader.accept 0x7d then pure d
    else fun bs => readFields field (bs.length + 1) d bs
  else if b = 0x5b then
    blanks
    if ← Reader.accept 0x5d then pure d
    else fun bs => readPositions field names d (0x2c :: bs)
  else failure

/-! ## Fields -/

/-- Null, or what the reader gives. -/
def readOption {α : Type} (read : Reader α) : Reader (Option α) := do
  blanks
  let b ← Reader.peek
  if b = 0x6e then word "null" none
  else
    let a ← read
    pure (some a)

/-- A list of strings. -/
def readStrings : Reader (List String) := do
  blanks
  Reader.expect 0x5b
  Reader.separated blanks readString 0x2c 0x5d

/-- A list of values, of a body's record around them. -/
def readValues (depth : Nat) : Reader (List Value) := do
  blanks
  Reader.expect 0x5b
  Reader.separated blanks (readValue depth) 0x2c 0x5d

/-- A number that is written whole and fits 32 bits. -/
def readUInt32 : Reader UInt32 := do
  blanks
  let n ← readNumeral
  match n.toInt? with
  | some m => if 0 ≤ m && m < 2 ^ 32 then pure (UInt32.ofNat m.toNat) else failure
  | none => failure

/-- The kind of an error: its name, or an object with the name as its only key and null as the value. -/
def readErrorKind : Reader RemoteErrorKind := do
  blanks
  let b ← Reader.peek
  if b = 0x7b then
    Reader.expect 0x7b
    let (name, _) ← readEntry (do blanks; word "null" ())
    blanks
    Reader.expect 0x7d
    Reader.ofOption (RemoteErrorKind.ofName? name)
  else
    let name ← readString
    Reader.ofOption (RemoteErrorKind.ofName? name)

/-- A field that has not come before. -/
def onceField {α draft : Type} (old : Option α) (read : Reader α) (set : Option α → draft) : Reader draft := do
  let a ← read
  let new ← Reader.ofOption (once old a)
  pure (set new)

/-- The fields of a request. -/
def requestField : FieldReader RequestDraft := fun name d =>
  if name = "service" then some (onceField d.service readString fun x => { d with service := x })
  else if name = "method" then some (onceField d.method readString fun x => { d with method := x })
  else if name = "param_types" then some (onceField d.paramTypes readStrings fun x => { d with paramTypes := x })
  else if name = "args" then some (onceField d.args (readValues (maxDepth - 2)) fun x => { d with args := x })
  else none

/-- The fields of an error. -/
def errorField : FieldReader ErrorDraft := fun name d =>
  if name = "kind" then some (onceField d.kind readErrorKind fun x => { d with kind := x })
  else if name = "message" then some (onceField d.message readString fun x => { d with message := x })
  else if name = "filter" then some (onceField d.filter (readOption readString) fun x => { d with filter := x })
  else none

/-- The record of an error; as an array it has all of its fields. -/
def readError : Reader RemoteError := do
  blanks
  let b ← Reader.peek
  let d ← readRecord errorField ["kind", "message", "filter"] {}
  if b = 0x5b && d.filter.isNone then failure
  else Reader.ofOption d.finish?

/-- The fields of a response. -/
def responseField : FieldReader ResponseDraft := fun name d =>
  if name = "request_id" then some (onceField d.requestId readUInt32 fun x => { d with requestId := x })
  else if name = "result" then some (onceField d.result (readValue (maxDepth - 1)) fun x => { d with result := x })
  else if name = "error" then some (onceField d.error (readOption readError) fun x => { d with error := x })
  else none

/-! ## Bodies -/

/-- The record of a request. -/
def readRequest : Reader Request := do
  let d ← readRecord requestField ["service", "method", "param_types", "args"] {}
  Reader.ofOption d.finish?

/-- The record of a response, which may still hold both a result and an error. -/
def readResponse : Reader ResponseFields := do
  let d ← readRecord responseField ["request_id", "result", "error"] {}
  Reader.ofOption d.finish?

/-- Nothing but blanks. -/
def isTrailing (bs : Bytes) : Bool := bs.all isBlank

/-- A body that is a request. -/
def readRequest? (bs : Bytes) : Except BodyError Request :=
  match readRequest bs with
  | some (r, rest) => if isTrailing rest then .ok r else .error .malformed
  | none => .error .malformed

/-- A body that is a response. -/
def readResponse? (bs : Bytes) : Except BodyError Response :=
  match readResponse bs with
  | some (f, rest) => do
    let r ← f.toResponse
    if isTrailing rest then .ok r else .error .malformed
  | none => .error .malformed

end Rpc.Json
