import Rpc.Toml.Scalar

/-!
# TOML documents

A document is a sequence of lines: entries of the current table, and headers that open another one. `Toml.parse?`
gives the table of a whole document, or nothing if it is not well-formed.

Tables come from headers, from the paths of headers, or from dotted keys (`Origin`). A header may open a table once; a
table from a path may still be opened; a table from dotted keys may only be extended by dotted keys.
-/

namespace Rpc.Toml

/-! ## Tables under way -/

/-- Where a table comes from. -/
inductive Origin where
  /-- Opened by a header. -/
  | header
  /-- On the way to a table opened by a header. -/
  | path
  /-- Made by dotted keys. -/
  | dotted
  deriving DecidableEq

/-- What a key stands for in a document under way. -/
inductive Node where
  | value (v : Value)
  | table (origin : Origin) (entries : List (String × Node))
  /-- Tables opened one after the other by headers in double brackets, last one first. -/
  | tables (last : List (String × Node)) (earlier : List (List (String × Node)))

/-- The entries of a table. -/
abbrev Entries := List (String × Node)

/-- The node of a key. -/
def find (k : String) (es : Entries) : Option Node := (es.find? (·.1 = k)).map (·.2)

/-- The entries with the node of a key set. -/
def put (k : String) (n : Node) (es : Entries) : Entries :=
  if es.any (·.1 = k) then es.map fun e => if e.1 = k then (k, n) else e else es ++ [(k, n)]

/-- Changes the table at the end of a header's path; missing tables on the way are made. -/
def alongPath (f : Entries → Option Entries) : List String → Entries → Option Entries
  | [], es => f es
  | k :: ks, es =>
    match find k es with
    | none => do put k (.table .path (← alongPath f ks [])) es
    | some (.table o inner) => do put k (.table o (← alongPath f ks inner)) es
    | some (.tables last earlier) => do put k (.tables (← alongPath f ks last) earlier) es
    | some (.value _) => none

/-- Adds an entry under a dotted key; tables on the way are made or come from dotted keys. -/
def addEntry (v : Value) : List String → Entries → Option Entries
  | [], _ => none
  | [k], es => if (find k es).isSome then none else some (put k (.value v) es)
  | k :: ks, es =>
    match find k es with
    | none => do put k (.table .dotted (← addEntry v ks [])) es
    | some (.table .dotted inner) => do put k (.table .dotted (← addEntry v ks inner)) es
    | some (.table .path inner) =>
      if ks.length = 1 then none else do put k (.table .path (← addEntry v ks inner)) es
    | some _ => none

/-- Opens a table in its parent. -/
def openTable (k : String) (es : Entries) : Option Entries :=
  match find k es with
  | none => some (put k (.table .header []) es)
  | some (.table .path inner) => some (put k (.table .header inner) es)
  | some _ => none

/-- Opens one more of several tables in their parent. -/
def openOneOf (k : String) (es : Entries) : Option Entries :=
  match find k es with
  | none => some (put k (.tables [] []) es)
  | some (.tables last earlier) => some (put k (.tables [] (last :: earlier)) es)
  | some _ => none

mutual

/-- The value of a finished node. -/
def Node.toValue : Node → Value
  | .value v => v
  | .table _ es => .table (entriesToValues es)
  | .tables last earlier => .array (tablesToValues earlier [.table (entriesToValues last)])

/-- The values of finished entries. -/
def entriesToValues : Entries → List (String × Value)
  | [] => []
  | (k, n) :: rest => (k, n.toValue) :: entriesToValues rest

/-- The values of finished tables, last one first, in front of those behind them. -/
def tablesToValues : List Entries → List Value → List Value
  | [], done => done
  | es :: rest, done => tablesToValues rest (.table (entriesToValues es) :: done)

end

/-! ## Keys -/

/-- A character of a key without quotes. -/
def isKeyChar (c : Char) : Bool := c.isAlphanum || c = '_' || c = '-'

/-- A key without dots. -/
def readSimpleKey : Parse String := fun cs =>
  match cs with
  | '"' :: _ | '\'' :: _ => readLineString cs
  | _ =>
    let k := cs.takeWhile isKeyChar
    if k.isEmpty then none else some (String.ofList k, cs.drop k.length)

/-- Keys with dots between them. -/
def readKeyFrom : (fuel : Nat) → Parse (List String)
  | 0, _ => none
  | fuel + 1, cs => do
    let (k, cs) ← readSimpleKey (skipBlanks cs)
    match skipBlanks cs with
    | '.' :: rest =>
      let (ks, cs) ← readKeyFrom fuel rest
      some (k :: ks, cs)
    | cs => some ([k], cs)

/-- A dotted key, blanks around its parts allowed. -/
def readKey : Parse (List String) := fun cs => readKeyFrom (cs.length + 1) cs

/-! ## Values -/

/-- A comment up to the end of its line. -/
def skipComment (cs : List Char) : Option (List Char) :=
  match cs with
  | '#' :: rest =>
    let text := rest.takeWhile fun c => c ≠ '\n' && c ≠ '\r'
    if text.any isControl then none else some (rest.drop text.length)
  | _ => some cs

/-- Blanks, line ends and comments. -/
def skipSpace : (fuel : Nat) → List Char → Option (List Char)
  | 0, cs => some cs
  | fuel + 1, cs => do
    let cs ← skipComment (skipBlanks cs)
    match newline? cs with
    | some rest => skipSpace fuel rest
    | none => some cs

mutual

/-- A value. -/
def readValue : (fuel : Nat) → Parse Value
  | 0, _ => none
  | fuel + 1, cs =>
    match cs with
    | '[' :: rest => readItems fuel [] rest
    | '{' :: rest =>
      match skipBlanks rest with
      | '}' :: rest => some (.table [], rest)
      | rest => readFields fuel [] rest
    | '"' :: _ | '\'' :: _ => (readString cs).map fun (s, rest) => (.string s, rest)
    | _ =>
      let (word, rest) := takeWord cs
      (scalarOfWord? word).map (·, rest)

/-- The items of an array up to its end; a comma may stand behind the last one. -/
def readItems : (fuel : Nat) → (done : List Value) → Parse Value
  | 0, _, _ => none
  | fuel + 1, done, cs => do
    match ← skipSpace (cs.length + 1) cs with
    | ']' :: rest => some (.array done.reverse, rest)
    | cs =>
      let (v, cs) ← readValue fuel cs
      match ← skipSpace (cs.length + 1) cs with
      | ',' :: rest => readItems fuel (v :: done) rest
      | ']' :: rest => some (.array (v :: done).reverse, rest)
      | _ => none

/-- The entries of a table in braces up to its end, all on one line. -/
def readFields : (fuel : Nat) → (done : Entries) → Parse Value
  | 0, _, _ => none
  | fuel + 1, done, cs => do
    let (k, cs) ← readKey cs
    match cs with
    | '=' :: rest =>
      let (v, cs) ← readValue fuel (skipBlanks rest)
      let done ← addEntry v k done
      match skipBlanks cs with
      | ',' :: rest => readFields fuel done rest
      | '}' :: rest => some (.table (entriesToValues done), rest)
      | _ => none
    | _ => none

end

/-! ## Lines -/

/-- A document under way: all of its tables, and the path of the current one. -/
structure Draft where
  root : Entries
  current : List String

/-- The end of a line: blanks and a comment may come before it. -/
def endLine (cs : List Char) : Option (List Char) := do
  let cs ← skipComment (skipBlanks cs)
  match cs with
  | [] => some []
  | _ => newline? cs

/-- Opens a table at a path. -/
def openAt (openIn : String → Entries → Option Entries) (path : List String) (d : Draft) : Option Draft := do
  let last ← path.getLast?
  some ⟨← alongPath (openIn last) path.dropLast d.root, path⟩

/-- One line that is not empty. -/
def readLine (d : Draft) (cs : List Char) : Option (Draft × List Char) :=
  match cs with
  | '[' :: '[' :: rest => do
    let (path, cs) ← readKey rest
    match cs with
    | ']' :: ']' :: rest => some (← openAt openOneOf path d, rest)
    | _ => none
  | '[' :: rest => do
    let (path, cs) ← readKey rest
    match cs with
    | ']' :: rest => some (← openAt openTable path d, rest)
    | _ => none
  | _ => do
    let (k, cs) ← readKey cs
    match cs with
    | '=' :: rest =>
      let (v, cs) ← readValue (rest.length + 1) (skipBlanks rest)
      some ({ d with root := ← alongPath (addEntry v k) d.current d.root }, cs)
    | _ => none

/-- All lines. -/
def readLines : (fuel : Nat) → Draft → List Char → Option Draft
  | 0, _, _ => none
  | fuel + 1, d, cs => do
    match ← skipSpace (cs.length + 1) cs with
    | [] => some d
    | cs =>
      let (d, cs) ← readLine d cs
      readLines fuel d (← endLine cs)

/-- The top table of a document. A byte order mark at its start does not count. -/
def parse? (text : String) : Option (List (String × Value)) := do
  let cs := match text.toList with
    | '\ufeff' :: rest => rest
    | cs => cs
  let d ← readLines (cs.length + 1) ⟨[], []⟩ cs
  some (entriesToValues d.root)

end Rpc.Toml
