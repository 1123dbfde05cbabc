import Rpc.Binary64.Basic

/-!
# TOML values that hold no others

- strings: basic and literal, on one line or on several (`Toml.readString`);
- words without quotes: booleans, integers, floats, dates and times (`Toml.scalarOfWord?`).

Readers work on the characters of a document and give what follows the value.
-/

namespace Rpc.Toml

/-- What a reader gives: a value and the characters behind it. -/
abbrev Parse (α : Type) := List Char → Option (α × List Char)

/-- A value of a document. -/
inductive Value where
  | string (s : String)
  | integer (n : Int)
  | float (x : Binary64)
  | boolean (b : Bool)
  | dateTime (text : String)
  | array (items : List Value)
  | table (entries : List (String × Value))

/-! ## Characters -/

/-- A blank or a tab. -/
def isBlank (c : Char) : Bool := c = ' ' || c = '\t'

/-- Takes blanks and tabs. -/
def skipBlanks (cs : List Char) : List Char := cs.dropWhile isBlank

/-- A character that may not stand in a line as it is. -/
def isControl (c : Char) : Bool := c.toNat < 0x20 && c ≠ '\t' || c.toNat = 0x7f

/-- A line end at the front, taken. -/
def newline? : List Char → Option (List Char)
  | '\n' :: rest => some rest
  | '\r' :: '\n' :: rest => some rest
  | _ => none

/-- A digit of one of the bases up to 16. -/
def digitValue? (base : Nat) (c : Char) : Option Nat :=
  let v :=
    if '0' ≤ c ∧ c ≤ '9' then some (c.toNat - 48)
    else if 'a' ≤ c ∧ c ≤ 'f' then some (c.toNat - 87)
    else if 'A' ≤ c ∧ c ≤ 'F' then some (c.toNat - 55)
    else none
  v.filter (· < base)

/-! ## Strings -/

/-- The character with a code given by hexadecimal digits. -/
def codePoint? (digits : List Char) : Option Char := do
  let ds ← digits.mapM (digitValue? 16)
  let n := ds.foldl (fun n d => n * 16 + d) 0
  if h : n.isValidChar then some (Char.ofNatAux n h) else none

/-- What stands behind a backslash. -/
def escape? : List Char → Option (Char × List Char)
  | 'b' :: rest => some ('\x08', rest)
  | 't' :: rest => some ('\t', rest)
  | 'n' :: rest => some ('\n', rest)
  | 'f' :: rest => some ('\x0c', rest)
  | 'r' :: rest => some ('\r', rest)
  | '"' :: rest => some ('"', rest)
  | '\\' :: rest => some ('\\', rest)
  | 'u' :: rest => if (rest.take 4).length = 4 then (codePoint? (rest.take 4)).map (·, rest.drop 4) else none
  | 'U' :: rest => if (rest.take 8).length = 8 then (codePoint? (rest.take 8)).map (·, rest.drop 8) else none
  | _ => none

/-- The text of a string from its characters, last one first. -/
def finish (done rest : List Char) : Option (String × List Char) := some (String.ofList done.reverse, rest)

/-- A string in one line behind its opening quote; `escapes` says whether backslashes mean something. -/
def lineString (quote : Char) (escapes : Bool) : (fuel : Nat) → (done : List Char) → Parse String
  | 0, _, _ => none
  | _ + 1, _, [] => none
  | fuel + 1, done, c :: rest =>
    if c = quote then finish done rest
    else if isControl c then none
    else if escapes && c = '\\' then
      match escape? rest with
      | some (e, rest) => lineString quote escapes fuel (e :: done) rest
      | none => none
    else lineString quote escapes fuel (c :: done) rest

/-- Blanks and line ends behind a backslash at the end of a line, which go as far as the next character. -/
def skipLines : (fuel : Nat) → List Char → List Char
  | 0, cs => cs
  | fuel + 1, cs =>
    match newline? (skipBlanks cs) with
    | some rest => skipLines fuel rest
    | none => skipBlanks cs

/-- A string of several lines behind its opening quotes; up to two quotes may stand before the closing three. -/
def blockString (quote : Char) (escapes : Bool) : (fuel : Nat) → (done : List Char) → Parse String
  | 0, _, _ => none
  | _ + 1, _, [] => none
  | fuel + 1, done, c :: rest =>
    if c = quote then
      let run := 1 + (rest.takeWhile (· = quote)).length
      if run < 3 then blockString quote escapes fuel (c :: done) rest
      else
        let inside := min (run - 3) 2
        finish (List.replicate inside quote ++ done) ((c :: rest).drop (inside + 3))
    else if escapes && c = '\\' then
      match newline? (skipBlanks rest) with
      | some rest => blockString quote escapes fuel done (skipLines fuel rest)
      | none =>
        match escape? rest with
        | some (e, rest) => blockString quote escapes fuel (e :: done) rest
        | none => none
    else
      match newline? (c :: rest) with
      | some rest => blockString quote escapes fuel ('\n' :: done) rest
      | none => if isControl c then none else blockString quote escapes fuel (c :: done) rest

/-- The first line end of a string of several lines does not count. -/
def dropNewline (cs : List Char) : List Char := (newline? cs).getD cs

/-- A string on one line. -/
def readLineString : Parse String
  | '"' :: rest => lineString '"' true (rest.length + 1) [] rest
  | '\'' :: rest => lineString '\'' false (rest.length + 1) [] rest
  | _ => none

/-- A string of any kind. -/
def readString : Parse String
  | '"' :: '"' :: '"' :: rest => blockString '"' true (rest.length + 1) [] (dropNewline rest)
  | '\'' :: '\'' :: '\'' :: rest => blockString '\'' false (rest.length + 1) [] (dropNewline rest)
  | cs => readLineString cs

/-! ## Numbers -/

/-- The digits of a number without the underscores, each of which stands between two digits. -/
def plainDigits? (base : Nat) (cs : List Char) : Option (List Nat) :=
  let parts := (String.ofList cs).splitOn "_"
  if parts.all (fun p => !p.isEmpty) then
    (parts.flatMap String.toList).mapM (digitValue? base)
  else none

/-- The number with the given digits. -/
def ofDigits (base : Nat) (ds : List Nat) : Nat := ds.foldl (fun n d => n * base + d) 0

/-- The sign in front of a number. -/
def takeSign : List Char → Bool × Bool × List Char
  | '-' :: rest => (true, true, rest)
  | '+' :: rest => (true, false, rest)
  | cs => (false, false, cs)

/-- Decimal digits without a leading zero, unless there is no other digit. -/
def decimal? (cs : List Char) : Option (List Nat) := do
  let ds ← plainDigits? 10 cs
  if ds.head? = some 0 && 1 < ds.length then none else some ds

/-- An integer of 128 bits at most. -/
def integerOfWord? (cs : List Char) : Option Int := do
  let based (base : Nat) (digits : List Char) : Option Int :=
    (plainDigits? base digits).map fun ds => (ofDigits base ds : Int)
  let n ← match cs with
    | '0' :: 'x' :: rest => based 16 rest
    | '0' :: 'o' :: rest => based 8 rest
    | '0' :: 'b' :: rest => based 2 rest
    | _ => do
      let (_, negative, rest) := takeSign cs
      let n : Int := ofDigits 10 (← decimal? rest)
      some (if negative then -n else n)
  if -(2 ^ 127) ≤ n ∧ n < 2 ^ 128 then some n else none

/-- A float: a whole part with decimals, an exponent, or both; or one of the special words. -/
def floatOfWord? (cs : List Char) : Option Binary64 := do
  let (_, negative, rest) := takeSign cs
  if rest = ['i', 'n', 'f'] then some (.infinity negative)
  else if rest = ['n', 'a', 'n'] then some (if negative then Binary64.nan.neg else .nan)
  else do
    let isExponent (c : Char) : Bool := c = 'e' || c = 'E'
    if !rest.any fun c => c = '.' || isExponent c then none
    let mantissa := rest.takeWhile (!isExponent ·)
    let whole ← decimal? (mantissa.takeWhile (· ≠ '.'))
    let decimals ← match mantissa.dropWhile (· ≠ '.') with
      | [] => some []
      | _ :: ds => plainDigits? 10 ds
    let exponent : Int ← match rest.dropWhile (!isExponent ·) with
      | [] => some 0
      | _ :: es => do
        let (_, down, ds) := takeSign es
        let n : Int := ofDigits 10 (← plainDigits? 10 ds)
        some (if down then -n else n)
    let digits := ofDigits 10 (whole ++ decimals)
    let scale := exponent - decimals.length
    let x := if digits = 0 then Binary64.zero negative
      else if 400 < scale + (whole ++ decimals).length then .infinity negative
      else if scale + (whole ++ decimals).length < -400 then .zero negative
      else .ofDecimal negative digits scale
    if x.isFinite then some x else none

/-! ## Dates and times -/

/-- A number of exactly `width` digits. -/
def fixed (width : Nat) : Parse Nat := fun cs => do
  let front := cs.take width
  if front.length ≠ width then none
  let ds ← front.mapM (digitValue? 10)
  some (ofDigits 10 ds, cs.drop width)

/-- A character that has to come. -/
def mark (p : Char → Bool) : Parse Unit
  | c :: rest => if p c then some ((), rest) else none
  | [] => none

/-- The days of a month. -/
def daysOf (year month : Nat) : Nat :=
  if month = 2 then (if year % 4 = 0 ∧ (year % 100 ≠ 0 ∨ year % 400 = 0) then 29 else 28)
  else if month = 4 ∨ month = 6 ∨ month = 9 ∨ month = 11 then 30
  else 31

/-- A day of the calendar. -/
def date : Parse Unit := fun cs => do
  let (year, cs) ← fixed 4 cs
  let (_, cs) ← mark (· = '-') cs
  let (month, cs) ← fixed 2 cs
  let (_, cs) ← mark (· = '-') cs
  let (day, cs) ← fixed 2 cs
  if 1 ≤ month ∧ month ≤ 12 ∧ 1 ≤ day ∧ day ≤ daysOf year month then some ((), cs) else none

/-- A time of the day. -/
def time : Parse Unit := fun cs => do
  let (hour, cs) ← fixed 2 cs
  let (_, cs) ← mark (· = ':') cs
  let (minute, cs) ← fixed 2 cs
  let (_, cs) ← mark (· = ':') cs
  let (second, cs) ← fixed 2 cs
  if hour < 24 ∧ minute < 60 ∧ second ≤ 60 then
    match cs with
    | '.' :: rest =>
      let decimals := rest.takeWhile fun c => (digitValue? 10 c).isSome
      if decimals.isEmpty then none else some ((), rest.drop decimals.length)
    | _ => some ((), cs)
  else none

/-- The distance from universal time. -/
def offset : Parse Unit
  | 'Z' :: rest | 'z' :: rest => some ((), rest)
  | c :: rest =>
    if c = '+' ∨ c = '-' then do
      let (hour, cs) ← fixed 2 rest
      let (_, cs) ← mark (· = ':') cs
      let (minute, cs) ← fixed 2 cs
      if hour < 24 ∧ minute < 60 then some ((), cs) else none
    else none
  | [] => none

/-- A date, a time, or both with or without an offset. -/
def isDateTime (cs : List Char) : Bool :=
  match date cs with
  | some (_, []) => true
  | some (_, cs) =>
    match mark (fun c => c = 'T' || c = 't' || c = ' ') cs with
    | some (_, cs) =>
      match time cs with
      | some (_, []) => true
      | some (_, cs) => (offset cs).any (·.2.isEmpty)
      | none => false
    | none => false
  | none => (time cs).any (·.2.isEmpty)

/-! ## Words -/

/-- A character of a word without quotes. -/
def isWordChar (c : Char) : Bool :=
  c.isAlphanum || c = '+' || c = '-' || c = '_' || c = '.' || c = ':'

/-- A word without quotes; a date goes on with a time behind one blank. -/
def takeWord (cs : List Char) : List Char × List Char :=
  let w := cs.takeWhile isWordChar
  let rest := cs.drop w.length
  match date w, rest with
  | some (_, []), ' ' :: more =>
    match fixed 2 more with
    | some (_, ':' :: _) =>
      let t := more.takeWhile isWordChar
      (w ++ ' ' :: t, more.drop t.length)
    | _ => (w, rest)
  | _, _ => (w, rest)

/-- What a word without quotes stands for. -/
def scalarOfWord? (cs : List Char) : Option Value :=
  if cs = "true".toList then some (.boolean true)
  else if cs = "false".toList then some (.boolean false)
  else
    match integerOfWord? cs with
    | some n => some (.integer n)
    | none =>
      match floatOfWord? cs with
      | some x => some (.float x)
      | none => if isDateTime cs then some (.dateTime (String.ofList cs)) else none

end Rpc.Toml
