import Rpc.Bytes.Reader

/-!
# Strings in JSON

- `Json.readString`: a string in quotes, its escapes replaced; surrogates come in pairs, control characters are
  refused, and the result is valid UTF-8;
- `Json.skipString`: a string that nobody looks at; its escapes only have to be complete.
-/

namespace Rpc.Json

/-- Blanks between tokens. -/
def isBlank (b : UInt8) : Bool := b = 0x20 || b = 0x09 || b = 0x0a || b = 0x0d

/-- Takes all blanks. -/
def blanks : Reader Unit := fun bs => some ((), bs.dropWhile isBlank)

/-- The value of a hexadecimal digit of either case. -/
def hexValue? (b : UInt8) : Option Nat :=
  if 0x30 ≤ b && b ≤ 0x39 then some (b.toNat - 0x30)
  else if 0x61 ≤ b && b ≤ 0x66 then some (b.toNat - 0x57)
  else if 0x41 ≤ b && b ≤ 0x46 then some (b.toNat - 0x37)
  else none

/-- The UTF-16 unit written with four hexadecimal digits. -/
def unit? (a b c d : UInt8) : Option Nat := do
  some ((((← hexValue? a) * 16 + (← hexValue? b)) * 16 + (← hexValue? c)) * 16 + (← hexValue? d))

/-- The byte meant by an escape letter. -/
def unescape? (b : UInt8) : Option UInt8 :=
  if b = 0x22 || b = 0x5c || b = 0x2f then some b
  else if b = 0x62 then some 0x08
  else if b = 0x66 then some 0x0c
  else if b = 0x6e then some 0x0a
  else if b = 0x72 then some 0x0d
  else if b = 0x74 then some 0x09
  else none

/-- The first of a pair of surrogates. -/
def isHighSurrogate (u : Nat) : Bool := 0xd800 ≤ u && u ≤ 0xdbff

/-- The second of a pair of surrogates. -/
def isLowSurrogate (u : Nat) : Bool := 0xdc00 ≤ u && u ≤ 0xdfff

/-- The code point of a pair of surrogates. -/
def pair (high low : Nat) : Nat := 0x10000 + (high - 0xd800) * 0x400 + (low - 0xdc00)

/-- The UTF-8 bytes of a code point, last byte first, in front of those before it. -/
def pushCodePoint (u : Nat) (done : Bytes) : Bytes :=
  (Bytes.ofString (String.singleton (Char.ofNat u))).reverse ++ done

/-- The bytes of a string up to its closing quote, with the escapes replaced; `done` holds them last byte first. -/
def chars (done : Bytes) : Reader Bytes
  | [] => none
  | b :: rest =>
    if b = 0x22 then some (done.reverse, rest)
    else if b < 0x20 then none
    else if b ≠ 0x5c then chars (b :: done) rest
    else
      match rest with
      | [] => none
      | e :: rest =>
        if e ≠ 0x75 then
          match unescape? e with
          | none => none
          | some c => chars (c :: done) rest
        else
          match rest with
          | h₁ :: h₂ :: h₃ :: h₄ :: rest =>
            match unit? h₁ h₂ h₃ h₄ with
            | none => none
            | some u =>
              if isLowSurrogate u then none
              else if isHighSurrogate u then
                match rest with
                | s :: v :: l₁ :: l₂ :: l₃ :: l₄ :: rest =>
                  if s = 0x5c && v = 0x75 then
                    match unit? l₁ l₂ l₃ l₄ with
                    | none => none
                    | some l => if isLowSurrogate l then chars (pushCodePoint (pair u l) done) rest else none
                  else none
                | _ => none
              else chars (pushCodePoint u done) rest
          | _ => none

/-- What follows the opening quote of a string. -/
def stringTail : Reader String := fun bs =>
  match chars [] bs with
  | none => none
  | some (s, rest) =>
    match Bytes.toString? s with
    | none => none
    | some s => some (s, rest)

/-- A string, blanks before it allowed. -/
def readString : Reader String := do
  blanks
  Reader.expect 0x22
  stringTail

/-- What follows the opening quote of a string that nobody looks at. -/
def skipStringTail : Reader Unit
  | [] => none
  | b :: rest =>
    if b = 0x22 then some ((), rest)
    else if b < 0x20 then none
    else if b ≠ 0x5c then skipStringTail rest
    else
      match rest with
      | [] => none
      | e :: rest =>
        if e ≠ 0x75 then
          match unescape? e with
          | none => none
          | some _ => skipStringTail rest
        else
          match rest with
          | h₁ :: h₂ :: h₃ :: h₄ :: rest =>
            match unit? h₁ h₂ h₃ h₄ with
            | none => none
            | some _ => skipStringTail rest
          | _ => none

/-- A string that nobody looks at, blanks before it allowed. -/
def skipString : Reader Unit := do
  blanks
  Reader.expect 0x22
  skipStringTail

end Rpc.Json
