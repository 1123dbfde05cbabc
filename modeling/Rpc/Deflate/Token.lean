import Rpc.Bytes
import Std.Data.HashMap

/-!
# Tokens

Compressed data is a sequence of literal bytes and of copies from the output so far (`Token`). `Token.expand` writes
them out; `Token.ofBytes` finds them, always taking the longest copy from the last place where the next three bytes
occurred.
-/

namespace Rpc.Deflate

/-- A byte, or a copy of `length` bytes from `distance` bytes back. -/
inductive Token where
  | literal (b : UInt8)
  | copy (length distance : Nat)

namespace Token

/-! ## Expansion -/

/-- The byte `distance` bytes back; before the start of the output there are zeros. -/
def lookBack (out : Array UInt8) (distance : Nat) : UInt8 :=
  if distance ≤ out.size then out.getD (out.size - distance) 0 else 0

/-- The output with `length` bytes copied from `distance` back, one after the other. -/
def copyBack (distance : Nat) : (length : Nat) → Array UInt8 → Array UInt8
  | 0, out => out
  | length + 1, out => copyBack distance length (out.push (lookBack out distance))

/-- The output after one more token. -/
def emit (out : Array UInt8) : Token → Array UInt8
  | .literal b => out.push b
  | .copy length distance => copyBack distance length out

/-- The output of a sequence of tokens. -/
def expand (tokens : List Token) : Array UInt8 := tokens.foldl emit #[]

/-! ## Search -/

/-- The longest copy. -/
def maxLength : Nat := 258

/-- The shortest copy. -/
def minLength : Nat := 3

/-- The farthest copy. -/
def maxDistance : Nat := 32768

/-- How many of the next `most` bytes from `i` on are those from `j` on, given that the first `k` are. -/
def matchFrom (x : Array UInt8) (i j : Nat) : (most : Nat) → (k : Nat) → Nat
  | 0, k => k
  | most + 1, k =>
    if x.getD (i + k) 0 = x.getD (j + k) 0 then matchFrom x i j most (k + 1) else k

/-- How many bytes from `i` on are those from `j` on, up to the longest copy. -/
def matchLength (x : Array UInt8) (i j : Nat) : Nat :=
  matchFrom x i j (min maxLength (x.size - i)) 0

/-- The three bytes from `i` on as one number. -/
def trigram (x : Array UInt8) (i : Nat) : Nat :=
  ((x.getD i 0).toNat * 256 + (x.getD (i + 1) 0).toNat) * 256 + (x.getD (i + 2) 0).toNat

/-- The token at `i`, with `j` as the place to copy from. -/
def tokenAt (x : Array UInt8) (i : Nat) (j : Option Nat) : Token :=
  let literal := Token.literal (x.getD i 0)
  match j with
  | none => literal
  | some j =>
    let length := matchLength x i j
    if j < i ∧ i - j ≤ maxDistance ∧ minLength ≤ length then .copy length (i - j) else literal

/-- The number of bytes that a token stands for. -/
def width : Token → Nat
  | .literal _ => 1
  | .copy length _ => length

/-- The tokens from `i` on, behind those found so far, last one first; `seen` has the last place of each trigram. -/
def search (x : Array UInt8) : (fuel i : Nat) → Std.HashMap Nat Nat → List Token → List Token
  | 0, _, _, done => done.reverse
  | fuel + 1, i, seen, done =>
    if i < x.size then
      let key := trigram x i
      let t := tokenAt x i seen[key]?
      search x fuel (i + t.width) (seen.insert key i) (t :: done)
    else done.reverse

/-- Tokens whose output is the byte string. -/
def ofBytes (bs : Bytes) : List Token :=
  let x := bs.toArray
  search x x.size 0 {} []

end Token

end Rpc.Deflate
