import Rpc.Bytes
import Rpc.Text.Hex

/-!
# Socket addresses

An address is an IPv4 or an IPv6 address and the number of an endpoint there, IPv6 also with a scope
(`SocketAddress`).

- `SocketAddress.text`: the canonical text; the longest run of zero groups is compressed, the first of several;
- `SocketAddress.parse?`: every text of an address;
- `SocketAddress.le`: IPv4 before IPv6, then by address, endpoint and scope.
-/

namespace Rpc

/-- The address of a peer. The flow information of IPv6, which no text of an address has, is left out. -/
inductive SocketAddress where
  | v4 (ip : UInt32) (endpoint : UInt16)
  | v6 (ip : BitVec 128) (endpoint : UInt16) (scope : UInt32)
  deriving DecidableEq

namespace SocketAddress

/-! ## Canonical texts -/

/-- The four numbers of an IPv4 address with points between them. -/
def v4Text (ip : UInt32) : String :=
  let part (i : Nat) := toString (ip.toNat / 256 ^ i % 256)
  part 3 ++ "." ++ part 2 ++ "." ++ part 1 ++ "." ++ part 0

/-- The eight groups of an IPv6 address. -/
def groups (ip : BitVec 128) : List Nat :=
  (List.range 8).map fun i => ip.toNat / 65536 ^ (7 - i) % 65536

/-- A group in as few hexadecimal digits as it needs. -/
def groupText (g : Nat) : String :=
  if g < 16 then String.ofList [Hex.digit g]
  else if g < 256 then String.ofList [Hex.digit (g / 16), Hex.digit (g % 16)]
  else if g < 4096 then String.ofList [Hex.digit (g / 256), Hex.digit (g / 16 % 16), Hex.digit (g % 16)]
  else String.ofList [Hex.digit (g / 4096), Hex.digit (g / 256 % 16), Hex.digit (g / 16 % 16), Hex.digit (g % 16)]

/-- Groups with colons between them. -/
def groupsText (gs : List Nat) : String := String.intercalate ":" (gs.map groupText)

/-- How many zero groups start at each place. -/
def zeroRuns : List Nat → List Nat
  | [] => []
  | g :: gs => (if g = 0 then ((zeroRuns gs).headD 0) + 1 else 0) :: zeroRuns gs

/-- The first of the longest runs of zero groups: its place and its length. -/
def longestZeros (gs : List Nat) : Nat × Nat :=
  (zeroRuns gs).zipIdx.foldl (fun best (n, i) => if best.2 < n then (i, n) else best) (0, 0)

/-- An IPv6 address, an IPv4 address mapped into it in its own notation. -/
def v6Text (ip : BitVec 128) : String :=
  if ip.toNat / 2 ^ 32 = 0xffff then "::ffff:" ++ v4Text (UInt32.ofNat (ip.toNat % 2 ^ 32))
  else
    let gs := groups ip
    let (start, length) := longestZeros gs
    if 1 < length then groupsText (gs.take start) ++ "::" ++ groupsText (gs.drop (start + length))
    else groupsText gs

/-- The canonical text. -/
def text : SocketAddress → String
  | .v4 ip endpoint => v4Text ip ++ ":" ++ toString endpoint.toNat
  | .v6 ip endpoint scope =>
    "[" ++ v6Text ip ++ (if scope = 0 then "" else "%" ++ toString scope.toNat) ++ "]:" ++ toString endpoint.toNat

/-! ## Reading -/

/-- What a reader of texts gives: a value and the characters behind it. -/
abbrev Parse (α : Type) := List Char → Option (α × List Char)

/-- The value of a digit of base 10 or 16. -/
def digitValue? (base : Nat) (c : Char) : Option Nat :=
  if '0' ≤ c ∧ c ≤ '9' then some (c.toNat - 48)
  else if base = 16 ∧ 'a' ≤ c ∧ c ≤ 'f' then some (c.toNat - 87)
  else if base = 16 ∧ 'A' ≤ c ∧ c ≤ 'F' then some (c.toNat - 55)
  else none

/-- A character that has to come. -/
def readChar (c : Char) : Parse Unit
  | [] => none
  | d :: rest => if d = c then some ((), rest) else none

/-- A number below `below`, of at most `most` digits if there is such a bound. -/
def readNumber (base below : Nat) (most : Option Nat) (zeros : Bool) : Parse Nat := fun cs =>
  let digits := cs.takeWhile fun c => (digitValue? base c).isSome
  let n := digits.foldl (fun n c => n * base + (digitValue? base c).getD 0) 0
  let tooLong := match most with
    | some m => decide (m < digits.length)
    | none => false
  if digits.isEmpty || tooLong || below ≤ n then none
  else if !zeros && digits.head? = some '0' && 1 < digits.length then none
  else some (n, cs.drop digits.length)

/-- An IPv4 address. -/
def readV4 : Parse UInt32 := fun cs => do
  let part := readNumber 10 256 (some 3) false
  let (a, cs) ← part cs
  let (_, cs) ← readChar '.' cs
  let (b, cs) ← part cs
  let (_, cs) ← readChar '.' cs
  let (c, cs) ← part cs
  let (_, cs) ← readChar '.' cs
  let (d, cs) ← part cs
  some (UInt32.ofNat (((a * 256 + b) * 256 + c) * 256 + d), cs)

/-- The colon in front of every group but the first. -/
def separator (first : Bool) : Parse Unit := fun cs => if first then some ((), cs) else readChar ':' cs

/-- Up to `limit` groups with colons between them. An IPv4 address may stand in the place of the last two; the flag
says whether it does. -/
def readGroups : (limit : Nat) → (first : Bool) → List Char → List Nat × Bool × List Char
  | 0, _, cs => ([], false, cs)
  | limit + 1, first, cs =>
    let embedded := if limit = 0 then none else do
      let (_, cs) ← separator first cs
      readV4 cs
    match embedded with
    | some (ip, cs) => ([ip.toNat / 65536, ip.toNat % 65536], true, cs)
    | none =>
      let group := do
        let (_, cs) ← separator first cs
        readNumber 16 65536 (some 4) true cs
      match group with
      | some (g, cs) =>
        let (gs, mapped, cs) := readGroups limit false cs
        (g :: gs, mapped, cs)
      | none => ([], false, cs)

/-- The address with the given eight groups. -/
def ofGroups (gs : List Nat) : BitVec 128 := BitVec.ofNat 128 (gs.foldl (fun n g => n * 65536 + g) 0)

/-- An IPv6 address: eight groups, or fewer around a double colon that stands for at least one. -/
def readV6 : Parse (BitVec 128) := fun cs =>
  let (front, mapped, cs) := readGroups 8 true cs
  if front.length = 8 then some (ofGroups front, cs)
  else if mapped then none
  else do
    let (_, cs) ← readChar ':' cs
    let (_, cs) ← readChar ':' cs
    let (back, _, cs) := readGroups (7 - front.length) true cs
    some (ofGroups (front ++ List.replicate (8 - front.length - back.length) 0 ++ back), cs)

/-- The colon and the number of the endpoint. -/
def readEndpoint : Parse UInt16 := fun cs => do
  let (_, cs) ← readChar ':' cs
  let (n, cs) ← readNumber 10 65536 none true cs
  some (UInt16.ofNat n, cs)

/-- The scope behind an IPv6 address; zero without one. -/
def readScope : Parse UInt32 := fun cs =>
  let given := do
    let (_, cs) ← readChar '%' cs
    readNumber 10 (2 ^ 32) none true cs
  match given with
  | some (n, cs) => some (UInt32.ofNat n, cs)
  | none => some (0, cs)

/-- An IPv4 address with an endpoint. -/
def socketV4 : Parse SocketAddress := fun cs => do
  let (ip, cs) ← readV4 cs
  let (p, cs) ← readEndpoint cs
  some (.v4 ip p, cs)

/-- An IPv6 address in brackets with an endpoint. -/
def socketV6 : Parse SocketAddress := fun cs => do
  let (_, cs) ← readChar '[' cs
  let (ip, cs) ← readV6 cs
  let (s, cs) ← readScope cs
  let (_, cs) ← readChar ']' cs
  let (p, cs) ← readEndpoint cs
  some (.v6 ip p s, cs)

/-- The address that a whole text stands for. -/
def parse? (s : String) : Option SocketAddress :=
  match socketV4 s.toList with
  | some (a, rest) => if rest.isEmpty then some a else none
  | none =>
    match socketV6 s.toList with
    | some (a, []) => some a
    | _ => none

/-- The text of the address without endpoint and scope. -/
def ipText : SocketAddress → String
  | .v4 ip _ => v4Text ip
  | .v6 ip _ _ => v6Text ip

/-! ## Order -/

/-- What addresses are ordered by. -/
def orderKey : SocketAddress → List Nat
  | .v4 ip endpoint => [0, ip.toNat, endpoint.toNat, 0]
  | .v6 ip endpoint scope => [1, ip.toNat, endpoint.toNat, scope.toNat]

/-- IPv4 before IPv6, then by address, endpoint and scope. -/
def le (a b : SocketAddress) : Bool := !b.orderKey.lex a.orderKey

end SocketAddress

end Rpc
