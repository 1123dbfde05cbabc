import Rpc.Binary64.Narrow
import Rpc.Bytes.Reader

/-!
# Heads of CBOR items

Every item starts with a head: a major type and an argument in the fewest bytes that hold it (`Head.write`). Any width
is read (`readHead`); an argument left open means an item of indefinite length.
-/

namespace Rpc.Cbor

/-- The head of an item. Lengths are `none` for items of indefinite length. -/
inductive Head where
  | unsigned (n : Nat)
  /-- The integer `-1 - n`. -/
  | negative (n : Nat)
  | bytes (length : Option Nat)
  | text (length : Option Nat)
  | array (length : Option Nat)
  | map (length : Option Nat)
  | tag (n : Nat)
  | simple (n : Nat)
  | float (x : Binary64)
  /-- The end of an item of indefinite length. -/
  | stop

/-! ## Writing -/

/-- A major type with an argument below `2 ^ 64`. -/
def writeArgument (major n : Nat) (rest : Bytes) : Bytes :=
  let first (minor : Nat) : UInt8 := UInt8.ofNat (major * 32 + minor)
  if n < 24 then first n :: rest
  else if n < 2 ^ 8 then first 24 :: (Bytes.bigEndian 1 n ++ rest)
  else if n < 2 ^ 16 then first 25 :: (Bytes.bigEndian 2 n ++ rest)
  else if n < 2 ^ 32 then first 26 :: (Bytes.bigEndian 4 n ++ rest)
  else first 27 :: (Bytes.bigEndian 8 n ++ rest)

/-- A double in the shortest width that keeps it. -/
def writeFloat (x : Binary64) (rest : Bytes) : Bytes :=
  match Interchange.half.narrow? x with
  | some w => 0xf9 :: (Bytes.bigEndian 2 w ++ rest)
  | none =>
    match Interchange.single.narrow? x with
    | some w => 0xfa :: (Bytes.bigEndian 4 w ++ rest)
    | none => 0xfb :: (Bytes.bigEndian 8 x.bits.toNat ++ rest)

/-! ## Reading -/

/-- The argument of a head, by the low bits of its first byte; `none` if it is left open. -/
def readArgument (minor : Nat) : Reader (Option Nat) := do
  if minor < 24 then pure (some minor)
  else if minor = 24 then pure (some (← Reader.take 1).toNat)
  else if minor = 25 then pure (some (← Reader.take 2).toNat)
  else if minor = 26 then pure (some (← Reader.take 4).toNat)
  else if minor = 27 then pure (some (← Reader.take 8).toNat)
  else if minor = 31 then pure none
  else failure

/-- The head of major type 7 with the given low bits. -/
def readSpecial (minor : Nat) : Reader Head := do
  match ← readArgument minor with
  | none => pure .stop
  | some n =>
    if minor ≤ 24 then pure (.simple n)
    else if minor = 25 then pure (.float (Interchange.half.widen n))
    else if minor = 26 then pure (.float (Interchange.single.widen n))
    else pure (.float ⟨UInt64.ofNat n⟩)

/-- An argument that must not be left open. -/
def readClosed (minor : Nat) : Reader Nat := do
  match ← readArgument minor with
  | some n => pure n
  | none => failure

/-- The head of an item. -/
def readHead : Reader Head := do
  let b ← Reader.byte
  let major := b.toNat / 32
  let minor := b.toNat % 32
  if major = 0 then pure (.unsigned (← readClosed minor))
  else if major = 1 then pure (.negative (← readClosed minor))
  else if major = 2 then pure (.bytes (← readArgument minor))
  else if major = 3 then pure (.text (← readArgument minor))
  else if major = 4 then pure (.array (← readArgument minor))
  else if major = 5 then pure (.map (← readArgument minor))
  else if major = 6 then pure (.tag (← readClosed minor))
  else readSpecial minor

/-- The head behind all tags, and the tags' bytes gone; `keep` names tags that are not skipped. -/
def untaggedFrom (keep : Nat → Bool) : (fuel : Nat) → Reader Head
  | 0 => failure
  | fuel + 1 => do
    match ← readHead with
    | .tag n => if keep n then pure (.tag n) else untaggedFrom keep fuel
    | h => pure h

/-- The head behind all tags. -/
def untagged : Reader Head := fun bs => untaggedFrom (fun _ => false) (bs.length + 1) bs

/-- The tag of a natural number given by its bytes. -/
def tagPositive : Nat := 2

/-- The tag of `-1 - n` for an `n` given by its bytes. -/
def tagNegative : Nat := 3

/-- The head behind all tags but those of integers given by their bytes. -/
def untaggedInteger : Reader Head := fun bs =>
  untaggedFrom (fun n => n = tagPositive || n = tagNegative) (bs.length + 1) bs

end Rpc.Cbor
