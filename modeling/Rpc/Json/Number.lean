import Rpc.Bytes.Reader
import Rpc.Value

/-!
# Numbers in JSON

- `Json.readNumeral`: the parts of a number as written;
- `Numeral.toValue?`: an integer stays one if it fits 64 bits and is not a negative zero, anything else is a double,
  and an overflow is refused.

A double is computed from at most 64 bits of significand by one rounded product or quotient with a power of ten, or by
several quotients for very small numbers (`Numeral.toBinary64?`).
-/

namespace Rpc.Json

/-- A decimal digit. -/
def isDigit (b : UInt8) : Bool := 0x30 ≤ b && b ≤ 0x39

/-- A number as written. -/
structure Numeral where
  negative : Bool
  /-- Digits before the point. -/
  whole : Bytes
  /-- Digits after the point; none without a point. -/
  decimals : Bytes
  /-- The number after the exponent mark. -/
  exponent : Option Int

namespace Numeral

/-- Written without a point and without an exponent. -/
def isWhole (n : Numeral) : Bool := n.decimals.isEmpty && n.exponent.isNone

/-- Appends digits to a significand as long as it fits 64 bits; gives the digits that did not fit. -/
def absorb (significand : Nat) : Bytes → Nat × Bytes
  | [] => (significand, [])
  | d :: ds =>
    let next := significand * 10 + (d.toNat - 0x30)
    if next < 2 ^ 64 then absorb next ds else (significand, d :: ds)

/-- The rounded `significand · 10 ^ exponent`, small exponents in steps of 308; an overflow is refused. -/
def scaleByTen (x : Binary64) : (steps : Nat) → (exponent : Int) → Option Binary64
  | steps, e =>
    if 0 ≤ e then
      if e ≤ 308 then
        let y := x.scaleUp e.toNat
        if y.isFinite then some y else none
      else if x.isZero then some x else none
    else if -308 ≤ e then some (x.scaleDown (-e).toNat)
    else if x.isZero then some x
    else match steps with
      | 0 => some (.zero false)
      | steps + 1 => scaleByTen (x.scaleDown 308) steps (e + 308)

/-- The double that the number stands for. Two quotients by `10 ^ 308` bring every significand to zero. -/
def toBinary64? (n : Numeral) : Option Binary64 := do
  let (significand, beyond) := absorb 0 n.whole
  let (significand, lost) := absorb significand n.decimals
  let exponent := (beyond.length : Int) - ((n.decimals.length - lost.length : Nat) : Int) + n.exponent.getD 0
  let x ← scaleByTen (.ofNat significand) 3 exponent
  some (if n.negative then x.neg else x)

/-- The integer that the number stands for: written whole, in 64 bits, and not a negative zero. -/
def toInt? (n : Numeral) : Option Int :=
  if n.isWhole then
    let (m, beyond) := absorb 0 n.whole
    if !beyond.isEmpty then none
    else if !n.negative then some m
    else if m = 0 ∨ 2 ^ 63 < m then none
    else some (-m)
  else none

/-- The value that the number stands for. -/
def toValue? (n : Numeral) : Option Value :=
  match n.toInt? with
  | some m => some (.int m)
  | none => n.toBinary64?.map .float

end Numeral

/-- At least one digit. -/
def readDigits : Reader Bytes := do
  let ds ← Reader.takeWhile isDigit
  if ds.isEmpty then failure else pure ds

/-- The digits before the point: a zero alone or digits that start with none. -/
def readWhole : Reader Bytes := do
  let ds ← readDigits
  if ds.head? = some 0x30 && 1 < ds.length then failure else pure ds

/-- The digits after a point, if there is a point. -/
def readDecimals : Reader Bytes := do
  if ← Reader.accept 0x2e then readDigits else pure []

/-- The number written by decimal digits. -/
def digitsToNat (ds : Bytes) : Nat := ds.foldl (fun n d => n * 10 + (d.toNat - 0x30)) 0

/-- The exponent after its sign. -/
def readExponentDigits (negative : Bool) : Reader (Option Int) := do
  let n : Int := digitsToNat (← readDigits)
  pure (some (if negative then -n else n))

/-- The exponent, if there is a mark of one. -/
def readExponent : Reader (Option Int) := do
  let small ← Reader.accept 0x65
  let marked ← if small then pure true else Reader.accept 0x45
  if marked then
    if ← Reader.accept 0x2b then readExponentDigits false
    else if ← Reader.accept 0x2d then readExponentDigits true
    else readExponentDigits false
  else pure none

/-- A number as written. -/
def readNumeral : Reader Numeral := do
  let negative ← Reader.accept 0x2d
  pure ⟨negative, ← readWhole, ← readDecimals, ← readExponent⟩

end Rpc.Json
