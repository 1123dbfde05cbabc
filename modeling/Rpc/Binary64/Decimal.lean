import Rpc.Binary64.Basic

/-!
# Decimal texts of doubles

- `Binary64.shortest`: the fewest decimal digits that read back as the same double, the nearest such number, with a
  chosen side for exact ties;
- `DecimalLayout`: where positional notation ends and how whole numbers and exponents are written;
- `Binary64.render`: the text of a double in a layout.
-/

namespace Rpc

/-- Which of two equally near decimals is taken. -/
inductive DecimalTie where
  | even
  | up
  deriving DecidableEq

namespace Binary64

/-! ## Shortest digits -/

/-- A finite positive double with the ends of the interval of reals that round to it, all in units of `2 ^ unit`. -/
structure RoundingInterval where
  low : Nat
  value : Nat
  high : Nat
  unit : Int
  /-- Both ends round to the double itself. -/
  closed : Bool

/-- The interval of reals that round to the absolute value of a finite nonzero double. -/
def roundingInterval (x : Binary64) : RoundingInterval where
  low := if x.fraction = 0 ∧ 1 < x.exponentField then 4 * x.magnitude - 1 else 4 * x.magnitude - 2
  value := 4 * x.magnitude
  high := 4 * x.magnitude + 2
  unit := x.scale - 2
  closed := x.magnitude % 2 == 0

/-- `a · 2 ^ e` and `b · 10 ^ p` over a common denominator. -/
def commonScale (a : Nat) (e : Int) (b : Nat) (p : Int) : Nat × Nat :=
  (a * 2 ^ e.toNat * 10 ^ (-p).toNat, b * 10 ^ p.toNat * 2 ^ (-e).toNat)

namespace RoundingInterval

/-- `c · 10 ^ p` rounds to the double. -/
def contains (i : RoundingInterval) (c : Nat) (p : Int) : Bool :=
  let (l, c₁) := commonScale i.low i.unit c p
  let (h, c₂) := commonScale i.high i.unit c p
  if i.closed then l ≤ c₁ && c₂ ≤ h else l < c₁ && c₂ < h

/-- The greatest multiple of `10 ^ p` that is not above the double. -/
def floorAt (i : RoundingInterval) (p : Int) : Nat :=
  let (v, unit) := commonScale i.value i.unit 1 p
  v / unit

/-- The exponent of ten of the first digit of the double. -/
def leadingExponent (i : RoundingInterval) : Int :=
  let guess := ((Nat.log2 i.value : Int) + i.unit) * 30103 / 100000
  if 1 ≤ i.floorAt (guess + 1) then guess + 1 else if 1 ≤ i.floorAt guess then guess else guess - 1

/-- The multiple of `10 ^ p` taken for the double, if one of its two neighbours on that grid rounds to it. -/
def onGrid (i : RoundingInterval) (tie : DecimalTie) (p : Int) : Option Nat :=
  let c := i.floorAt p
  match i.contains c p, i.contains (c + 1) p with
  | false, false => none
  | true, false => some c
  | false, true => some (c + 1)
  | true, true =>
    let (v, unit) := commonScale i.value i.unit 1 p
    let r := v % unit
    if 2 * r < unit then some c
    else if unit < 2 * r then some (c + 1)
    else if tie = .even && c % 2 = 0 then some c else some (c + 1)

/-- The first of the grids with 1, 2, … digits on which a neighbour rounds to the double. -/
def firstGrid (i : RoundingInterval) (tie : DecimalTie) (leading : Int) : (more digits : Nat) → Nat × Int
  | 0, _ => (i.floorAt (leading - 16), leading - 16)
  | more + 1, digits =>
    let p := leading - digits
    match i.onGrid tie p with
    | some c => (c, p)
    | none => firstGrid i tie leading more (digits + 1)

end RoundingInterval

/-- A number without its trailing decimal zeros, each of which raises the exponent by one. -/
def dropZeros : (most : Nat) → Nat → Int → Nat × Int
  | 0, c, p => (c, p)
  | most + 1, c, p => if c % 10 = 0 then dropZeros most (c / 10) (p + 1) else (c, p)

/-- Digits and exponent of ten of the shortest decimal that reads back as the absolute value of a finite double. -/
def shortest (x : Binary64) (tie : DecimalTie) : Nat × Int :=
  if x.isZero then (0, 0) else
    let i := x.roundingInterval
    let (c, p) := i.firstGrid tie i.leadingExponent 17 0
    dropZeros 17 c p

end Binary64

/-! ## Layouts -/

/-- How the digits of a number are set out. -/
structure DecimalLayout where
  /-- Exponents of ten of the leading digit that are written positionally; `none`: all. -/
  positional : Option (Int × Int)
  /-- A whole number written positionally ends in `.0`. -/
  pointZero : Bool
  tie : DecimalTie

namespace DecimalLayout

/-- JSON numbers: positional from `1e-5` to below `1e16`, always with a point there. -/
def json : DecimalLayout := ⟨some (-5, 15), true, .even⟩

/-- Numbers in messages: positional throughout, whole numbers without a point. -/
def plain : DecimalLayout := ⟨none, false, .up⟩

/-- Numbers in messages that have to show that they are not integers. -/
def pointed : DecimalLayout := ⟨none, true, .up⟩

/-- `digits · 10 ^ exponent` without an exponent. -/
def positionalText (l : DecimalLayout) (digits : String) (exponent : Int) : String :=
  let point : Int := digits.length + exponent
  if 0 ≤ exponent then
    digits ++ String.ofList (List.replicate exponent.toNat '0') ++ (if l.pointZero then ".0" else "")
  else if 0 < point then
    String.ofList (digits.toList.take point.toNat) ++ "." ++ String.ofList (digits.toList.drop point.toNat)
  else
    "0." ++ String.ofList (List.replicate (-point).toNat '0') ++ digits

/-- `digits · 10 ^ exponent` with one digit before the point, and a sign on the exponent. -/
def scientificText (digits : String) (exponent : Int) : String :=
  let e : Int := digits.length + exponent - 1
  let mantissa := String.ofList (digits.toList.take 1) ++
    (if digits.length = 1 then "" else "." ++ String.ofList (digits.toList.drop 1))
  mantissa ++ "e" ++ (if 0 ≤ e then "+" ++ toString e.toNat else "-" ++ toString (-e).toNat)

/-- `digits · 10 ^ exponent` in the layout. -/
def text (l : DecimalLayout) (digits : Nat) (exponent : Int) : String :=
  let ds := toString digits
  let lead : Int := ds.length + exponent - 1
  match l.positional with
  | none => l.positionalText ds exponent
  | some (least, most) =>
    if least ≤ lead ∧ lead ≤ most then l.positionalText ds exponent else scientificText ds exponent

end DecimalLayout

/-- The text of a double. -/
def Binary64.render (l : DecimalLayout) (x : Binary64) : String :=
  if x.isNaN then "NaN" else
    let sign := if x.isNegative then "-" else ""
    if !x.isFinite then sign ++ "inf" else
      let (digits, exponent) := x.shortest l.tie
      sign ++ l.text digits exponent

end Rpc
