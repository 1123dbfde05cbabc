import Rpc.Bytes

/-!
# Double-precision numbers

A double is its 64 bits (`Binary64`). All arithmetic on it is exact arithmetic on natural numbers followed by one
rounding to the nearest double, ties to the even significand (`Binary64.round`).

- the fields of the word, and the integer `magnitude · 2 ^ scale` of a finite double;
- `Binary64.round neg num den`: the double nearest to `± num / den`;
- products and quotients by powers of ten (`scaleUp`, `scaleDown`), as readers of decimal numbers need them.
-/

namespace Rpc

/-- A double-precision number, held as its 64 bits. -/
structure Binary64 where
  bits : UInt64
  deriving DecidableEq, Inhabited

namespace Binary64

/-! ## Fields -/

/-- The 52 low bits. -/
def fraction (x : Binary64) : Nat := x.bits.toNat % 2 ^ 52

/-- The 11 bits above the fraction. -/
def exponentField (x : Binary64) : Nat := x.bits.toNat / 2 ^ 52 % 2 ^ 11

/-- The top bit is set. -/
def isNegative (x : Binary64) : Bool := 2 ^ 63 ≤ x.bits.toNat

/-- Neither infinite nor a NaN. -/
def isFinite (x : Binary64) : Bool := x.exponentField != 2047

/-- A NaN: the exponent of an infinity with a fraction. -/
def isNaN (x : Binary64) : Bool := x.exponentField == 2047 && x.fraction != 0

/-- One of the two zeros. -/
def isZero (x : Binary64) : Bool := x.exponentField == 0 && x.fraction == 0

/-- The significand of a finite double: it stands for `± magnitude · 2 ^ scale`. -/
def magnitude (x : Binary64) : Nat :=
  if x.exponentField = 0 then x.fraction else 2 ^ 52 + x.fraction

/-- The exponent of two of a finite double. -/
def scale (x : Binary64) : Int :=
  if x.exponentField = 0 then -1074 else (x.exponentField : Int) - 1075

/-- The numerator of the absolute value of a finite double; `absDen` is its denominator. -/
def absNum (x : Binary64) : Nat := x.magnitude * 2 ^ x.scale.toNat

/-- The denominator of the absolute value of a finite double. -/
def absDen (x : Binary64) : Nat := 2 ^ (-x.scale).toNat

/-- The word with the given sign and the given 63 low bits. -/
def ofFields (neg : Bool) (low : Nat) : Binary64 :=
  ⟨UInt64.ofNat ((if neg then 2 ^ 63 else 0) + low)⟩

/-- The infinity of a sign. -/
def infinity (neg : Bool) : Binary64 := ofFields neg (2047 * 2 ^ 52)

/-- The zero of a sign. -/
def zero (neg : Bool) : Binary64 := ofFields neg 0

/-- The NaN that stands for all of them. -/
def nan : Binary64 := ofFields false (2047 * 2 ^ 52 + 2 ^ 51)

/-- The same number with the other sign. -/
def neg (x : Binary64) : Binary64 := ⟨x.bits ^^^ 0x8000000000000000⟩

/-! ## Rounding -/

/-- The integer nearest to `num / den`, a half going to the even neighbour. -/
def roundHalfEven (num den : Nat) : Nat :=
  let q := num / den
  let r := num % den
  if 2 * r < den then q else if den < 2 * r then q + 1 else q + q % 2

/-- The integer nearest to `num / den`, a half going up. -/
def roundHalfUp (num den : Nat) : Nat :=
  (2 * num + den) / (2 * den)

/-- The integer `num / den / 2 ^ e`, as a numerator and a denominator. -/
def shifted (num den : Nat) (e : Int) : Nat × Nat :=
  (num * 2 ^ (-e).toNat, den * 2 ^ e.toNat)

/-- The exponent of two at which `num / den` has a significand of 53 bits, and no less than the least of a double. -/
def exponentOf (num den : Nat) : Int :=
  let guess : Int := (Nat.log2 num : Int) - (Nat.log2 den : Int) - 52
  let (n, d) := shifted num den guess
  let e := if n < 2 ^ 52 * d then guess - 1 else guess
  max e (-1074)

/-- The 63 low bits of the double nearest to `num / den`; an overflow is the infinity. -/
def roundBits (num den : Nat) : Nat :=
  if num = 0 then 0 else
    let e := exponentOf num den
    let (n, d) := shifted num den e
    let m := roundHalfEven n d
    let low := (e + 1074).toNat * 2 ^ 52 + m
    min low (2047 * 2 ^ 52)

/-- The double nearest to `± num / den`, ties to even, overflow to infinity. -/
def round (neg : Bool) (num den : Nat) : Binary64 :=
  ofFields neg (roundBits num den)

/-- The double nearest to a natural number. -/
def ofNat (n : Nat) : Binary64 := round false n 1

/-- The double nearest to `10 ^ k`. -/
def tenPow (k : Nat) : Binary64 := round false (10 ^ k) 1

/-- The rounded product with the double nearest to `10 ^ k`; infinities stay. -/
def scaleUp (x : Binary64) (k : Nat) : Binary64 :=
  let p := tenPow k
  if x.isFinite then round x.isNegative (x.absNum * p.absNum) (x.absDen * p.absDen) else x

/-- The rounded quotient by the double nearest to `10 ^ k`; infinities stay. -/
def scaleDown (x : Binary64) (k : Nat) : Binary64 :=
  let p := tenPow k
  if x.isFinite then round x.isNegative (x.absNum * p.absDen) (x.absDen * p.absNum) else x

/-- The double nearest to `± digits · 10 ^ exponent`. -/
def ofDecimal (neg : Bool) (digits : Nat) (exponent : Int) : Binary64 :=
  round neg (digits * 10 ^ exponent.toNat) (10 ^ (-exponent).toNat)

/-! ## Order -/

/-- Positive or an infinity with a positive sign; zeros and NaNs are not. -/
def isPositive (x : Binary64) : Bool := !x.isNegative && !x.isNaN && !x.isZero

end Binary64

end Rpc
