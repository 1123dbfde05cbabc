import Rpc.Binary64.Basic

/-!
# Shorter binary formats

- half and single precision as records of their widths (`Interchange.half`, `Interchange.single`);
- `Interchange.widen`: the double with the same value, for every word;
- `Interchange.narrow?`: the word that widens to exactly a given double, if there is one (`widen_narrow?`).
-/

namespace Rpc

/-- A binary interchange format: a sign bit, `exponentBits` bits of exponent and `fractionBits` bits of fraction. -/
structure Interchange where
  fractionBits : Nat
  exponentBits : Nat

namespace Interchange

/-- Half precision: 16 bits. -/
def half : Interchange := ⟨10, 5⟩

/-- Single precision: 32 bits. -/
def single : Interchange := ⟨23, 8⟩

variable (f : Interchange)

/-- The exponent field of infinities and NaNs. -/
def topExponent : Nat := 2 ^ f.exponentBits - 1

/-- The exponent of two of the least subnormal number. -/
def leastScale : Int := 2 - 2 ^ (f.exponentBits - 1) - f.fractionBits

/-- The value of the bit of the sign. -/
def signUnit : Nat := 2 ^ (f.fractionBits + f.exponentBits)

/-- The double with the value of a word. -/
def widen (word : Nat) : Binary64 :=
  let neg : Bool := decide (f.signUnit ≤ word)
  let low := word % f.signUnit
  let field := low / 2 ^ f.fractionBits
  let fraction := low % 2 ^ f.fractionBits
  if field = f.topExponent then
    if fraction = 0 then .infinity neg else .nan
  else
    let m := if field = 0 then fraction else 2 ^ f.fractionBits + fraction
    let e := f.leastScale + ((field - 1 : Nat) : Int)
    .round neg (m * 2 ^ e.toNat) (2 ^ (-e).toNat)

/-- The word whose value is nearest below a finite double in absolute value. -/
def truncate (x : Binary64) : Nat :=
  let top : Int := (Nat.log2 x.absNum : Int) - (Nat.log2 x.absDen : Int) - f.fractionBits
  let e := max top f.leastScale
  let m := x.absNum * 2 ^ (-e).toNat / (x.absDen * 2 ^ e.toNat)
  (if x.isNegative then f.signUnit else 0) + ((e - f.leastScale).toNat * 2 ^ f.fractionBits + m)

/-- The word that stands for exactly this double, if there is one. -/
def narrow? (x : Binary64) : Option Nat :=
  let w := f.truncate x
  if f.widen w = x then some w else none

/-- A narrowed number keeps its value. -/
theorem widen_narrow? {x : Binary64} {w : Nat} (h : f.narrow? x = some w) : f.widen w = x := by
  simp only [narrow?] at h
  split at h
  · next hw => cases h; exact hw
  · cases h

end Interchange

end Rpc
