import Rpc.Binary64.Narrow

/-!
# Narrowed doubles fit their words

`Interchange.narrow?_lt`: the word of a narrowed double has no more bits than its format. What a word widens to is at
most one binade above the word's own value (`Binary64.roundBits_le`), so the word nearest below it stays within the
sign and the other bits (`Interchange.truncate_lt`).
-/

namespace Rpc

namespace Binary64

/-! ## Rounding a number with a power of two below -/

theorem roundHalfEven_le (n d : Nat) : roundHalfEven n d ≤ n / d + 1 := by
  have hparity : n / d % 2 ≤ 1 := Nat.le_of_lt_succ (Nat.mod_lt _ (by decide))
  simp only [roundHalfEven]
  split
  · omega
  · split <;> omega

theorem mul_two_pow_lt {m k i n : Nat} (hm : m < 2 ^ k) (h : k + i ≤ n) : m * 2 ^ i < 2 ^ n :=
  calc m * 2 ^ i
    _ < 2 ^ k * 2 ^ i := Nat.mul_lt_mul_of_pos_right hm (Nat.two_pow_pos _)
    _ = 2 ^ (k + i) := (Nat.pow_add 2 k i).symm
    _ ≤ 2 ^ n := Nat.pow_le_pow_right (by decide) h

/-- How many bits are left of a number when it is moved by an exponent. -/
theorem shifted_div_lt {num j k : Nat} {e : Int} (h : Nat.log2 num + 1 + (-e).toNat ≤ k + (j + e.toNat)) :
    num * 2 ^ (-e).toNat / (2 ^ j * 2 ^ e.toNat) < 2 ^ k := by
  rw [Nat.div_lt_iff_lt_mul (Nat.mul_pos (Nat.two_pow_pos _) (Nat.two_pow_pos _)), ← Nat.pow_add, ← Nat.pow_add]
  exact mul_two_pow_lt Nat.lt_log2_self h

/-- A number `num / 2 ^ j` has 53 bits at its exponent, unless it is too small. -/
theorem exponentOf_two_pow {num j : Nat} (h : num ≠ 0) :
    exponentOf num (2 ^ j) = max ((Nat.log2 num : Int) - j - 52) (-1074) := by
  obtain ⟨guess, hguess⟩ : ∃ guess : Int, guess = (Nat.log2 num : Int) - j - 52 := ⟨_, rfl⟩
  have hlow : ¬ num * 2 ^ (-guess).toNat < 2 ^ 52 * (2 ^ j * 2 ^ guess.toNat) := by
    rw [Nat.not_lt, ← Nat.pow_add, ← Nat.pow_add, show 52 + (j + guess.toNat) = Nat.log2 num + (-guess).toNat by omega,
      Nat.pow_add]
    exact Nat.mul_le_mul_right _ (Nat.log2_self_le h)
  simp only [exponentOf, shifted, Nat.log2_two_pow, ← hguess, hlow, if_false]

/-- A number below `2 ^ (k + 1)` is rounded to one below `2 ^ (k + 2)`. -/
theorem roundBits_le {num j k : Nat} (h : num < 2 ^ (k + 1 + j)) : roundBits num (2 ^ j) ≤ (k + 1024) * 2 ^ 52 := by
  by_cases hzero : num = 0
  · simp [roundBits, hzero]
  have hlog : Nat.log2 num < k + 1 + j := (Nat.log2_lt hzero).mpr h
  obtain ⟨e, he⟩ : ∃ e : Int, e = max ((Nat.log2 num : Int) - j - 52) (-1074) := ⟨_, rfl⟩
  have hquotient : num * 2 ^ (-e).toNat / (2 ^ j * 2 ^ e.toNat) < 2 ^ 53 :=
    shifted_div_lt (by omega)
  have hround := roundHalfEven_le (num * 2 ^ (-e).toNat) (2 ^ j * 2 ^ e.toNat)
  simp only [roundBits, hzero, if_false, exponentOf_two_pow hzero, ← he, shifted]
  omega

/-- Nothing is beyond the infinities. -/
theorem roundBits_le_infinity (num den : Nat) : roundBits num den ≤ 2047 * 2 ^ 52 := by
  unfold roundBits
  split
  · exact Nat.zero_le _
  · exact Nat.min_le_right _ _

theorem toNat_bits_round (neg : Bool) (num den : Nat) :
    (round neg num den).bits.toNat = (if neg then 2 ^ 63 else 0) + roundBits num den := by
  have hle := roundBits_le_infinity num den
  unfold round ofFields
  rw [UInt64.toNat_ofNat']
  split <;> omega

theorem exponentField_round (neg : Bool) (num den : Nat) :
    (round neg num den).exponentField = roundBits num den / 2 ^ 52 := by
  have hle := roundBits_le_infinity num den
  rw [exponentField, toNat_bits_round]
  split <;> omega

theorem fraction_round (neg : Bool) (num den : Nat) : (round neg num den).fraction = roundBits num den % 2 ^ 52 := by
  have hle := roundBits_le_infinity num den
  rw [fraction, toNat_bits_round]
  split <;> omega

theorem magnitude_lt (x : Binary64) : x.magnitude < 2 ^ 53 := by
  have : x.fraction < 2 ^ 52 := Nat.mod_lt _ (by decide)
  unfold magnitude
  split <;> omega

theorem log2_absNum_le (x : Binary64) : Nat.log2 x.absNum ≤ 52 + x.scale.toNat := by
  have hlt : x.absNum < 2 ^ (53 + x.scale.toNat) := mul_two_pow_lt x.magnitude_lt (Nat.le_refl _)
  by_cases hzero : x.absNum = 0
  · simp [hzero]
  · have := (Nat.log2_lt hzero).mpr hlt
    omega

theorem log2_absDen (x : Binary64) : Nat.log2 x.absDen = (-x.scale).toNat := Nat.log2_two_pow

theorem isFinite_infinity (neg : Bool) : (infinity neg).isFinite = false := by cases neg <;> rfl

theorem isFinite_nan : nan.isFinite = false := rfl

end Binary64

namespace Interchange

open Binary64

variable {f : Interchange} {x : Binary64} {w : Nat}

/-- The number of exponents is even, and a format has four at least. -/
theorem two_pow_exponentBits (hf : 2 ≤ f.exponentBits) :
    2 ^ f.exponentBits = 2 * 2 ^ (f.exponentBits - 1) ∧ 2 ≤ 2 ^ (f.exponentBits - 1) := by
  have hone : 2 ^ 1 ≤ 2 ^ (f.exponentBits - 1) := Nat.pow_le_pow_right (by decide) (by omega)
  refine ⟨?_, hone⟩
  calc 2 ^ f.exponentBits
    _ = 2 ^ (f.exponentBits - 1 + 1) := by rw [Nat.sub_add_cancel (by omega)]
    _ = 2 * 2 ^ (f.exponentBits - 1) := Nat.pow_succ'

theorem leastScale_eq : f.leastScale = 2 - (2 ^ (f.exponentBits - 1) : Nat) - f.fractionBits := by
  rw [leastScale, Int.natCast_pow]
  rfl

/-- What a word widens to, if it is finite, is at most one binade above the greatest number of the format. -/
theorem scale_widen_le (hf : 2 ≤ f.exponentBits) (hfinite : (f.widen w).isFinite) :
    (f.widen w).scale ≤ (2 ^ (f.exponentBits - 1) : Nat) - 52 := by
  obtain ⟨hpow, hbias⟩ := two_pow_exponentBits hf
  generalize hB : 2 ^ (f.exponentBits - 1) = B at hpow hbias ⊢
  have hfield : w % f.signUnit / 2 ^ f.fractionBits < 2 * B := by
    rw [Nat.div_lt_iff_lt_mul (Nat.two_pow_pos _), ← hpow, ← Nat.pow_add, Nat.add_comm]
    exact Nat.mod_lt _ (Nat.two_pow_pos _)
  have hfraction : w % f.signUnit % 2 ^ f.fractionBits < 2 ^ f.fractionBits := Nat.mod_lt _ (Nat.two_pow_pos _)
  simp only [widen, topExponent, hpow] at hfinite ⊢
  generalize w % f.signUnit / 2 ^ f.fractionBits = field at hfield hfinite ⊢
  generalize w % f.signUnit % 2 ^ f.fractionBits = fraction at hfraction hfinite ⊢
  split at hfinite
  · split at hfinite
    · rw [isFinite_infinity] at hfinite
      cases hfinite
    · rw [isFinite_nan] at hfinite
      cases hfinite
  · next htop =>
    simp only [htop, if_false]
    obtain ⟨e, he⟩ : ∃ e : Int, e = f.leastScale + ((field - 1 : Nat) : Int) := ⟨_, rfl⟩
    obtain ⟨m, hm⟩ : ∃ m, m = if field = 0 then fraction else 2 ^ f.fractionBits + fraction := ⟨_, rfl⟩
    have hnum : m * 2 ^ e.toNat < 2 ^ (B - 1 + 1 + (-e).toNat) := by
      have hmlt : m < 2 ^ (f.fractionBits + 1) := by
        rw [Nat.pow_succ, hm]
        split <;> omega
      have hleast := leastScale_eq (f := f)
      exact mul_two_pow_lt hmlt (by omega)
    rw [← he, ← hm, scale, exponentField_round]
    have hround := roundBits_le hnum
    split <;> omega

/-- The word below a double that is not beyond the format fits the format. -/
theorem truncate_lt (hf : 2 ≤ f.exponentBits) (hscale : x.scale ≤ (2 ^ (f.exponentBits - 1) : Nat) - 52) :
    f.truncate x < 2 * f.signUnit := by
  obtain ⟨hpow, hbias⟩ := two_pow_exponentBits hf
  have hleast := leastScale_eq (f := f)
  have hunit : f.signUnit = 2 * 2 ^ (f.exponentBits - 1) * 2 ^ f.fractionBits := by
    rw [signUnit, Nat.add_comm, Nat.pow_add, hpow]
  generalize 2 ^ (f.exponentBits - 1) = B at hbias hscale hleast hunit
  have hnum := x.log2_absNum_le
  obtain ⟨e, he⟩ : ∃ e : Int, e = max ((Nat.log2 x.absNum : Int) - (-x.scale).toNat - f.fractionBits) f.leastScale :=
    ⟨_, rfl⟩
  have hm : x.absNum * 2 ^ (-e).toNat / (x.absDen * 2 ^ e.toNat) < 2 * 2 ^ f.fractionBits := by
    rw [absDen, ← Nat.pow_succ']
    exact shifted_div_lt (by omega)
  have hsteps : (e - f.leastScale).toNat * 2 ^ f.fractionBits + 2 * 2 ^ f.fractionBits ≤ 2 * B * 2 ^ f.fractionBits := by
    rw [← Nat.add_mul]
    exact Nat.mul_le_mul_right _ (by omega)
  simp only [truncate, log2_absDen, ← he]
  split <;> omega

/-- **A narrowed double fits a word of its format.** -/
theorem narrow?_lt (hf : 2 ≤ f.exponentBits) (hx : x.isFinite) (h : f.narrow? x = some w) : w < 2 * f.signUnit := by
  have hwiden := widen_narrow? f h
  obtain rfl : f.truncate x = w := by
    simp only [narrow?] at h
    split at h
    · exact Option.some.inj h
    · cases h
  refine truncate_lt hf ?_
  rw [← hwiden] at hx ⊢
  exact scale_widen_le hf hx

end Interchange

end Rpc
