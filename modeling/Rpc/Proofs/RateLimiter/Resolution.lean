import Rpc.Proofs.Binary64.Rounding
import Rpc.RateLimiter

/-!
# The resolution of rates

A thousand times a rate is rounded twice, to a double and then to an integer, and both can go down.

- `Schedule.whole_le_of_small`: below `2 ^ 53` neither rounding passes an integer;
- `Schedule.two_mul_whole_le`: from `2 ^ 52` up the first one goes down by half a unit at most, the second is exact;
- `Schedule.whole_le_scaledRate`: so a rate that is resolved to a whole number of permits a second is resolved to no
  less than its own whole part, however great it is;
- `Schedule.whole_le_capacityOf`: nor is the capacity less; and it is no more than what a thousand seconds give
  (`Schedule.capacityOf_le_scaledRate`);
- `Schedule.scaledRate_eq_zero_iff`: which rates are resolved to nothing, and `Schedule.ofRate_ok_iff`: which rates are
  accepted.
-/

namespace Rpc

namespace Schedule

variable {rate : Binary64}

/-- A thousand times a rate is rounded to `significand · 2 ^ exponent`. -/
def exponent (rate : Binary64) : Int := Binary64.fullExponent (rate.absNum * 1000) (-rate.scale).toNat

/-- A thousand times a rate, rounded to a double. -/
def product (rate : Binary64) : Binary64 := Binary64.round false (rate.absNum * 1000) rate.absDen

@[inherit_doc exponent]
def significand (rate : Binary64) : Nat := Binary64.fullSignificand (rate.absNum * 1000) (-rate.scale).toNat

/-- The permits of a second that are whole. -/
def whole (rate : Binary64) : Nat := rate.absNum / rate.absDen

theorem scaledRate_le (rate : Binary64) : scaledRate rate ≤ maxUInt64 := by
  unfold scaledRate
  dsimp only
  split
  · exact Nat.min_le_right _ _
  · exact Nat.le_refl _

theorem absDen_pos (rate : Binary64) : 0 < rate.absDen := Nat.two_pow_pos _

theorem whole_mul_le (rate : Binary64) : whole rate * rate.absDen ≤ rate.absNum := Nat.div_mul_le_self _ _

/-- From `2 ^ 52` up a rate is at most half a unit more than it is rounded to. -/
theorem two_mul_whole_le (he : 0 ≤ exponent rate) :
    2 * (whole rate * 1000) ≤ (2 * significand rate + 1) * 2 ^ (exponent rate).toNat := by
  have hdown : (-exponent rate).toNat = 0 := by omega
  have hround := Binary64.two_mul_le_roundHalfEven (rate.absNum * 1000 * 2 ^ (-exponent rate).toNat)
    (d := rate.absDen * 2 ^ (exponent rate).toNat) (Nat.mul_pos (Nat.two_pow_pos _) (Nat.two_pow_pos _))
  change _ ≤ (2 * significand rate + 1) * _ at hround
  rw [hdown, Nat.pow_zero, Nat.mul_one] at hround
  apply Nat.le_of_mul_le_mul_right (c := rate.absDen) _ (absDen_pos rate)
  have hwhole := Nat.mul_le_mul_right 1000 (whole_mul_le rate)
  calc 2 * (whole rate * 1000) * rate.absDen
    _ = 2 * (whole rate * rate.absDen * 1000) := by lia
    _ ≤ 2 * (rate.absNum * 1000) := Nat.mul_le_mul_left 2 hwhole
    _ ≤ (2 * significand rate + 1) * (rate.absDen * 2 ^ (exponent rate).toNat) := hround
    _ = (2 * significand rate + 1) * 2 ^ (exponent rate).toNat * rate.absDen := by lia

section
variable (h : rate.absDen ≤ rate.absNum)
include h

theorem two_pow_le : 2 ^ (-rate.scale).toNat ≤ rate.absNum * 1000 :=
  Nat.le_trans h (Nat.le_mul_of_pos_right _ (by decide))

theorem absNum_product (hfinite : (product rate).isFinite) :
    (product rate).absNum * 2 ^ (-exponent rate).toNat =
      significand rate * 2 ^ (exponent rate).toNat * (product rate).absDen :=
  Binary64.absNum_round (two_pow_le h) hfinite

section
variable (he : exponent rate ≤ 0)
include he

theorem isFinite_of_small : (product rate).isFinite := by
  have hbits := Binary64.roundBits_eq (two_pow_le h)
  have hm := Binary64.fullSignificand_le (rate.absNum * 1000) (-rate.scale).toNat
  simp only [product, Binary64.isFinite, Binary64.exponentField_round, bne_iff_ne, ne_eq, Binary64.absDen]
  unfold exponent at he
  omega

theorem whole_lt_of_small : whole rate * 1000 < 2 ^ 53 := by
  have hlog : Nat.log2 (rate.absNum * 1000) < 53 + (-rate.scale).toNat := by
    unfold exponent Binary64.fullExponent at he
    omega
  have hlt := (Nat.log2_lt (Binary64.ne_zero_of_two_pow_le (two_pow_le h))).mp hlog
  apply Nat.lt_of_mul_lt_mul_right (a := rate.absDen)
  calc whole rate * 1000 * rate.absDen
    _ = whole rate * rate.absDen * 1000 := Nat.mul_right_comm _ _ _
    _ ≤ rate.absNum * 1000 := Nat.mul_le_mul_right 1000 (whole_mul_le rate)
    _ < 2 ^ 53 * rate.absDen := by
      rw [Nat.pow_add] at hlt
      exact hlt

/-- Below `2 ^ 53` neither rounding passes an integer. -/
theorem whole_le_of_small : whole rate * 1000 ≤ scaledRate rate := by
  have hfinite := isFinite_of_small h he
  have hlt := whole_lt_of_small h he
  have hup : (exponent rate).toNat = 0 := by omega
  have hsignificand : whole rate * 1000 * 2 ^ (-exponent rate).toNat ≤ significand rate := by
    apply Binary64.le_roundHalfEven (Nat.mul_pos (Nat.two_pow_pos _) (Nat.two_pow_pos _))
    change _ * (rate.absDen * 2 ^ (exponent rate).toNat) ≤ _ * 2 ^ (-exponent rate).toNat
    rw [hup, Nat.pow_zero, Nat.mul_one, Nat.mul_right_comm _ _ rate.absDen, Nat.mul_right_comm _ 1000]
    exact Nat.mul_le_mul_right _ (Nat.mul_le_mul_right 1000 (whole_mul_le rate))
  have hproduct : whole rate * 1000 * (product rate).absDen ≤ (product rate).absNum := by
    apply Nat.le_of_mul_le_mul_right (c := 2 ^ (-exponent rate).toNat) _ (Nat.two_pow_pos _)
    rw [absNum_product h hfinite, hup, Nat.pow_zero, Nat.mul_one, Nat.mul_right_comm]
    exact Nat.mul_le_mul_right _ hsignificand
  have hmin : scaledRate rate = min (Binary64.roundHalfUp (product rate).absNum (product rate).absDen) maxUInt64 :=
    if_pos hfinite
  rw [hmin]
  refine Nat.le_min.mpr ⟨Binary64.le_roundHalfUp (absDen_pos _) hproduct, ?_⟩
  unfold maxUInt64
  omega

end

/-- From `2 ^ 52` up the product is an integer, and it counts unless it is too great. -/
theorem scaledRate_of_large (he : 0 ≤ exponent rate) (hne : scaledRate rate ≠ maxUInt64) :
    scaledRate rate = significand rate * 2 ^ (exponent rate).toNat ∧ scaledRate rate < maxUInt64 := by
  have hfinite : (product rate).isFinite := Decidable.byContradiction fun hinfinite => hne (if_neg hinfinite)
  have hdown : (-exponent rate).toNat = 0 := by omega
  have hproduct : (product rate).absNum =
      significand rate * 2 ^ (exponent rate).toNat * (product rate).absDen := by
    have hround := absNum_product h hfinite
    rw [hdown, Nat.pow_zero, Nat.mul_one] at hround
    exact hround
  have hmin : scaledRate rate = min (significand rate * 2 ^ (exponent rate).toNat) maxUInt64 := by
    rw [← Binary64.roundHalfUp_mul (absDen_pos (product rate)) (significand rate * _), ← hproduct]
    exact if_pos hfinite
  omega

/-- A great rate is an even number. -/
theorem even_whole (he : 11 ≤ exponent rate) : 2 ∣ whole rate := by
  have hlog : 52 + 11 + (-rate.scale).toNat ≤ Nat.log2 (rate.absNum * 1000) := by
    unfold exponent Binary64.fullExponent at he
    omega
  have hle := (Nat.le_log2 (Binary64.ne_zero_of_two_pow_le (two_pow_le h))).mp hlog
  have hscale : 0 < rate.scale := by
    apply Int.lt_of_not_ge
    intro hsmall
    have hpow : 2 ^ (52 + 11) ≤ 2 ^ (52 + 11 + (-rate.scale).toNat) :=
      Nat.pow_le_pow_right (by decide) (Nat.le_add_right _ _)
    have hm := rate.magnitude_lt
    rw [Binary64.absNum, show rate.scale.toNat = 0 by omega] at hle
    omega
  have hden : rate.absDen = 1 := by rw [Binary64.absDen, show (-rate.scale).toNat = 0 by omega, Nat.pow_zero]
  have heven : 2 ^ 1 ∣ 2 ^ rate.scale.toNat := Nat.pow_dvd_pow 2 (by omega)
  rw [whole, hden, Nat.div_one]
  exact Nat.dvd_mul_left_of_dvd heven rate.magnitude

end

/-- **A rate with a whole number of permits a second is resolved to no less.** -/
theorem whole_le_scaledRate (hwhole : 1000 ∣ scaledRate rate) : whole rate * 1000 ≤ scaledRate rate := by
  rcases Nat.lt_or_ge rate.absNum rate.absDen with hbelow | h
  · rw [whole, Nat.div_eq_of_lt hbelow, Nat.zero_mul]
    exact Nat.zero_le _
  rcases Int.le_total (exponent rate) 0 with he | he
  · exact whole_le_of_small h he
  have hne : scaledRate rate ≠ maxUInt64 := by
    intro heq
    rw [heq] at hwhole
    exact absurd hwhole (by decide)
  obtain ⟨hscaled, hlt⟩ := scaledRate_of_large h he hne
  have hhalf := two_mul_whole_le he
  have hnormal : 2 ^ 52 ≤ significand rate := Binary64.le_fullSignificand (two_pow_le h)
  have hexponent : (exponent rate).toNat ≤ 11 := by
    apply Nat.le_of_not_lt
    intro hgreat
    have hpow : 2 ^ 12 ≤ 2 ^ (exponent rate).toNat := Nat.pow_le_pow_right (by decide) (by omega)
    have hmul := Nat.mul_le_mul hnormal hpow
    unfold maxUInt64 at hlt
    omega
  obtain ⟨q, hq⟩ := hwhole
  rcases Nat.lt_or_eq_of_le hexponent with hunit | hunit
  · -- Half a unit is less than a permit.
    have hpow : 2 ^ (exponent rate).toNat ≤ 2 ^ 10 := Nat.pow_le_pow_right (by decide) (by omega)
    rw [Nat.add_mul, Nat.mul_assoc, ← hscaled] at hhalf
    omega
  · -- Half a unit is a little more than a permit, but both numbers are even.
    obtain ⟨p, hp⟩ := even_whole h (by omega)
    rw [hunit] at hscaled hhalf
    omega

/-! ## The capacity -/

/-- The capacity is the rate, rounded up. -/
theorem whole_le_capacityOf (hle : whole rate ≤ maxUInt64) : whole rate ≤ capacityOf rate := by
  have hceil : whole rate ≤ (rate.absNum + rate.absDen - 1) / rate.absDen := by
    apply Nat.div_le_div_right
    have := absDen_pos rate
    omega
  exact Nat.le_trans (Nat.le_min.mpr ⟨hceil, hle⟩) (Nat.le_max_right _ _)

/-- A thousand seconds fill a bucket. -/
theorem capacityOf_le_scaledRate (hscaled : scaledRate rate ≠ 0) : capacityOf rate ≤ scaledRate rate := by
  refine Nat.max_le.mpr ⟨Nat.one_le_iff_ne_zero.mpr hscaled, ?_⟩
  have hceil : (rate.absNum + rate.absDen - 1) / rate.absDen ≤ whole rate + 1 := by
    rw [whole, ← Nat.add_div_right _ (absDen_pos rate)]
    exact Nat.div_le_div_right (Nat.sub_le _ _)
  rcases Nat.lt_or_ge rate.absNum rate.absDen with hbelow | h
  · rw [whole, Nat.div_eq_of_lt hbelow] at hceil
    omega
  have hpermit : 1 ≤ whole rate := Nat.div_pos h (absDen_pos rate)
  rcases Int.le_total (exponent rate) 0 with he | he
  · have := whole_le_of_small h he
    omega
  by_cases hmax : scaledRate rate = maxUInt64
  · rw [hmax]
    exact Nat.min_le_right _ _
  · obtain ⟨hlarge, -⟩ := scaledRate_of_large h he hmax
    have hhalf := two_mul_whole_le he
    have hone : 1 ≤ significand rate := Nat.le_trans (by decide) (Binary64.le_fullSignificand (two_pow_le h))
    have hunit : 2 ^ (exponent rate).toNat ≤ significand rate * 2 ^ (exponent rate).toNat :=
      Nat.le_mul_of_pos_left _ hone
    rw [Nat.add_mul, Nat.one_mul, Nat.mul_assoc, ← hlarge] at hhalf
    rw [← hlarge] at hunit
    omega

/-! ## Rates that are resolved to nothing -/

/-- No thousands of a significand come so near to a power of two that they are rounded to it. -/
theorem thousands_apart {m j : Nat} (hj : j ≤ 64) (h : 2000 * m < 2 ^ j) : 2 ^ j < 2 ^ 54 * (2 ^ j - 2000 * m) := by
  have hrest : ∀ j ≤ 64, 2 ^ j < 2 ^ 54 * (2 ^ j % 2000) := by decide
  calc 2 ^ j
    _ < 2 ^ 54 * (2 ^ j % 2000) := hrest j hj
    _ = 2 ^ 54 * ((2 ^ j - 2000 * m) % 2000) := by rw [Nat.sub_mul_mod (Nat.le_of_lt h)]
    _ ≤ 2 ^ 54 * (2 ^ j - 2000 * m) := Nat.mul_le_mul_left _ (Nat.mod_le _ _)

/-- A thousand times a rate is below one half after rounding exactly if it is before. -/
theorem exponentField_product_lt_iff (rate : Binary64) :
    (product rate).exponentField < 1022 ↔ 2000 * rate.absNum < rate.absDen := by
  have hdouble : 2 * (rate.absNum * 1000) = 2000 * rate.absNum := by omega
  rw [product, Binary64.exponentField_round, Nat.div_lt_iff_lt_mul (by decide), ← hdouble]
  constructor
  · intro hlt
    apply Nat.lt_of_not_le
    intro hle
    exact Nat.not_le_of_lt hlt (Binary64.half_le_roundBits hle)
  · intro hlt
    refine Binary64.roundBits_lt_half hlt fun hbinade => ?_
    have hup : rate.scale.toNat = 0 := by omega
    have hnum : rate.absNum * 1000 < 2 ^ 63 := by
      have hm := rate.magnitude_lt
      rw [Binary64.absNum, hup]
      omega
    have hj : (-rate.scale).toNat ≤ 64 := by
      by_cases hzero : rate.absNum * 1000 = 0
      · rw [hzero, Nat.log2_zero] at hbinade
        omega
      · have := (Nat.log2_lt hzero).mpr hnum
        omega
    rw [hdouble] at hlt ⊢
    exact thousands_apart hj hlt

/-- **A rate is resolved to nothing exactly if it is below half a thousandth,** though it is rounded twice. -/
theorem scaledRate_eq_zero_iff (rate : Binary64) : scaledRate rate = 0 ↔ 2000 * rate.absNum < rate.absDen := by
  rw [← exponentField_product_lt_iff]
  by_cases hfinite : (product rate).isFinite
  · have hmin : scaledRate rate = min (Binary64.roundHalfUp (product rate).absNum (product rate).absDen) maxUInt64 :=
      if_pos hfinite
    have hpos := absDen_pos (product rate)
    have hround : Binary64.roundHalfUp (product rate).absNum (product rate).absDen = 0 ↔
        2 * (product rate).absNum < (product rate).absDen := by
      rw [Binary64.roundHalfUp, Nat.div_eq_zero_iff_lt (by omega)]
      omega
    rw [← Binary64.two_mul_absNum_lt_iff, ← hround, hmin]
    have hmax : 0 < maxUInt64 := by decide
    omega
  · have hmax : scaledRate rate = maxUInt64 := if_neg hfinite
    have hfield : (product rate).exponentField = 2047 := by simpa [Binary64.isFinite] using hfinite
    rw [hmax, hfield]
    decide

/-! ## Rates that are accepted -/

/-- A rate is refused under its own name. -/
theorem ofRate_eq_error {e : InvalidRate} (h : ofRate rate = .error e) : e = ⟨rate⟩ := by
  unfold ofRate at h
  dsimp only at h
  split at h
  · exact (Except.error.inj h).symm
  · split at h
    · exact (Except.error.inj h).symm
    · cases h

/-- **A bucket can be made of a positive, finite rate from half a thousandth up,** and of no other. -/
theorem ofRate_ok_iff :
    (∃ s, ofRate rate = .ok s) ↔
      rate.isPositive = true ∧ rate.isFinite = true ∧ rate.absDen ≤ 2000 * rate.absNum := by
  rw [← Nat.not_lt, ← scaledRate_eq_zero_iff]
  unfold ofRate
  by_cases hzero : scaledRate rate = 0 <;> cases hfinite : rate.isFinite <;> cases hpositive : rate.isPositive <;>
    simp [hzero]

end Schedule

namespace RateLimiter

variable {rate : Binary64} {now : Instant}

/-- Nothing but its rate keeps a bucket from being made. -/
theorem new_ok_iff : (∃ l, new rate now = .ok l) ↔ ∃ s, Schedule.ofRate rate = .ok s := by
  unfold new
  cases Schedule.ofRate rate with
  | error e => exact ⟨by rintro ⟨_, ⟨⟩⟩, by rintro ⟨_, ⟨⟩⟩⟩
  | ok s => exact ⟨fun _ => ⟨s, rfl⟩, fun _ => ⟨_, rfl⟩⟩

theorem new_eq_error {e : InvalidRate} (h : new rate now = .error e) : e = ⟨rate⟩ := by
  unfold new at h
  cases hs : Schedule.ofRate rate with
  | ok s =>
    rw [hs] at h
    cases h
  | error e' =>
    rw [hs] at h
    cases h
    exact Schedule.ofRate_eq_error hs

end RateLimiter

end Rpc
