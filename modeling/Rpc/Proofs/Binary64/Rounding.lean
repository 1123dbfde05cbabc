import Rpc.Proofs.Binary64.Narrow

/-!
# How far rounding goes

A number `num / 2 ^ j` from one up is rounded to a significand of 53 bits at its exponent (`fullExponent`,
`fullSignificand`).

- `le_roundHalfEven`, `two_mul_le_roundHalfEven`, `le_roundHalfUp`: rounding to an integer passes no integer, and goes
  half a unit at most;
- `absNum_round`: a finite rounded number is its significand at its exponent, also where the significand overflows;
- `half_le_roundBits`, `roundBits_lt_half`: on which side of one half a number is after rounding.
-/

namespace Rpc

namespace Binary64

/-! ## Integers -/

/-- Rounding does not pass an integer. -/
theorem le_roundHalfEven {n d k : Nat} (hd : 0 < d) (h : k * d ≤ n) : k ≤ roundHalfEven n d := by
  have hfloor : k ≤ n / d := (Nat.le_div_iff_mul_le hd).mpr h
  simp only [roundHalfEven]
  split
  · exact hfloor
  · split <;> omega

/-- Rounding goes half a unit at most. -/
theorem two_mul_le_roundHalfEven (n : Nat) {d : Nat} (hd : 0 < d) : 2 * n ≤ (2 * roundHalfEven n d + 1) * d := by
  have hdiv := Nat.div_add_mod n d
  have hmod := Nat.mod_lt n hd
  simp only [roundHalfEven]
  generalize n / d = q at hdiv ⊢
  generalize n % d = r at hdiv hmod ⊢
  have hexpand : ∀ x : Nat, (2 * x + 1) * d = 2 * (d * x) + d := by
    intro x
    rw [Nat.add_mul, Nat.one_mul, Nat.mul_assoc, Nat.mul_comm x]
  have hnext : d * (q + 1) = d * q + d := Nat.mul_succ d q
  split
  · rw [hexpand]
    omega
  · split
    · rw [hexpand]
      omega
    · -- Exactly between two integers, the one above is as good as the one below.
      have hstep : d * q ≤ d * (q + q % 2) := Nat.mul_le_mul_left d (Nat.le_add_right _ _)
      rw [hexpand]
      omega

/-- Nor does it go more than half a unit up. -/
theorem two_mul_roundHalfEven_le (n d : Nat) : 2 * (roundHalfEven n d * d) ≤ 2 * n + d := by
  have hdiv := Nat.div_mul_le_self n d
  have hmod := Nat.div_add_mod' n d
  simp only [roundHalfEven]
  generalize n / d = q at hdiv hmod ⊢
  generalize n % d = r at hmod ⊢
  have hnext : (q + 1) * d = q * d + d := Nat.succ_mul q d
  split
  · omega
  · split
    · omega
    · -- Exactly between two integers, the one above is as good as the one below.
      have hstep : (q + q % 2) * d ≤ (q + 1) * d := Nat.mul_le_mul_right d (by omega)
      omega

/-- Rounding a half up does not pass an integer either. -/
theorem le_roundHalfUp {n d k : Nat} (hd : 0 < d) (h : k * d ≤ n) : k ≤ roundHalfUp n d := by
  have hexpand : k * (2 * d) = 2 * (k * d) := Nat.mul_left_comm k 2 d
  apply (Nat.le_div_iff_mul_le (Nat.mul_pos (by decide) hd)).mpr
  omega

/-- Integers are not rounded. -/
theorem roundHalfUp_mul {d : Nat} (hd : 0 < d) (k : Nat) : roundHalfUp (k * d) d = k := by
  have hexpand : 2 * (k * d) + d = d + 2 * d * k := by lia
  unfold roundHalfUp
  rw [hexpand, Nat.add_mul_div_left _ _ (Nat.mul_pos (by decide) hd), Nat.div_eq_of_lt (by omega), Nat.zero_add]

/-! ## Numbers from one up -/

/-- The exponent of two at which `num / 2 ^ j` has a significand of 53 bits. -/
def fullExponent (num j : Nat) : Int := (Nat.log2 num : Int) - j - 52

/-- That significand, rounded; it may overflow to `2 ^ 53`. -/
def fullSignificand (num j : Nat) : Nat :=
  roundHalfEven (num * 2 ^ (-fullExponent num j).toNat) (2 ^ j * 2 ^ (fullExponent num j).toNat)

section
variable {num j : Nat} (h : 2 ^ j ≤ num)
include h

theorem ne_zero_of_two_pow_le : num ≠ 0 := Nat.ne_of_gt (Nat.lt_of_lt_of_le (Nat.two_pow_pos j) h)

theorem le_log2 : j ≤ Nat.log2 num := (Nat.le_log2 (ne_zero_of_two_pow_le h)).mpr h

omit h in
/-- Also below one there are 53 bits. -/
theorem le_fullSignificand_of_ne_zero (h : num ≠ 0) (j : Nat) : 2 ^ 52 ≤ fullSignificand num j := by
  apply le_roundHalfEven (Nat.mul_pos (Nat.two_pow_pos _) (Nat.two_pow_pos _))
  have hsum : 52 + (j + (fullExponent num j).toNat) = Nat.log2 num + (-fullExponent num j).toNat := by
    unfold fullExponent
    omega
  rw [← Nat.pow_add, ← Nat.pow_add, hsum, Nat.pow_add]
  exact Nat.mul_le_mul_right _ (Nat.log2_self_le h)

theorem le_fullSignificand : 2 ^ 52 ≤ fullSignificand num j :=
  le_fullSignificand_of_ne_zero (ne_zero_of_two_pow_le h) j

omit h in
theorem fullSignificand_le (num j : Nat) : fullSignificand num j ≤ 2 ^ 53 := by
  have hlt : num * 2 ^ (-fullExponent num j).toNat / (2 ^ j * 2 ^ (fullExponent num j).toNat) < 2 ^ 53 := by
    apply shifted_div_lt
    unfold fullExponent
    omega
  exact Nat.le_trans (roundHalfEven_le _ _) hlt

omit h in
/-- Also below one, as long as the exponent is that of a double. -/
theorem roundBits_eq_of_le (h : num ≠ 0) (hexp : -1074 ≤ fullExponent num j) :
    roundBits num (2 ^ j) =
      min ((fullExponent num j + 1074).toNat * 2 ^ 52 + fullSignificand num j) (2047 * 2 ^ 52) := by
  have hexp : exponentOf num (2 ^ j) = fullExponent num j := by
    rw [exponentOf_two_pow h]
    exact Int.max_eq_left hexp
  simp only [roundBits, if_neg h, hexp, shifted]
  rfl

theorem roundBits_eq :
    roundBits num (2 ^ j) =
      min ((fullExponent num j + 1074).toNat * 2 ^ 52 + fullSignificand num j) (2047 * 2 ^ 52) := by
  have hlog := le_log2 h
  apply roundBits_eq_of_le (ne_zero_of_two_pow_le h)
  unfold fullExponent
  omega

end

/-- A finite rounded number has this significand at this exponent, or the next power of two where it overflows. -/
theorem magnitude_scale_round {num j : Nat} (h : 2 ^ j ≤ num) (hfinite : (round false num (2 ^ j)).isFinite) :
    ((round false num (2 ^ j)).magnitude = fullSignificand num j ∧
        (round false num (2 ^ j)).scale = fullExponent num j) ∨
      fullSignificand num j = 2 ^ 53 ∧ (round false num (2 ^ j)).magnitude = 2 ^ 52 ∧
        (round false num (2 ^ j)).scale = fullExponent num j + 1 := by
  have hlow := le_fullSignificand h
  have hhigh := fullSignificand_le num j
  have hexp : -52 ≤ fullExponent num j := by
    have := le_log2 h
    unfold fullExponent
    omega
  have hbits := roundBits_eq h
  simp only [isFinite, exponentField_round, bne_iff_ne, ne_eq] at hfinite
  simp only [magnitude, scale, exponentField_round, fraction_round]
  generalize fullSignificand num j = m at hlow hhigh hbits ⊢
  generalize fullExponent num j = e at hexp hbits ⊢
  generalize roundBits num (2 ^ j) = bits at hfinite hbits ⊢
  have hfits : bits = (e + 1074).toNat * 2 ^ 52 + m := by omega
  have hnormal : bits / 2 ^ 52 ≠ 0 := by omega
  rw [if_neg hnormal, if_neg hnormal]
  omega

/-- **A finite rounded number is its significand at its exponent.** -/
theorem absNum_round {num j : Nat} (h : 2 ^ j ≤ num) (hfinite : (round false num (2 ^ j)).isFinite) :
    (round false num (2 ^ j)).absNum * 2 ^ (-fullExponent num j).toNat =
      fullSignificand num j * 2 ^ (fullExponent num j).toNat * (round false num (2 ^ j)).absDen := by
  unfold absNum absDen
  rcases magnitude_scale_round h hfinite with ⟨hm, hs⟩ | ⟨hover, hm, hs⟩
  · rw [hm, hs]
  · rw [hm, hs, hover, ← Nat.pow_add, ← Nat.pow_add, ← Nat.pow_add, ← Nat.pow_add]
    congr 1
    omega

/-! ## One half -/

/-- A number from one half up is rounded to none below. -/
theorem half_le_roundBits {num j : Nat} (h : 2 ^ j ≤ 2 * num) : 1022 * 2 ^ 52 ≤ roundBits num (2 ^ j) := by
  have hpos := Nat.two_pow_pos j
  have hzero : num ≠ 0 := by omega
  have hlog : j < Nat.log2 num + 2 := by
    apply (Nat.pow_lt_pow_iff_right (by decide : 1 < 2)).mp
    calc 2 ^ j
      _ ≤ 2 * num := h
      _ < 2 * 2 ^ (Nat.log2 num + 1) := Nat.mul_lt_mul_of_pos_left Nat.lt_log2_self (by decide)
      _ = 2 ^ (Nat.log2 num + 2) := Nat.pow_succ'.symm
  have hexp : -53 ≤ fullExponent num j := by
    unfold fullExponent
    omega
  have hm := le_fullSignificand_of_ne_zero hzero j
  rw [roundBits_eq_of_le hzero (by omega)]
  omega

/-- A number below one half is rounded to one below, unless a quarter of a unit of its 53 bits is missing at most. -/
theorem roundBits_lt_half {num j : Nat} (h : 2 * num < 2 ^ j)
    (hgap : Nat.log2 num + 2 = j → 2 ^ j < 2 ^ 54 * (2 ^ j - 2 * num)) : roundBits num (2 ^ j) < 1022 * 2 ^ 52 := by
  by_cases hzero : num = 0
  · simp [roundBits, hzero]
  have hlog : Nat.log2 num + 1 < j := by
    apply (Nat.pow_lt_pow_iff_right (by decide : 1 < 2)).mp
    calc 2 ^ (Nat.log2 num + 1)
      _ = 2 * 2 ^ Nat.log2 num := Nat.pow_succ'
      _ ≤ 2 * num := Nat.mul_le_mul_left 2 (Nat.log2_self_le hzero)
      _ < 2 ^ j := h
  rcases Nat.lt_or_eq_of_le hlog with hbelow | hbinade
  · -- Below a quarter the exponent is too small for one half, also if the significand overflows.
    obtain ⟨e, he⟩ : ∃ e : Int, e = max ((Nat.log2 num : Int) - j - 52) (-1074) := ⟨_, rfl⟩
    have hquotient : num * 2 ^ (-e).toNat / (2 ^ j * 2 ^ e.toNat) < 2 ^ 53 := shifted_div_lt (by omega)
    have hround := roundHalfEven_le (num * 2 ^ (-e).toNat) (2 ^ j * 2 ^ e.toNat)
    simp only [roundBits, hzero, if_false, exponentOf_two_pow hzero, ← he, shifted]
    omega
  · have hexp : fullExponent num j = -54 := by
      unfold fullExponent
      omega
    have hround := two_mul_roundHalfEven_le (num * 2 ^ (-fullExponent num j).toNat)
      (2 ^ j * 2 ^ (fullExponent num j).toNat)
    change 2 * (fullSignificand num j * _) ≤ _ at hround
    have hm : fullSignificand num j < 2 ^ 53 := by
      refine Nat.lt_of_le_of_ne (fullSignificand_le num j) fun hover => ?_
      have hgap := hgap (by omega)
      rw [hover, hexp, show (- -54 : Int).toNat = 54 from rfl, show (-54 : Int).toNat = 0 from rfl] at hround
      omega
    rw [roundBits_eq_of_le hzero (by omega), hexp]
    omega

/-- A finite double is below one half exactly if its exponent says so. -/
theorem two_mul_absNum_lt_iff (x : Binary64) : 2 * x.absNum < x.absDen ↔ x.exponentField < 1022 := by
  have hscale : x.scale = if x.exponentField = 0 then -1074 else (x.exponentField : Int) - 1075 := rfl
  unfold absNum absDen
  constructor
  · intro h
    apply Nat.lt_of_not_le
    intro hlarge
    have hm : 2 ^ 52 ≤ x.magnitude := by
      unfold magnitude
      rw [if_neg (by omega)]
      exact Nat.le_add_right _ _
    have hnum : x.magnitude ≤ x.magnitude * 2 ^ x.scale.toNat := Nat.le_mul_of_pos_right _ (Nat.two_pow_pos _)
    have hden : 2 ^ (-x.scale).toNat ≤ 2 ^ 53 := Nat.pow_le_pow_right (by decide) (by omega)
    omega
  · intro hsmall
    have hm := x.magnitude_lt
    have hup : x.scale.toNat = 0 := by omega
    have hden : 2 ^ 54 ≤ 2 ^ (-x.scale).toNat := Nat.pow_le_pow_right (by decide) (by omega)
    rw [hup]
    omega

end Binary64

end Rpc
