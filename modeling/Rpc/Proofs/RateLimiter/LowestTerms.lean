import Mathlib.Data.Nat.GCD.Basic
import Rpc.Proofs.RateLimiter.Refill
import Rpc.Proofs.RateLimiter.Resolution
import Rpc.RateLimiter.Words

/-!
# Schedules are in lowest terms

- `toNat_euclid`: Euclid's loop ends with the greatest common divisor, and `exists_turns`: it ends, after two turns at
  most for each bit of the second word;
- `Schedule.lowest_terms`: amount and interval are the rate, and no smaller numbers are;
- `ScheduleWords.exists_ofRate`: the schedule of a rate in words is its schedule, and is made without a division by
  zero;
- `ScheduleWords.schedule_in_lowest_terms`: the main statement.
-/

namespace Rpc

/-! ## Words -/

namespace Word

theorem toNat_pos {a : UInt64} (h : a ≠ 0) : 0 < a.toNat :=
  Nat.pos_of_ne_zero fun ha => h (UInt64.toNat_inj.mp ha)

theorem toNat_ofNat_of_le {n : Nat} (h : n ≤ maxUInt64) : (UInt64.ofNat n).toNat = n :=
  UInt64.toNat_ofNat_of_lt' (Nat.lt_of_le_of_lt h (by decide))

theorem toNat_clamp (n : Nat) : (clamp n).toNat = min n maxUInt64 := toNat_ofNat_of_le (Nat.min_le_right _ _)

end Word

/-! ## Euclid's loop -/

theorem euclid_zero (a : UInt64) : euclid a 0 = a := by
  rw [euclid, if_pos rfl]

theorem euclid_of_ne_zero {a b : UInt64} (h : b ≠ 0) : euclid a b = euclid b (a % b) := by
  rw [euclid, if_neg h]

/-- **Euclid's loop ends with the greatest common divisor.** -/
theorem toNat_euclid (a b : UInt64) : (euclid a b).toNat = Nat.gcd a.toNat b.toNat := by
  induction a, b using euclid.induct with
  | case1 a => rw [euclid_zero, UInt64.toNat_zero, Nat.gcd_zero_right]
  | case2 a b hb ih =>
    rw [euclid_of_ne_zero hb, ih, UInt64.toNat_mod, Nat.gcd_comm, ← Nat.gcd_rec, Nat.gcd_comm]

/-- What is left by a number that is not greater is less than half. -/
theorem two_mul_mod_lt {b c : Nat} (hc : 0 < c) (hle : c ≤ b) : 2 * (b % c) < b := by
  have hmod := Nat.mod_lt b hc
  have hsum := Nat.div_add_mod b c
  have hquotient : c * 1 ≤ c * (b / c) := Nat.mul_le_mul_left c (Nat.div_pos hle hc)
  omega

/-- **Euclid's loop ends.** Two turns make the second word less than half of what it was. -/
theorem exists_turns {m : Nat} {a b : UInt64} (h : b.toNat < 2 ^ m) :
    ∃ turns ≤ 2 * m, Turns a b turns (euclid a b) := by
  induction m generalizing a b with
  | zero =>
    obtain rfl : b = 0 := UInt64.toNat_inj.mp (Nat.lt_one_iff.mp h)
    rw [euclid_zero]
    exact ⟨0, Nat.le_refl 0, .done⟩
  | succ m ih =>
    by_cases hb : b = 0
    · rw [hb, euclid_zero]
      exact ⟨0, Nat.zero_le _, .done⟩
    rw [euclid_of_ne_zero hb]
    by_cases hc : a % b = 0
    · rw [hc, euclid_zero]
      exact ⟨1, by omega, .turn hb (hc ▸ .done)⟩
    rw [euclid_of_ne_zero hc]
    have hlt : (a % b).toNat < b.toNat := by
      rw [UInt64.toNat_mod]
      exact Nat.mod_lt _ (Word.toNat_pos hb)
    have hhalf := two_mul_mod_lt (Word.toNat_pos hc) (Nat.le_of_lt hlt)
    have hrest : (b % (a % b)).toNat < 2 ^ m := by
      rw [UInt64.toNat_mod b]
      omega
    obtain ⟨turns, hle, hturns⟩ := ih (a := a % b) hrest
    exact ⟨turns + 2, by omega, .turn hb (.turn hc hturns)⟩

/-! ## Schedules -/

namespace Schedule

variable {rate : Binary64} {s : Schedule}

/-- The divisor of interval and amount of a rate. -/
def divisor (rate : Binary64) : Nat := Nat.gcd (scaledRate rate) scaledSecond

theorem divisor_pos (rate : Binary64) : 0 < divisor rate := Nat.gcd_pos_of_pos_right _ (by decide)

/-- A schedule gives the rate that it was made of, and no smaller numbers do. -/
theorem lowest_terms (h : ofRate rate = .ok s) :
    s.amount * scaledSecond = scaledRate rate * s.interval ∧ Nat.Coprime s.amount s.interval ∧
      1 ≤ s.interval ∧ s.interval ≤ scaledSecond ∧ 1 ≤ s.amount := by
  obtain ⟨hscaled, rfl⟩ := ofRate_eq_ok h
  have hpos := divisor_pos rate
  have hscaled_dvd : divisor rate ∣ scaledRate rate := Nat.gcd_dvd_left _ _
  have hsecond_dvd : divisor rate ∣ scaledSecond := Nat.gcd_dvd_right _ _
  refine ⟨?_, Nat.coprime_div_gcd_div_gcd hpos, ?_, Nat.div_le_self _ _, ?_⟩
  · show scaledRate rate / divisor rate * scaledSecond = scaledRate rate * (scaledSecond / divisor rate)
    rw [Nat.div_mul_right_comm hscaled_dvd, Nat.mul_div_assoc _ hsecond_dvd]
  · exact Nat.div_pos (Nat.le_of_dvd (by decide) hsecond_dvd) hpos
  · exact Nat.div_pos (Nat.le_of_dvd (Nat.pos_of_ne_zero hscaled) hscaled_dvd) hpos

end Schedule

namespace ScheduleWords

variable {rate : Binary64} {s : ScheduleWords}

theorem toNat_scaledRate (rate : Binary64) : (scaledRate rate).toNat = Schedule.scaledRate rate :=
  Word.toNat_ofNat_of_le (Schedule.scaledRate_le rate)

theorem scaledRate_eq_zero_iff (rate : Binary64) : scaledRate rate = 0 ↔ Schedule.scaledRate rate = 0 := by
  rw [← toNat_scaledRate, ← UInt64.toNat_inj]
  rfl

theorem toNat_divisor (rate : Binary64) : (euclid (scaledRate rate) scaledSecond).toNat = Schedule.divisor rate := by
  rw [toNat_euclid, toNat_scaledRate]
  rfl

theorem checkedDiv_divisor (a : UInt64) (rate : Binary64) :
    checkedDiv a (euclid (scaledRate rate) scaledSecond) = .ok (a / euclid (scaledRate rate) scaledSecond) := by
  refine if_neg fun h => Nat.ne_of_gt (Schedule.divisor_pos rate) ?_
  rw [← toNat_divisor, h]
  rfl

/-- **The schedule of a rate in words is its schedule,** and is made without a division by zero. -/
theorem exists_ofRate (rate : Binary64) : ∃ r, ofRate rate = .ok r ∧ r.map schedule = Schedule.ofRate rate := by
  unfold ofRate Schedule.ofRate
  by_cases hbad : (!rate.isFinite || !rate.isPositive) = true
  · exact ⟨.error ⟨rate⟩, if_pos hbad, (if_pos hbad).symm⟩
  simp only [if_neg hbad, checkedDiv_divisor, scaledRate_eq_zero_iff]
  by_cases hzero : Schedule.scaledRate rate = 0
  · exact ⟨.error ⟨rate⟩, if_pos hzero, (if_pos hzero).symm⟩
  refine ⟨_, if_neg hzero, ?_⟩
  rw [if_neg hzero]
  simp only [Except.map, schedule, UInt64.toNat_div, toNat_divisor, toNat_scaledRate,
    Word.toNat_ofNat_of_le (Schedule.capacityOf_le rate)]
  rfl

theorem ofRate_schedule (h : ofRate rate = .ok (.ok s)) : Schedule.ofRate rate = .ok s.schedule := by
  obtain ⟨r, hr, hschedule⟩ := exists_ofRate rate
  obtain rfl : r = .ok s := Except.ok.inj (hr.symm.trans h)
  exact hschedule.symm

/-- **A schedule is exact and in lowest terms.** Let a rate be accepted that is resolved to `scaled` thousandths of a
permit a second, in a word. Euclid's loop from `scaled` and a thousand million on ends, after sixty turns at the most,
with the greatest common divisor of the two. The schedule gives `amount` tokens every `interval` microseconds, which is
the resolved rate exactly, and the two have no common divisor; the interval is at most a thousand seconds. -/
theorem schedule_in_lowest_terms (h : ofRate rate = .ok (.ok s)) :
    let scaled := scaledRate rate
    let last := euclid scaled scaledSecond
    scaled.toNat = Schedule.scaledRate rate ∧
    (∃ turns ≤ 60, Turns scaled scaledSecond turns last) ∧ last.toNat = Nat.gcd scaled.toNat (10 ^ 9) ∧
    s.amount.toNat * 10 ^ 9 = scaled.toNat * s.interval.toNat ∧ Nat.Coprime s.amount.toNat s.interval.toNat ∧
    1 ≤ s.interval.toNat ∧ s.interval.toNat ≤ 10 ^ 9 ∧ 1 ≤ s.amount.toNat ∧
    Schedule.ofRate rate = .ok s.schedule := by
  intro scaled last
  have hschedule := ofRate_schedule h
  obtain ⟨hexact, hcoprime, hinterval, hinterval_le, hamount⟩ := Schedule.lowest_terms hschedule
  rw [← toNat_scaledRate] at hexact
  have hturns : ∃ turns ≤ 2 * 30, Turns scaled scaledSecond turns last := exists_turns (by decide)
  exact ⟨toNat_scaledRate rate, hturns, toNat_euclid scaled scaledSecond, hexact, hcoprime, hinterval, hinterval_le,
    hamount, hschedule⟩

/-- Seven and a half permits a second are three tokens every 400 milliseconds. -/
theorem schedule_in_lowest_terms_seven_and_half :
    let s : ScheduleWords := ⟨400000, 3, 8⟩
    ofRate ⟨0x401E000000000000⟩ = .ok (.ok s) ∧ s.amount.toNat * 10 ^ 9 = 7500 * s.interval.toNat ∧
      Nat.Coprime s.amount.toNat s.interval.toNat := by
  have hlast : euclid (scaledRate ⟨0x401E000000000000⟩) scaledSecond = 2500 :=
    UInt64.toNat_inj.mp (toNat_divisor _)
  have h : ofRate ⟨0x401E000000000000⟩ = .ok (.ok ⟨400000, 3, 8⟩) := by
    unfold ofRate
    rw [hlast]
    rfl
  obtain ⟨-, -, -, hexact, hcoprime, -⟩ := schedule_in_lowest_terms h
  exact ⟨h, hexact, hcoprime⟩

end ScheduleWords

end Rpc
