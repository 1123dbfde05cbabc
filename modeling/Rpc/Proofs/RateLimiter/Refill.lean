import Mathlib.Data.Nat.GCD.Basic
import Rpc.RateLimiter

/-!
# Refills

- `Schedule.ofRate_eq_ok`: the schedule of a rate that is accepted;
- `Schedule.Sound`: what every schedule of a rate has (`Schedule.sound_ofRate`);
- `RateLimiter.Level`: a bucket with such a schedule that holds no more than it can;
- `RateLimiter.refill_eq`: a refill adds the tokens of all whole intervals, up to the capacity, and goes on with the
  rest of the last one; nothing of it is lost to 64 bits as long as no more than 2 ^ 64 microseconds have passed;
- `RateLimiter.refill_refill`: two refills are one, at the later instant.
-/

namespace Rpc

namespace Schedule

/-- The nanoseconds between refills. -/
def period (s : Schedule) : Nat := s.interval * Duration.microsecond

/-- Time passes between refills, and capacities are counts of 64 bits. -/
structure Sound (s : Schedule) : Prop where
  interval_pos : 0 < s.interval
  capacity_le : s.capacity ≤ maxUInt64

theorem capacityOf_le (rate : Binary64) : capacityOf rate ≤ maxUInt64 :=
  Nat.max_le.mpr ⟨by decide, Nat.min_le_right _ _⟩

/-- Interval and amount of an accepted rate are the rate in lowest terms. -/
theorem ofRate_eq_ok {rate : Binary64} {s : Schedule} (h : ofRate rate = .ok s) :
    scaledRate rate ≠ 0 ∧
      s = ⟨scaledSecond / Nat.gcd (scaledRate rate) scaledSecond,
        scaledRate rate / Nat.gcd (scaledRate rate) scaledSecond, capacityOf rate⟩ := by
  unfold ofRate at h
  split at h
  · cases h
  · dsimp only at h
    split at h
    · cases h
    · rename_i hscaled
      cases h
      exact ⟨hscaled, rfl⟩

theorem sound_ofRate {rate : Binary64} {s : Schedule} (h : ofRate rate = .ok s) : s.Sound := by
  obtain ⟨-, rfl⟩ := ofRate_eq_ok h
  have hsecond : 0 < scaledSecond := by decide
  exact ⟨Nat.div_pos (Nat.gcd_le_right _ hsecond) (Nat.gcd_pos_of_pos_right _ hsecond), capacityOf_le rate⟩

theorem Sound.period_pos {s : Schedule} (h : s.Sound) : 0 < s.period :=
  Nat.mul_pos h.interval_pos (by decide)

end Schedule

namespace RateLimiter

variable {l : RateLimiter} {now s t t₀ : Instant}

/-- A bucket with a sound schedule that holds no more than it can. -/
structure Level (l : RateLimiter) : Prop where
  schedule : l.schedule.Sound
  tokens_le : l.tokens ≤ l.capacity

/-- The whole intervals since the last refill. -/
def elapsed (l : RateLimiter) (now : Instant) : Nat := (now - l.lastRefill) / l.schedule.period

/-- Less than 2 ^ 64 microseconds since the last refill. -/
def Recent (l : RateLimiter) (now : Instant) : Prop := now - l.lastRefill < 2 ^ 64 * Duration.microsecond

theorem recent_of_span (h : t₀ ≤ l.lastRefill) (hspan : now < t₀ + 2 ^ 64 * Duration.microsecond) : l.Recent now := by
  simp only [Recent, Duration.microsecond] at hspan ⊢
  lia

theorem elapsed_mul_le (l : RateLimiter) (now : Instant) :
    l.elapsed now * l.schedule.period ≤ now - l.lastRefill :=
  Nat.div_mul_le_self _ _

/-- Parts of a microsecond do not matter. -/
theorem micros_div_interval (l : RateLimiter) (now : Instant) :
    (now - l.lastRefill) / 1000 / l.schedule.interval = l.elapsed now := by
  rw [Nat.div_div_eq_div_mul, Nat.mul_comm]
  rfl

theorem intervals_eq (hr : l.Recent now) : l.intervals now = l.elapsed now := by
  have hdiv := l.micros_div_interval now
  have hmicros : (now - l.lastRefill) / 1000 < 2 ^ 64 := Nat.div_lt_of_lt_mul (by
    rw [Nat.mul_comm]
    exact hr)
  have hle : l.elapsed now ≤ maxUInt64 := by
    rw [← hdiv]
    exact Nat.le_trans (Nat.div_le_self _ _) (Nat.le_sub_one_of_lt hmicros)
  unfold intervals
  rw [hdiv, Nat.min_eq_left hle]

/-- The time of whole intervals is counted as it is. -/
theorem advance_eq (hl : l.lastRefill ≤ now) (hr : l.Recent now) :
    min (l.lastRefill + min (l.elapsed now * l.schedule.interval) maxUInt64 * 1000) now =
      l.lastRefill + l.elapsed now * l.schedule.period := by
  have hperiod : l.elapsed now * l.schedule.period = l.elapsed now * l.schedule.interval * 1000 :=
    (Nat.mul_assoc _ _ _).symm
  have hle := l.elapsed_mul_le now
  have hfits : l.elapsed now * l.schedule.interval ≤ maxUInt64 :=
    Nat.le_sub_one_of_lt (Nat.lt_of_mul_lt_mul_right (hperiod ▸ Nat.lt_of_le_of_lt hle hr))
  rw [Nat.min_eq_left hfits, ← hperiod]
  exact Nat.min_eq_left (Nat.add_le_of_le_sub' hl hle)

/-- **A refill adds the tokens of all whole intervals**, up to the capacity. -/
theorem refill_eq (h : l.Level) (hl : l.lastRefill ≤ now) (hr : l.Recent now) :
    l.refill now =
      { l with
        tokens := min (l.tokens + l.elapsed now * l.schedule.amount) l.capacity
        lastRefill := l.lastRefill + l.elapsed now * l.schedule.period } := by
  have htokens := h.tokens_le
  unfold refill
  rw [intervals_eq hr]
  by_cases hn : l.elapsed now = 0
  · simp only [hn, if_true, Nat.zero_mul, Nat.add_zero, Nat.min_eq_left htokens]
  · have hcap := h.schedule.capacity_le
    simp only [if_neg hn, advance_eq hl hr]
    -- Both saturations are above the capacity.
    have hsum : min (min (l.tokens + min (l.elapsed now * l.schedule.amount) maxUInt64) maxUInt64)
        l.schedule.capacity = min (l.tokens + l.elapsed now * l.schedule.amount) l.capacity := by
      unfold capacity
      omega
    rw [hsum]

theorem Level.refill (h : l.Level) (hl : l.lastRefill ≤ now) (hr : l.Recent now) : (l.refill now).Level := by
  rw [refill_eq h hl hr]
  exact ⟨h.schedule, Nat.min_le_right _ _⟩

/-- A bucket counts from no earlier instant after a refill, and from none that is still to come. -/
theorem refill_between (h : l.Level) (hl : l.lastRefill ≤ now) (hr : l.Recent now) :
    l.lastRefill ≤ (l.refill now).lastRefill ∧ (l.refill now).lastRefill ≤ now := by
  rw [refill_eq h hl hr]
  exact ⟨Nat.le_add_right _ _, Nat.add_le_of_le_sub' hl (l.elapsed_mul_le now)⟩

/-- What is left of the time since the last refill is less than an interval. -/
theorem lt_next_refill (h : l.Level) (hl : l.lastRefill ≤ now) :
    now < l.lastRefill + l.elapsed now * l.schedule.period + l.schedule.period := by
  have hlt : now - l.lastRefill < l.elapsed now * l.schedule.period + l.schedule.period :=
    Nat.lt_div_mul_add h.schedule.period_pos
  rw [Nat.add_assoc]
  exact (Nat.sub_lt_iff_lt_add' hl).mp hlt

/-- Whole intervals up to an instant and then up to a later one are the whole intervals up to the later one. -/
theorem elapsed_split (l : RateLimiter) (hst : s ≤ t) :
    l.elapsed s + (t - (l.lastRefill + l.elapsed s * l.schedule.period)) / l.schedule.period = l.elapsed t := by
  have hlater : s - l.lastRefill ≤ t - l.lastRefill := Nat.sub_le_sub_right hst _
  rw [← Nat.sub_sub, Nat.mul_comm (l.elapsed s), Nat.sub_mul_div, Nat.add_comm]
  exact Nat.sub_add_cancel (Nat.div_le_div_right hlater)

/-- **Two refills are one.** What is left of an interval at the first is not lost at the second, and a bucket that is
full at the first is full without it. -/
theorem refill_refill (h : l.Level) (hl : l.lastRefill ≤ s) (hst : s ≤ t) (hr : l.Recent t) :
    (l.refill s).refill t = l.refill t := by
  have hrs : l.Recent s := Nat.lt_of_le_of_lt (Nat.sub_le_sub_right hst _) hr
  have hfirst := refill_eq h hl hrs
  have hlast : (l.refill s).lastRefill = l.lastRefill + l.elapsed s * l.schedule.period := by rw [hfirst]
  obtain ⟨hfirst_le, hlast_le⟩ := refill_between h hl hrs
  have hle : (l.refill s).lastRefill ≤ t := Nat.le_trans hlast_le hst
  have hrecent : (l.refill s).Recent t := Nat.lt_of_le_of_lt (Nat.sub_le_sub_left hfirst_le t) hr
  have hsplit : l.elapsed s + (l.refill s).elapsed t = l.elapsed t := by
    rw [← elapsed_split l hst, ← hlast, hfirst]
    rfl
  rw [refill_eq (h.refill hl hrs) hle hrecent, refill_eq h (Nat.le_trans hl hst) hr, ← hsplit]
  generalize (l.refill s).elapsed t = rest
  rw [hfirst]
  simp only [Nat.add_mul, capacity, RateLimiter.mk.injEq, true_and]
  constructor
  · omega
  · exact Nat.add_assoc _ _ _

/-- A new bucket is full and has the schedule of its rate. -/
theorem new_eq_ok {rate : Binary64} (h : new rate now = .ok l) :
    Schedule.ofRate rate = .ok l.schedule ∧ l = ⟨rate, l.schedule, l.capacity, now⟩ := by
  unfold new at h
  cases hs : Schedule.ofRate rate with
  | error e => rw [hs] at h; cases h
  | ok s =>
    rw [hs] at h
    cases h
    exact ⟨rfl, rfl⟩

theorem level_new {rate : Binary64} (h : new rate now = .ok l) :
    l.Level ∧ l.tokens = l.capacity ∧ l.lastRefill = now := by
  obtain ⟨hs, hl⟩ := new_eq_ok h
  have htokens : l.tokens = l.capacity := by rw [hl]; rfl
  refine ⟨⟨Schedule.sound_ofRate hs, Nat.le_of_eq htokens⟩, htokens, ?_⟩
  rw [hl]

theorem level_setRate {rate : Binary64} {l' : RateLimiter} (h : l.setRate rate now = .ok l') :
    l'.Level ∧ l'.tokens = 0 ∧ l'.lastRefill = now := by
  unfold setRate at h
  cases hs : Schedule.ofRate rate with
  | error e => rw [hs] at h; cases h
  | ok s =>
    rw [hs] at h
    cases h
    exact ⟨⟨Schedule.sound_ofRate hs, Nat.zero_le _⟩, rfl, rfl⟩

end RateLimiter

end Rpc
