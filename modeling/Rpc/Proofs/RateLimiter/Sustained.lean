import Mathlib.Algebra.BigOperators.Group.Finset.Basic
import Mathlib.Algebra.Order.BigOperators.Group.Finset
import Rpc.Proofs.RateLimiter.Refill
import Rpc.Proofs.RateLimiter.Resolution
import Rpc.RateLimiter.Usage

/-!
# What a bucket gives in the long run

Somebody who empties a full bucket and then takes all there is once a second gets, in each second, the tokens of the
intervals that end in it, up to the capacity.

- `RateLimiter.visits_eq`: the bucket after so many seconds, and what was got;
- `Schedule.whole_le_second`: with a whole number of permits a second, each second brings them;
- `RateLimiter.visits_of_rate`: the main statement.

With other rates an interval can be longer than a second and bring more tokens than the bucket holds
(`RateLimiter.visits_of_one_and_half`).
-/

namespace Rpc

open Finset

namespace Schedule

variable {rate : Binary64} {s : Schedule}

/-- What the intervals that end in second number `i` after the bucket was emptied bring. -/
def inSecond (s : Schedule) (i : Nat) : Nat :=
  min (((i + 1) * Duration.second / s.period - i * Duration.second / s.period) * s.amount) s.capacity

theorem period_le (h : ofRate rate = .ok s) : s.period ≤ 1000 * Duration.second := by
  obtain ⟨-, rfl⟩ := ofRate_eq_ok h
  have hlongest : scaledSecond * Duration.microsecond = 1000 * Duration.second := rfl
  rw [← hlongest]
  exact Nat.mul_le_mul_right Duration.microsecond (Nat.div_le_self scaledSecond _)

/-- The intervals that fit into a second end in any second. -/
theorem le_inSecond (s : Schedule) (i : Nat) :
    min (Duration.second / s.period * s.amount) s.capacity ≤ s.inSecond i := by
  have hsplit : i * Duration.second / s.period + Duration.second / s.period ≤ (i + 1) * Duration.second / s.period := by
    rw [Nat.add_mul, Nat.one_mul]
    exact Nat.div_add_div_le_add_div
  have hfit : Duration.second / s.period ≤ (i + 1) * Duration.second / s.period - i * Duration.second / s.period :=
    Nat.le_sub_of_add_le' hsplit
  exact min_le_min_right s.capacity (Nat.mul_le_mul_right s.amount hfit)

/-- A second is a whole number of intervals if the permits of a second are. -/
theorem whole_intervals (h : ofRate rate = .ok s) (hwhole : 1000 ∣ scaledRate rate) :
    ∃ k, Duration.second = k * s.period ∧ k * s.amount = scaledRate rate / 1000 := by
  obtain ⟨-, rfl⟩ := ofRate_eq_ok h
  obtain ⟨k, hk⟩ : 1000 ∣ Nat.gcd (scaledRate rate) scaledSecond := Nat.dvd_gcd hwhole (by decide)
  have hscaled : scaledRate rate / (1000 * k) * (1000 * k) = scaledRate rate := by
    rw [← hk]
    exact Nat.div_mul_cancel (Nat.gcd_dvd_left _ _)
  have hsecond : scaledSecond / (1000 * k) * (1000 * k) = scaledSecond := by
    rw [← hk]
    exact Nat.div_mul_cancel (Nat.gcd_dvd_right _ _)
  unfold period
  dsimp only
  rw [hk]
  refine ⟨k, ?_, ?_⟩
  · calc Duration.second
      _ = scaledSecond / (1000 * k) * (1000 * k) := hsecond.symm
      _ = k * (scaledSecond / (1000 * k) * 1000) := by lia
  · symm
    apply Nat.div_eq_of_eq_mul_left (by decide)
    lia

/-- With a whole number of permits a second, the intervals that fit into a second bring them. -/
theorem whole_le_second (h : ofRate rate = .ok s) (hwhole : 1000 ∣ scaledRate rate) :
    whole rate ≤ min (Duration.second / s.period * s.amount) s.capacity := by
  obtain ⟨k, hsecond, hamount⟩ := whole_intervals h hwhole
  have hfit : Duration.second / s.period = k := Nat.div_eq_of_eq_mul_left (sound_ofRate h).period_pos hsecond
  have hscaled : whole rate ≤ scaledRate rate / 1000 :=
    (Nat.le_div_iff_mul_le (by decide)).mpr (whole_le_scaledRate hwhole)
  have hfits : scaledRate rate / 1000 ≤ maxUInt64 := Nat.le_trans (Nat.div_le_self _ _) (scaledRate_le rate)
  have hcapacity : s.capacity = capacityOf rate := by
    obtain ⟨-, rfl⟩ := ofRate_eq_ok h
    rfl
  rw [hfit, hamount, hcapacity]
  exact Nat.le_min.mpr ⟨hscaled, whole_le_capacityOf (Nat.le_trans hscaled hfits)⟩

end Schedule

namespace RateLimiter

variable {l l' : RateLimiter} {rate : Binary64} {now start : Instant} {got had : Nat}

/-! ## Visits -/

theorem takeAll_eq (h : l.Level) (hl : l.lastRefill ≤ now) (hr : l.Recent now) :
    l.takeAll now = ({ l.refill now with tokens := 0 }, (l.refill now).tokens) := by
  have htwice : (l.refill now).refill now = l.refill now := refill_refill h hl (Nat.le_refl now) hr
  simp only [takeAll, available, tryAcquire, htwice, Nat.le_refl, if_true, Nat.sub_self]

theorem takeMore_eq (h : l.takeAll now = (l', got)) : takeMore (l, had) now = (l', had + got) := by
  unfold takeMore
  rw [h]

/-- An empty bucket that was refilled for the last time at the end of the last interval before an instant. -/
def emptied (l : RateLimiter) (start : Instant) (n : Nat) : RateLimiter :=
  { l with tokens := 0, lastRefill := start + n * Duration.second / l.schedule.period * l.schedule.period }

section
variable (h : l.schedule.Sound) (hp : l.schedule.period ≤ 1000 * Duration.second) (l) (start : Instant) (n : Nat)

theorem lastRefill_emptied_le : (l.emptied start n).lastRefill ≤ secondsAfter start (n + 1) := by
  have hmul := Nat.div_mul_le_self (n * Duration.second) l.schedule.period
  unfold secondsAfter
  rw [Nat.add_mul]
  apply Nat.add_le_add_left
  exact Nat.le_trans hmul (Nat.le_add_right _ _)

include h hp in
/-- Less than an interval and a second have passed. -/
theorem recent_emptied : (l.emptied start n).Recent (secondsAfter start (n + 1)) := by
  have hlt : n * Duration.second < n * Duration.second / l.schedule.period * l.schedule.period + l.schedule.period :=
    Nat.lt_div_mul_add h.period_pos
  unfold Recent emptied secondsAfter
  dsimp only
  rw [Nat.add_sub_add_left, Nat.add_mul]
  simp only [Duration.second, Duration.microsecond] at hp hlt ⊢
  lia

theorem elapsed_emptied :
    (l.emptied start n).elapsed (secondsAfter start (n + 1)) =
      (n + 1) * Duration.second / l.schedule.period - n * Duration.second / l.schedule.period := by
  unfold elapsed emptied secondsAfter
  dsimp only
  rw [Nat.add_sub_add_left, Nat.mul_comm (n * Duration.second / l.schedule.period), Nat.sub_mul_div]

include h hp in
/-- **One more second.** -/
theorem takeAll_emptied :
    (l.emptied start n).takeAll (secondsAfter start (n + 1)) = (l.emptied start (n + 1), l.schedule.inSecond n) := by
  have hlevel : (l.emptied start n).Level := ⟨h, Nat.zero_le _⟩
  have hle := lastRefill_emptied_le l start n
  have hr := recent_emptied l h hp start n
  have hmono : n * Duration.second / l.schedule.period ≤ (n + 1) * Duration.second / l.schedule.period :=
    Nat.div_le_div_right (Nat.mul_le_mul_right _ (Nat.le_succ n))
  rw [takeAll_eq hlevel hle hr, refill_eq hlevel hle hr, elapsed_emptied]
  simp only [emptied, Schedule.inSecond, capacity, Nat.zero_add, Prod.mk.injEq, RateLimiter.mk.injEq, true_and,
    and_true]
  rw [Nat.add_assoc, ← Nat.add_mul, Nat.add_sub_of_le hmono]

end

theorem visits_succ (l : RateLimiter) (start : Instant) (n : Nat) :
    l.visits start (n + 1) = takeMore (l.visits start n) (secondsAfter start (n + 1)) := by
  unfold visits
  rw [List.range_succ, List.map_append, List.foldl_append, List.map_cons, List.map_nil, List.foldl_cons,
    List.foldl_nil]

/-- A new bucket is full, and empty after the first visit. -/
theorem takeAll_new (hnew : new rate start = .ok l) : (l.takeAll start).1 = l.emptied start 0 := by
  obtain ⟨hlevel, -, hlast⟩ := level_new hnew
  have hr : l.Recent start := by
    unfold Recent
    rw [hlast, Nat.sub_self]
    exact Nat.mul_pos (Nat.two_pow_pos 64) (by decide)
  rw [takeAll_eq hlevel (Nat.le_of_eq hlast) hr, refill_eq hlevel (Nat.le_of_eq hlast) hr]
  unfold emptied elapsed
  simp only [hlast, Nat.sub_self, Nat.zero_mul, Nat.zero_div, Nat.add_zero]

/-- **What a bucket gives**, second by second. -/
theorem visits_eq (hnew : new rate start = .ok l) (n : Nat) :
    l.visits start n = (l.emptied start n, ∑ i ∈ range n, l.schedule.inSecond i) := by
  obtain ⟨hs, -⟩ := new_eq_ok hnew
  induction n with
  | zero =>
    unfold visits
    rw [List.range_zero, List.map_nil, List.foldl_nil, sum_range_zero, takeAll_new hnew]
  | succ n ih =>
    have hvisit := takeAll_emptied l (Schedule.sound_ofRate hs) (Schedule.period_le hs) start n
    rw [visits_succ, ih, sum_range_succ]
    exact takeMore_eq hvisit

/-! ## The sum -/

/-- **What a bucket gives in the long run.** After so many seconds it gave the tokens of the intervals that ended in
each of them, up to the capacity each time; so in each second those of as many intervals as a second has room for, and
with a whole number of permits a second no less than that number. -/
theorem visits_of_rate (hnew : new rate start = .ok l) (n : Nat) :
    (l.visits start n).2 = ∑ i ∈ range n, l.schedule.inSecond i ∧
      n * min (Duration.second / l.schedule.period * l.schedule.amount) l.capacity ≤ (l.visits start n).2 ∧
      (1000 ∣ Schedule.scaledRate rate → n * Schedule.whole rate ≤ (l.visits start n).2) := by
  obtain ⟨hs, -⟩ := new_eq_ok hnew
  have heq : (l.visits start n).2 = ∑ i ∈ range n, l.schedule.inSecond i := by rw [visits_eq hnew n]
  have hroom : n * min (Duration.second / l.schedule.period * l.schedule.amount) l.capacity ≤ (l.visits start n).2 := by
    have hsum := card_nsmul_le_sum (range n) l.schedule.inSecond _ fun i _ => l.schedule.le_inSecond i
    rw [card_range] at hsum
    rw [heq]
    exact hsum
  refine ⟨heq, hroom, ?_⟩
  intro hwhole
  exact Nat.le_trans (Nat.mul_le_mul_left n (Schedule.whole_le_second hs hwhole)) hroom

/-- Three permits a second come all at once at the end of each second. -/
theorem visits_of_three :
    let l : RateLimiter := ⟨⟨0x4008000000000000⟩, ⟨1000000, 3, 3⟩, 3, 0⟩
    (l.visits 0 4).2 = ∑ i ∈ range 4, l.schedule.inSecond i ∧ 4 * 3 ≤ (l.visits 0 4).2 ∧ (l.visits 0 4).2 = 12 := by
  intro l
  obtain ⟨hsum, -, hwhole⟩ := @visits_of_rate l ⟨0x4008000000000000⟩ 0 rfl 4
  exact ⟨hsum, hwhole (by decide), by decide⟩

/-- One and a half permits a second: three of them come together, after two seconds. A second after the bucket was
emptied there is nothing, and of the three there is room for two. -/
theorem visits_of_one_and_half :
    let l : RateLimiter := ⟨⟨0x3FF8000000000000⟩, ⟨2000000, 3, 2⟩, 2, 0⟩
    new ⟨0x3FF8000000000000⟩ 0 = .ok l ∧ Schedule.whole ⟨0x3FF8000000000000⟩ = 1 ∧
      ¬ 1 * Schedule.whole ⟨0x3FF8000000000000⟩ ≤ (l.visits 0 1).2 ∧ (l.visits 0 2).2 = 2 :=
  ⟨rfl, by decide, by decide, by decide⟩

end RateLimiter

end Rpc
