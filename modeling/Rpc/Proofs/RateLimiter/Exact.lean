import Rpc.Proofs.RateLimiter.LowestTerms
import Rpc.Proofs.RateLimiter.Waiting

/-!
# Refills in words are exact

- `RateLimiter.tokens_refill_eq`: a refill gives the tokens of all whole intervals up to the capacity, also after a time
  that 64 bits cannot count;
- `BucketWords.run_refill`: what a refill does to words, and `BucketWords.bucket_refilled`: it is the refill of the
  bucket that they stand for;
- `BucketWords.run_setRate`: so it is with changes of the rate;
- `BucketWords.refill_exact`: the main statement.
-/

namespace Rpc

/-! ## Counting with natural numbers -/

namespace RateLimiter

variable {l : RateLimiter} {now : Instant}

/-- The saturations of sum and product are above the capacity. -/
theorem tokens_refill_intervals (h : l.Level) (now : Instant) :
    (l.refill now).tokens = min l.capacity (l.tokens + l.schedule.amount * l.intervals now) := by
  have htokens : l.tokens ≤ l.schedule.capacity := h.tokens_le
  have hcapacity := h.schedule.capacity_le
  rw [Nat.mul_comm]
  unfold refill capacity
  by_cases hzero : l.intervals now = 0
  · simp only [hzero, if_true, Nat.zero_mul, Nat.add_zero, Nat.min_eq_right htokens]
  · simp only [if_neg hzero]
    omega

/-- **No saturation shows in the tokens.** -/
theorem tokens_refill_eq (h : l.Level) (hamount : 1 ≤ l.schedule.amount) (now : Instant) :
    (l.refill now).tokens =
      min l.capacity (l.tokens + l.schedule.amount * ((now - l.lastRefill) / 1000 / l.schedule.interval)) := by
  have hcapacity : l.capacity ≤ maxUInt64 := h.schedule.capacity_le
  rw [tokens_refill_intervals h, intervals]
  rcases Nat.le_total ((now - l.lastRefill) / 1000 / l.schedule.interval) maxUInt64 with hn | hn
  · rw [Nat.min_eq_left hn]
  · -- So many intervals give more than any capacity, whether they are all counted or not.
    have hcounted : maxUInt64 ≤ l.schedule.amount * maxUInt64 := Nat.le_mul_of_pos_left _ hamount
    have hall := Nat.mul_le_mul_left l.schedule.amount hn
    rw [Nat.min_eq_right hn]
    omega

end RateLimiter

namespace BucketWords

variable {w : BucketWords} {now : Instant} {rate : Binary64}

/-! ## What is done to words -/

/-- The whole intervals since the last refill, in a word. -/
def intervals (w : BucketWords) (now : Instant) : UInt64 :=
  Word.clamp ((now - w.lastRefill) / Duration.microsecond / w.schedule.interval.toNat)

/-- The words after a refill. -/
def refilled (w : BucketWords) (now : Instant) : BucketWords :=
  let n := w.intervals now
  if n = 0 then w
  else
    { w with
      tokens := min (Word.add w.tokens (Word.mul n w.schedule.amount)) w.schedule.capacity
      lastRefill := min (w.lastRefill + (Word.mul n w.schedule.interval).toNat * Duration.microsecond) now }

/-- No division by zero ends a refill if time passes between refills. -/
theorem run_refill (h : w.schedule.interval ≠ 0) (now : Instant) : (refill now).run w = .ok ((), w.refilled now) := by
  have hdiv (a : Nat) : checkedDiv a w.schedule.interval.toNat = .ok (a / w.schedule.interval.toNat) :=
    if_neg (Nat.ne_of_gt (Word.toNat_pos h))
  simp only [refill, StateT.run_bind, StateT.run_get, pure_bind, StateT.run_monadLift, monadLift_self, hdiv]
  show StateT.run (if w.intervals now = 0 then _ else _) w = _
  unfold refilled
  by_cases hzero : w.intervals now = 0
  · simp only [if_pos hzero]
    rfl
  · simp only [if_neg hzero]
    rfl

theorem toNat_intervals (w : BucketWords) (now : Instant) : (w.intervals now).toNat = w.bucket.intervals now :=
  Word.toNat_clamp _

theorem intervals_eq_zero_iff (w : BucketWords) (now : Instant) :
    w.intervals now = 0 ↔ w.bucket.intervals now = 0 := by
  rw [← toNat_intervals, ← UInt64.toNat_inj]
  rfl

/-- **Words are refilled as the bucket that they stand for.** -/
theorem bucket_refilled (w : BucketWords) (now : Instant) : (w.refilled now).bucket = w.bucket.refill now := by
  unfold refilled RateLimiter.refill
  simp only [intervals_eq_zero_iff, ← toNat_intervals]
  split
  · rfl
  · simp only [bucket, Word.add, Word.mul, UInt64.toNat_min, Word.toNat_clamp]
    rfl

/-- Nothing but the tokens and the last refill is changed by a refill. -/
theorem refilled_keeps (w : BucketWords) (now : Instant) :
    (w.refilled now).rate = w.rate ∧ (w.refilled now).capacity = w.capacity ∧
      (w.refilled now).schedule = w.schedule := by
  unfold refilled
  dsimp only
  split <;> exact ⟨rfl, rfl, rfl⟩

/-- **The rate of words is changed as that of the bucket that they stand for,** and a rate that is refused leaves every
word as it is. -/
theorem run_setRate (w : BucketWords) (rate : Binary64) (now : Instant) :
    ∃ r w', (setRate rate now).run w = .ok (r, w') ∧ w.bucket.setRate rate now = r.map (fun _ => w'.bucket) ∧
      ∀ e, r = .error e → w' = w := by
  obtain ⟨r, hr, hschedule⟩ := ScheduleWords.exists_ofRate rate
  unfold RateLimiter.setRate
  rw [← hschedule]
  cases r with
  | error e =>
    refine ⟨.error e, w, ?_, rfl, fun _ _ => rfl⟩
    simp only [setRate, hr]
    rfl
  | ok s =>
    refine ⟨.ok (), ⟨0, rate, s.capacity, s, now⟩, ?_, rfl, by rintro _ ⟨⟩⟩
    simp only [setRate, hr]
    rfl

/-! ## The main statement -/

theorem valid_bucket (hscheduled : ScheduleWords.ofRate rate = .ok (.ok w.schedule))
    (htokens : w.tokens ≤ w.schedule.capacity) (hlast : w.lastRefill ≤ now) : w.bucket.Valid now :=
  ⟨⟨rate, ScheduleWords.ofRate_schedule hscheduled⟩, UInt64.le_iff_toNat_le.mp htokens, hlast⟩

/-- **A refill in words is exact.** Let a bucket in words have the schedule of a rate and no more tokens than its
capacity, and let it be refilled at the last refill or later. No division by zero ends the refill, and the words stand
for the refilled bucket after it. The tokens are those of all whole intervals, counted without an end and then cut to
the capacity; rate, capacity and schedule stay. Unless 2 ^ 64 microseconds have passed, the bucket counts from the end
of the last whole interval, which is less than an interval ago; it never counts from an instant that is still to come.
A change of the rate, of any words at any instant, comes to an end too, and leaves every word as it is if the rate is
refused. -/
theorem refill_exact (hscheduled : ScheduleWords.ofRate rate = .ok (.ok w.schedule))
    (htokens : w.tokens ≤ w.schedule.capacity) (hlast : w.lastRefill ≤ now) :
    let micros := (now - w.lastRefill) / Duration.microsecond
    let n := micros / w.schedule.interval.toNat
    let period := w.schedule.interval.toNat * Duration.microsecond
    (∃ w', (refill now).run w = .ok ((), w') ∧ w'.bucket = w.bucket.refill now ∧
      w'.tokens.toNat = min w.schedule.capacity.toNat (w.tokens.toNat + w.schedule.amount.toNat * n) ∧
      w'.rate = w.rate ∧ w'.capacity = w.capacity ∧ w'.schedule = w.schedule ∧ w'.tokens ≤ w'.schedule.capacity ∧
      w'.lastRefill ≤ now ∧
      (micros < 2 ^ 64 → w'.lastRefill = w.lastRefill + n * period ∧ now - w'.lastRefill < period)) ∧
    ∀ (v : BucketWords) (other : Binary64) (t : Instant), ∃ r v', (setRate other t).run v = .ok (r, v') ∧
      v.bucket.setRate other t = r.map (fun _ => v'.bucket) ∧ ∀ e, r = .error e → v' = v := by
  intro micros n period
  refine ⟨?_, run_setRate⟩
  obtain ⟨-, -, hinterval, -, hamount⟩ := Schedule.lowest_terms (ScheduleWords.ofRate_schedule hscheduled)
  have hzero : w.schedule.interval ≠ 0 := fun h => Nat.ne_of_gt hinterval (congrArg UInt64.toNat h)
  have hvalid := valid_bucket hscheduled htokens hlast
  have hbucket := w.bucket_refilled now
  have htokens' : (w.refilled now).tokens.toNat = min w.schedule.capacity.toNat (w.tokens.toNat + _) :=
    (congrArg RateLimiter.tokens hbucket).trans (RateLimiter.tokens_refill_eq hvalid.level hamount now)
  have hlast' : (w.refilled now).lastRefill = (w.bucket.refill now).lastRefill :=
    congrArg RateLimiter.lastRefill hbucket
  have hlast_le : (w.refilled now).lastRefill ≤ now := hlast' ▸ ((w.bucket.refill_keeps now).2.2 hlast).2
  obtain ⟨hrate, hcapacity, hschedule⟩ := w.refilled_keeps now
  refine ⟨w.refilled now, run_refill hzero now, hbucket, htokens', hrate, hcapacity, hschedule, ?_, hlast_le,
    fun hmicros => ?_⟩
  · rw [hschedule, UInt64.le_iff_toNat_le, htokens']
    exact Nat.min_le_left _ _
  · have hrecent : w.bucket.Recent now := (Nat.div_lt_iff_lt_mul (by decide)).mp hmicros
    have hmoved : (w.refilled now).lastRefill = w.lastRefill + n * period := by
      rw [hlast', RateLimiter.refill_eq hvalid.level hlast hrecent, ← RateLimiter.micros_div_interval]
      rfl
    have hnext := RateLimiter.lt_next_refill hvalid.level hlast
    rw [← RateLimiter.micros_div_interval] at hnext
    exact ⟨hmoved, Nat.sub_lt_left_of_lt_add hlast_le (hmoved ▸ hnext)⟩

/-- The greatest rate in words is a fifth of the greatest word every two hundred seconds. Two of them are added to half
a bucket in full, and the time that is left over is not lost. -/
theorem refill_exact_greatest :
    let s : ScheduleWords := ⟨200000000, 3689348814741910323, 18446744073709551615⟩
    ScheduleWords.ofRate ⟨0x43F0000000000000⟩ = .ok (.ok s) ∧
      ∃ w', (refill 400000000007).run ⟨9223372036854775808, ⟨0x43F0000000000000⟩, s.capacity, s, 0⟩ = .ok ((), w') ∧
        w'.tokens.toNat = 2 ^ 63 + 3689348814741910323 * 2 ∧ w'.lastRefill = 400000000000 := by
  have hlast : euclid (ScheduleWords.scaledRate ⟨0x43F0000000000000⟩) ScheduleWords.scaledSecond = 5 :=
    UInt64.toNat_inj.mp ((ScheduleWords.toNat_divisor _).trans (by decide))
  have hscheduled : ScheduleWords.ofRate ⟨0x43F0000000000000⟩ =
      .ok (.ok ⟨200000000, 3689348814741910323, 18446744073709551615⟩) := by
    unfold ScheduleWords.ofRate
    rw [hlast]
    rfl
  obtain ⟨⟨w', hrun, -, htokens, -, -, -, -, -, hmoved⟩, -⟩ :=
    refill_exact (w := ⟨9223372036854775808, ⟨0x43F0000000000000⟩, 18446744073709551615, _, 0⟩) hscheduled
      (by decide) (Nat.zero_le 400000000007)
  exact ⟨hscheduled, w', hrun, htokens, (hmoved (by decide)).1⟩

end BucketWords

end Rpc
