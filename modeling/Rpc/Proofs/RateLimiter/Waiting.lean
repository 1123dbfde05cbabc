import Rpc.Proofs.RateLimiter.Refill
import Rpc.Proofs.RateLimiter.Resolution
import Rpc.RateLimiter.Usage

/-!
# Waiting for tokens

Somebody who waits looks at the bucket again and again, and takes what there is as soon as it is enough.

- `RateLimiter.Valid`: what every bucket in use has, however much time passes (`Valid.uses`);
- `RateLimiter.tokens_refill_refill`: looks in between change no balance, and `RateLimiter.tokens_refill_mono`: a
  balance does not go down;
- `RateLimiter.Looked`, `RateLimiter.Waited`: a bucket that was only looked at, and how waiting ends;
- `RateLimiter.taken_at_first_check`: the main statement.

An instant can be so late that 64 bits do not hold the microseconds since the last refill. A refill then does not go on
from the end of an interval (`RateLimiter.Recent`); but a bucket is full long before.
-/

namespace Rpc

namespace RateLimiter

variable {l l' : RateLimiter} {now s t start : Instant} {n step : Nat}

/-! ## Buckets in use -/

/-- A bucket in use at an instant: it has the schedule of a rate and no more tokens than it can hold, and was not
refilled later. -/
structure Valid (l : RateLimiter) (now : Instant) : Prop where
  scheduled : ∃ rate, Schedule.ofRate rate = .ok l.schedule
  tokens_le : l.tokens ≤ l.capacity
  last_le : l.lastRefill ≤ now

theorem Valid.level (h : l.Valid now) : l.Level :=
  have ⟨_, hs⟩ := h.scheduled
  ⟨Schedule.sound_ofRate hs, h.tokens_le⟩

theorem Valid.later (h : l.Valid now) (hle : now ≤ t) : l.Valid t :=
  { h with last_le := Nat.le_trans h.last_le hle }

/-- A refill leaves the rate and the schedule, and the bucket counts from no earlier instant after it. -/
theorem refill_keeps (l : RateLimiter) (t : Instant) :
    (l.refill t).rate = l.rate ∧ (l.refill t).schedule = l.schedule ∧
      (l.lastRefill ≤ t → l.lastRefill ≤ (l.refill t).lastRefill ∧ (l.refill t).lastRefill ≤ t) := by
  unfold refill
  dsimp only
  split
  · exact ⟨rfl, rfl, fun hle => ⟨Nat.le_refl _, hle⟩⟩
  · exact ⟨rfl, rfl, fun hle => ⟨Nat.le_min.mpr ⟨Nat.le_add_right _ _, hle⟩, Nat.min_le_right _ _⟩⟩

theorem capacity_refill (l : RateLimiter) (t : Instant) : (l.refill t).capacity = l.capacity :=
  congrArg Schedule.capacity (l.refill_keeps t).2.1

theorem Level.tokens_refill (h : l.Level) (t : Instant) :
    l.tokens ≤ (l.refill t).tokens ∧ (l.refill t).tokens ≤ l.capacity := by
  have hcapacity : l.schedule.capacity ≤ maxUInt64 := h.schedule.capacity_le
  have htokens : l.tokens ≤ l.schedule.capacity := h.tokens_le
  unfold RateLimiter.refill
  dsimp only
  split
  · exact ⟨Nat.le_refl _, htokens⟩
  · exact ⟨by dsimp only; omega, Nat.min_le_right _ _⟩

theorem Valid.refill (h : l.Valid now) (hle : now ≤ t) : (l.refill t).Valid t := by
  obtain ⟨-, hschedule, hlast⟩ := l.refill_keeps t
  refine ⟨hschedule ▸ h.scheduled, ?_, (hlast (Nat.le_trans h.last_le hle)).2⟩
  rw [capacity_refill]
  exact (h.level.tokens_refill t).2

/-- The bucket with so many tokens taken. -/
def without (l : RateLimiter) (n : Nat) : RateLimiter := { l with tokens := l.tokens - n }

theorem Valid.without (h : l.Valid now) (n : Nat) : (l.without n).Valid now :=
  { h with tokens_le := Nat.le_trans (Nat.sub_le _ _) h.tokens_le }

theorem tryAcquire_of_le (h : n ≤ (l.refill t).tokens) : l.tryAcquire n t = ((l.refill t).without n, true) := if_pos h

theorem tryAcquire_of_lt (h : (l.refill t).tokens < n) : l.tryAcquire n t = (l.refill t, false) :=
  if_neg (Nat.not_le_of_lt h)

theorem Valid.tryAcquire (h : l.Valid now) (hle : now ≤ t) (n : Nat) : (l.tryAcquire n t).1.Valid t := by
  rcases Nat.lt_or_ge (l.refill t).tokens n with hn | hn
  · rw [tryAcquire_of_lt hn]
    exact h.refill hle
  · rw [tryAcquire_of_le hn]
    exact (h.refill hle).without n

theorem Valid.use (h : l.Valid now) (hle : now ≤ t) (u : Use) : (l.use t u).1.Valid t := by
  cases u with
  | acquire n => exact h.tryAcquire hle n
  | available => exact h.refill hle
  | setRate rate =>
    simp only [RateLimiter.use, setRate]
    cases hs : Schedule.ofRate rate with
    | error e => exact h.later hle
    | ok s => exact ⟨⟨rate, hs⟩, Nat.zero_le _, Nat.le_refl t⟩

/-- **Every bucket in use is one,** whatever is done to it and however late. -/
theorem Valid.uses {uses : List (Instant × Use)} (h : l.Valid now)
    (horder : (now :: uses.map Prod.fst).Pairwise (· ≤ ·)) :
    (uses.foldl (fun l u => (l.use u.1 u.2).1) l).Valid ((uses.map Prod.fst).getLastD now) := by
  induction uses generalizing l now with
  | nil => exact h
  | cons u uses ih =>
    obtain ⟨hfirst, hrest⟩ := List.pairwise_cons.mp horder
    rw [List.map_cons, List.getLastD_cons, List.foldl_cons]
    exact ih (h.use (hfirst u.1 List.mem_cons_self) u.2) hrest

/-! ## Balances -/

/-- A thousand seconds fill a bucket. -/
theorem tokens_of_long (h : l.Valid now) (hlong : Schedule.scaledSecond ≤ (t - l.lastRefill) / 1000) :
    (l.refill t).tokens = l.capacity := by
  obtain ⟨rate, hs⟩ := h.scheduled
  obtain ⟨hscaled, hschedule⟩ := Schedule.ofRate_eq_ok hs
  have hcapacity_le : l.capacity ≤ maxUInt64 := h.level.schedule.capacity_le
  have hcapacity : l.capacity ≤ Schedule.scaledRate rate := by
    unfold capacity
    rw [hschedule]
    exact Schedule.capacityOf_le_scaledRate hscaled
  generalize hg : Nat.gcd (Schedule.scaledRate rate) Schedule.scaledSecond = g at hschedule
  have hinterval : l.schedule.interval = Schedule.scaledSecond / g := congrArg Schedule.interval hschedule
  have hamount : l.schedule.amount = Schedule.scaledRate rate / g := congrArg Schedule.amount hschedule
  have hdvd : g ∣ Schedule.scaledSecond := hg ▸ Nat.gcd_dvd_right _ _
  have hpos : 0 < g := Nat.pos_of_dvd_of_pos hdvd (by decide)
  -- As many intervals as the rate and a thousand seconds have in common have passed.
  have hintervals : g ≤ l.intervals t := by
    refine Nat.le_min.mpr ⟨?_, Nat.le_trans (Nat.le_of_dvd (by decide) hdvd) (by decide)⟩
    rw [Nat.le_div_iff_mul_le h.level.schedule.interval_pos, hinterval, Nat.mul_div_cancel' hdvd]
    exact hlong
  have hadded : l.capacity ≤ l.intervals t * l.schedule.amount :=
    calc l.capacity
      _ ≤ g * l.schedule.amount := by
        rw [hamount, Nat.mul_div_cancel' (hg ▸ Nat.gcd_dvd_left _ _)]
        exact hcapacity
      _ ≤ l.intervals t * l.schedule.amount := Nat.mul_le_mul_right _ hintervals
  have hsome : l.intervals t ≠ 0 := by omega
  unfold capacity at *
  simp only [RateLimiter.refill, if_neg hsome]
  omega

theorem Valid.tokens_of_not_recent (h : l.Valid now) (hr : ¬ l.Recent t) : (l.refill t).tokens = l.capacity := by
  apply tokens_of_long h
  rw [Recent, Nat.not_lt, ← Nat.le_div_iff_mul_le (by decide)] at hr
  exact Nat.le_trans (by decide) hr

/-- **A balance does not go down** by itself. -/
theorem tokens_refill_mono (h : l.Valid s) (hst : s ≤ t) : (l.refill s).tokens ≤ (l.refill t).tokens := by
  by_cases hr : l.Recent t
  · rw [← refill_refill h.level h.last_le hst hr]
    exact ((h.refill (Nat.le_refl s)).level.tokens_refill t).1
  · rw [h.tokens_of_not_recent hr]
    exact (h.level.tokens_refill s).2

/-- **Looking in between changes no balance.** -/
theorem tokens_refill_refill (h : l.Valid s) (hst : s ≤ t) :
    ((l.refill s).refill t).tokens = (l.refill t).tokens := by
  by_cases hr : l.Recent t
  · rw [refill_refill h.level h.last_le hst hr]
  have hs := h.refill (Nat.le_refl s)
  rw [h.tokens_of_not_recent hr, ← l.capacity_refill s]
  by_cases hlong : Schedule.scaledSecond ≤ (s - l.lastRefill) / 1000
  · -- It is full at the first look and stays so.
    apply Nat.le_antisymm (hs.level.tokens_refill t).2
    rw [capacity_refill, ← tokens_of_long h hlong]
    exact (hs.level.tokens_refill t).1
  · -- Nearly all of the time is after the first look.
    apply tokens_of_long hs
    have hlast := hs.last_le
    rw [Recent, Nat.not_lt] at hr
    simp only [Schedule.scaledSecond, Duration.microsecond] at hlong hr ⊢
    lia

/-! ## Looking and taking -/

/-- What a bucket `l` has become by looks up to an instant: no later look finds another balance, nor another bucket as
long as 64 bits hold the time. -/
structure Looked (l l' : RateLimiter) (now : Instant) : Prop where
  valid : l'.Valid now
  keeps : l'.rate = l.rate ∧ l'.schedule = l.schedule
  last_le : l.lastRefill ≤ l'.lastRefill
  tokens : ∀ t, now ≤ t → (l'.refill t).tokens = (l.refill t).tokens
  same : ∀ t, now ≤ t → l.Recent t → l'.refill t = l.refill t

theorem Valid.looked (h : l.Valid now) : Looked l l now :=
  ⟨h, ⟨rfl, rfl⟩, Nat.le_refl _, fun _ _ => rfl, fun _ _ _ => rfl⟩

theorem Looked.later (h : Looked l l' now) (hle : now ≤ s) : Looked l l' s :=
  { h with
    valid := h.valid.later hle
    tokens := fun t ht => h.tokens t (Nat.le_trans hle ht)
    same := fun t ht => h.same t (Nat.le_trans hle ht) }

theorem Looked.look (h : Looked l l' now) : Looked l (l'.refill now) now := by
  obtain ⟨hrate, hschedule, hlast⟩ := l'.refill_keeps now
  refine ⟨h.valid.refill (Nat.le_refl now), ⟨hrate.trans h.keeps.1, hschedule.trans h.keeps.2⟩,
    Nat.le_trans h.last_le (hlast h.valid.last_le).1, fun t ht => ?_, fun t ht hr => ?_⟩
  · rw [tokens_refill_refill h.valid ht, h.tokens t ht]
  · have hr' : l'.Recent t := Nat.lt_of_le_of_lt (Nat.sub_le_sub_left h.last_le t) hr
    rw [refill_refill h.valid.level h.valid.last_le ht hr', h.same t ht hr]

/-- How waiting for `n` tokens ends if a bucket `l` is looked at once at an instant and up to `attempts` times more, a
step apart: the first look that finds enough takes them, or none finds enough. -/
inductive Waited (l : RateLimiter) (n : Nat) (start : Instant) (step attempts : Nat) :
    RateLimiter × Bool × Instant → Prop
  | taken {i : Nat} {t : Instant} {l' : RateLimiter} : i ≤ attempts → t = start + i * step →
      (∀ j < i, (l.refill (start + j * step)).tokens < n) → n ≤ (l.refill t).tokens → Looked l l' t →
      Waited l n start step attempts ((l'.refill t).without n, true, t)
  | unmet {t : Instant} {l' : RateLimiter} : t = start + attempts * step →
      (∀ j ≤ attempts, (l.refill (start + j * step)).tokens < n) → Looked l l' t →
      Waited l n start step attempts (l'.refill t, false, t)

/-- A look that does not find enough comes before those that follow. -/
theorem Waited.after {attempts : Nat} {out : RateLimiter × Bool × Instant}
    (h : Waited l n (start + step) step attempts out) (hfirst : (l.refill start).tokens < n) :
    Waited l n start step (attempts + 1) out := by
  have hshift (i : Nat) : start + step + i * step = start + (i + 1) * step := by
    rw [Nat.add_mul, Nat.one_mul]
    lia
  have hearlier {k : Nat} (hk : ∀ j < k, (l.refill (start + step + j * step)).tokens < n) :
      ∀ j < k + 1, (l.refill (start + j * step)).tokens < n := by
    intro j hj
    cases j with
    | zero =>
      rw [Nat.zero_mul]
      exact hfirst
    | succ j =>
      rw [← hshift]
      exact hk j (Nat.lt_of_succ_lt_succ hj)
  cases h with
  | taken hi ht hless henough hl =>
    exact .taken (Nat.succ_le_succ hi) (ht.trans (hshift _)) (hearlier hless) henough hl
  | unmet ht hless hl =>
    have hall := hearlier (k := attempts + 1) fun j hj => hless j (Nat.le_of_lt_succ hj)
    exact .unmet (ht.trans (hshift _)) (fun j hj => hall j (Nat.lt_succ_of_le hj)) hl

/-- A look that finds enough is the last. -/
theorem waited_of_enough (h : Looked l l' now) (hn : n ≤ (l'.refill now).tokens) (step attempts : Nat) :
    Waited l n now step attempts ((l'.refill now).without n, true, now) := by
  have hnow : now = now + 0 * step := by rw [Nat.zero_mul, Nat.add_zero]
  rw [h.tokens now (Nat.le_refl now)] at hn
  exact .taken (Nat.zero_le attempts) hnow nofun hn h

/-- **One look, and those that follow.** -/
theorem waited_of_try (h : Looked l l' now) (n step attempts : Nat) :
    Waited l n now step attempts
      (match l'.tryAcquire n now with
        | (l, true) => (l, true, now)
        | (l, false) => retry n step attempts l now) := by
  induction attempts generalizing l' now with
  | zero =>
    rcases Nat.lt_or_ge (l'.refill now).tokens n with hn | hn
    · have hnow : now = now + 0 * step := by rw [Nat.zero_mul, Nat.add_zero]
      rw [tryAcquire_of_lt hn]
      rw [h.tokens now (Nat.le_refl now)] at hn
      refine .unmet hnow (fun j hj => ?_) h
      rw [Nat.le_zero.mp hj, ← hnow]
      exact hn
    · rw [tryAcquire_of_le hn]
      exact waited_of_enough h hn step 0
  | succ attempts ih =>
    rcases Nat.lt_or_ge (l'.refill now).tokens n with hn | hn
    · have hnext := ih (h.look.later (Nat.le_add_right now step))
      rw [tryAcquire_of_lt hn]
      rw [h.tokens now (Nat.le_refl now)] at hn
      exact hnext.after hn
    · rw [tryAcquire_of_le hn]
      exact waited_of_enough h hn step (attempts + 1)

theorem waited_acquireWithin (h : l.Valid start) (n timeout : Nat) :
    Waited l n start (timeout / acquireAttempts) acquireAttempts (l.acquireWithin n timeout start) :=
  waited_of_try h.looked n _ _

theorem Waited.valid {attempts : Nat} {out : RateLimiter × Bool × Instant} (h : Waited l n start step attempts out) :
    out.1.Valid out.2.2 := by
  cases h with
  | taken _ _ _ _ hl => exact hl.look.valid.without n
  | unmet _ _ hl => exact hl.look.valid

/-- **Waiting takes the tokens at the first check that finds enough.** Whoever waits looks eleven times, at the start
and after each tenth of the time. The wait succeeds exactly if the last look would find enough in a bucket that nobody
else uses, and it ends at the first look that does; just those tokens are taken then, and nothing is gone or gained by
the looks before. A wait that does not succeed takes nothing, and no wait goes on past its time. -/
theorem taken_at_first_check (h : l.Valid start) (n timeout : Nat) :
    let step := timeout / 10
    let balance (t : Instant) := (l.available t).2
    let out := l.acquireWithin n timeout start
    let finish := out.2.2
    (out.2.1 = true ↔ n ≤ balance (start + 10 * step)) ∧ finish ≤ start + timeout ∧ out.1.Valid finish ∧
      out.1.rate = l.rate ∧ out.1.schedule = l.schedule ∧
      (out.2.1 = true → ∃ i ≤ 10, finish = start + i * step ∧ (∀ j < i, balance (start + j * step) < n) ∧
        out.1.tokens + n = balance finish ∧
        (l.Recent finish → out.1 = (l.refill finish).without n)) ∧
      (out.2.1 = false → finish = start + 10 * step ∧ (∀ t, finish ≤ t → (out.1.available t).2 = balance t) ∧
        (l.Recent finish → out.1 = l.refill finish)) := by
  intro step balance out finish
  have hw : Waited l n start step 10 out := waited_acquireWithin h n timeout
  have hsteps : 10 * step ≤ timeout := Nat.mul_div_le timeout 10
  have hlast : start + 10 * step ≤ start + timeout := Nat.add_le_add_left hsteps start
  have hvalid : out.1.Valid finish := hw.valid
  clear_value out
  cases hw with
  | @taken i t l' hi ht hless henough hl =>
    obtain ⟨hrate, hschedule⟩ := hl.look.keeps
    have hbefore : t ≤ start + 10 * step := ht ▸ Nat.add_le_add_left (Nat.mul_le_mul_right step hi) start
    have hmono : balance t ≤ balance (start + 10 * step) :=
      tokens_refill_mono (h.later (ht ▸ Nat.le_add_right _ _)) hbefore
    have htokens : (l'.refill t).tokens = balance t := hl.tokens t (Nat.le_refl t)
    refine ⟨iff_of_true rfl (Nat.le_trans henough hmono), Nat.le_trans hbefore hlast, hvalid, hrate, hschedule,
      fun _ => ⟨i, hi, ht, hless, ?_, fun hr => congrArg (without · n) (hl.same t (Nat.le_refl t) hr)⟩, nofun⟩
    show (l'.refill t).tokens - n + n = balance t
    rw [htokens]
    exact Nat.sub_add_cancel henough
  | @unmet t l' ht hless hl =>
    obtain ⟨hrate, hschedule⟩ := hl.look.keeps
    have hshort : ¬ n ≤ balance (start + 10 * step) := Nat.not_le_of_lt (hless 10 (Nat.le_refl 10))
    refine ⟨iff_of_false nofun hshort, Nat.le_trans (Nat.le_of_eq ht) hlast, hvalid, hrate, hschedule, nofun,
      fun _ => ⟨ht, hl.look.tokens, hl.same t (Nat.le_refl t)⟩⟩

/-- A bucket of 1.5 tokens a second that was emptied half a second ago, and two seconds to wait: three tokens come at
once after one and a half of them and two stay, so the ninth look finds two; three are never there. -/
theorem taken_at_first_check_ninth :
    let l : RateLimiter := ⟨⟨0x3FF8000000000000⟩, ⟨2000000, 3, 2⟩, 0, 0⟩
    let two := l.acquireWithin 2 2000000000 500000000
    let three := l.acquireWithin 3 2000000000 500000000
    l.Valid 500000000 ∧ two.2 = (true, 500000000 + 8 * 200000000) ∧ two.1.tokens + 2 = 2 ∧
      three.2 = (false, 500000000 + 10 * 200000000) ∧ three.1 = l.refill 2500000000 := by
  intro l two three
  have h : l.Valid 500000000 := ⟨⟨⟨0x3FF8000000000000⟩, rfl⟩, by decide, by decide⟩
  obtain ⟨htwo, -, -, -, -, htaken, -⟩ := taken_at_first_check h 2 2000000000
  obtain ⟨hthree, -, -, -, -, -, hunmet⟩ := taken_at_first_check h 3 2000000000
  have hgot : two.2.1 = true := htwo.mpr (by decide)
  have hnot : three.2.1 = false := Bool.eq_false_iff.mpr fun hgot => absurd (hthree.mp hgot) (by decide)
  obtain ⟨i, -, -, -, htokens, -⟩ := htaken hgot
  obtain ⟨hfinish, -, hsame⟩ := hunmet hnot
  have hninth : two.2.2 = 500000000 + 8 * 200000000 := by decide
  have hbalance : (l.available two.2.2).2 = 2 := by decide
  have hlate : three.2.2 = 2500000000 := hfinish
  have hrecent : l.Recent three.2.2 := by
    unfold Recent
    decide
  have hlooked : three.1 = l.refill three.2.2 := hsame hrecent
  exact ⟨h, Prod.ext hgot hninth, htokens.trans hbalance, Prod.ext hnot hlate, hlate ▸ hlooked⟩

end RateLimiter

end Rpc
