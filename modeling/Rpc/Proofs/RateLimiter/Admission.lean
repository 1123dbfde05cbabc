import Mathlib.Data.Nat.Basic
import Rpc.RateLimiter.Usage
import Rpc.Proofs.RateLimiter.Refill

/-!
# What a bucket admits

- `Usage.Covered`: the tokens granted since an instant, and those still there, are paid for by what there was at first
  and the intervals that passed;
- `Usage.Kept.run`: this holds from the last change of the rate on, and from every instant after it;
- `Usage.grants_bounded`: how much a bucket grants in a stretch of time.

A refill may pay for intervals that began before the stretch, so that a stretch can get the tokens of one interval more
than fit into it. From the last change of the rate on there is none of that: intervals are counted from there.
-/

namespace Rpc

namespace Usage

variable {w : Usage} {now s t last t₀ : Instant} {n base slack : Nat}

/-! ## Grants -/

/-- The record after a refill. -/
def refilled (w : Usage) (now : Instant) : Usage := { w with bucket := w.bucket.refill now }

/-- The record after a grant of tokens that are there. -/
def grant (w : Usage) (now : Instant) (n : Nat) : Usage :=
  { w with bucket := { w.bucket with tokens := w.bucket.tokens - n }, grants := w.grants ++ [(now, n)] }

theorem next_acquire (w : Usage) (now : Instant) (n : Nat) :
    w.next now (.acquire n) =
      if n ≤ (w.refilled now).bucket.tokens then (w.refilled now).grant now n else w.refilled now := by
  unfold next RateLimiter.tryAcquire refilled grant
  dsimp only
  split <;> rfl

theorem next_accepted {rate : Binary64} {l : RateLimiter} (h : w.bucket.setRate rate now = .ok l) :
    w.next now (.setRate rate) = ⟨l, now, 0, []⟩ := by
  simp only [next, h]

theorem next_refused {rate : Binary64} {e : InvalidRate} (h : w.bucket.setRate rate now = .error e) :
    w.next now (.setRate rate) = w := by
  simp only [next, h]

theorem granted_grant (w : Usage) (now : Instant) (n : Nat) (s t : Instant) :
    (w.grant now n).granted s t = w.granted s t + if s ≤ now ∧ now ≤ t then n else 0 := by
  have hsum (gs : List (Instant × Nat)) (k : Nat) :
      gs.foldr (fun g n => g.2 + n) k = gs.foldr (fun g n => g.2 + n) 0 + k := by
    induction gs with
    | nil => exact (Nat.zero_add k).symm
    | cons g gs ih => simp only [List.foldr_cons, ih, Nat.add_assoc]
  unfold granted grant
  rw [List.filter_append, List.foldr_append, hsum]
  by_cases h : s ≤ now ∧ now ≤ t <;> simp [h]

theorem granted_grant_le (w : Usage) (now : Instant) (n : Nat) (s t : Instant) :
    (w.grant now n).granted s t ≤ w.granted s t + n := by
  rw [granted_grant]
  split <;> omega

/-! ## What pays for the grants -/

/-- The tokens granted since `s` are paid for by `base` and the intervals since then, up to `slack` of which began
before; and so are the tokens that are there. -/
structure Covered (w : Usage) (s : Instant) (base slack : Nat) : Prop where
  reserve : ∃ j, s + j * w.bucket.schedule.period ≤ w.bucket.lastRefill + slack * w.bucket.schedule.period ∧
    ∀ t, w.granted s t + w.bucket.tokens ≤ base + w.bucket.schedule.amount * j
  within : ∀ t, s ≤ t →
    w.granted s t ≤ base + w.bucket.schedule.amount * ((t - s) / w.bucket.schedule.period + slack)

theorem intervals_le {p j : Nat} (hp : 0 < p) (h : s + j * p ≤ t + slack * p) : j ≤ (t - s) / p + slack := by
  rw [← Nat.add_mul_div_right _ _ hp, Nat.le_div_iff_mul_le hp]
  lia

theorem Covered.refilled (hc : w.Covered s base slack) (h : w.bucket.Level) (hl : w.bucket.lastRefill ≤ now)
    (hr : w.bucket.Recent now) : (w.refilled now).Covered s base slack := by
  obtain ⟨j, hj, hreserve⟩ := hc.reserve
  unfold Usage.refilled
  rw [RateLimiter.refill_eq h hl hr]
  refine ⟨⟨j + w.bucket.elapsed now, ?_, fun t => ?_⟩, hc.within⟩
  · dsimp only
    rw [Nat.add_mul]
    lia
  · calc w.granted s t + min (w.bucket.tokens + w.bucket.elapsed now * w.bucket.schedule.amount) w.bucket.capacity
        ≤ w.granted s t + (w.bucket.tokens + w.bucket.elapsed now * w.bucket.schedule.amount) :=
          Nat.add_le_add_left (Nat.min_le_left _ _) _
      _ ≤ base + w.bucket.schedule.amount * j + w.bucket.elapsed now * w.bucket.schedule.amount := by
          rw [← Nat.add_assoc]
          exact Nat.add_le_add_right (hreserve t) _
      _ = base + w.bucket.schedule.amount * (j + w.bucket.elapsed now) := by
          rw [Nat.mul_add, Nat.mul_comm (w.bucket.elapsed now), Nat.add_assoc]

theorem Covered.grant (hc : w.Covered s base slack) (h : w.bucket.Level) (hl : w.bucket.lastRefill ≤ now)
    (hn : n ≤ w.bucket.tokens) : (w.grant now n).Covered s base slack := by
  obtain ⟨j, hj, hreserve⟩ := hc.reserve
  have hreserve' (t : Instant) :
      (w.grant now n).granted s t + (w.bucket.tokens - n) ≤ base + w.bucket.schedule.amount * j := by
    have := w.granted_grant_le now n s t
    have := hreserve t
    omega
  refine ⟨⟨j, hj, hreserve'⟩, fun t hst => ?_⟩
  rcases Nat.lt_or_ge t now with hlt | hge
  · -- Nothing is new up to `t`.
    rw [granted_grant, if_neg fun hin => Nat.not_le_of_lt hlt hin.2]
    exact hc.within t hst
  · have hcount : j ≤ (t - s) / w.bucket.schedule.period + slack :=
      intervals_le h.schedule.period_pos (Nat.le_trans hj (Nat.add_le_add_right (Nat.le_trans hl hge) _))
    calc (w.grant now n).granted s t
        ≤ base + w.bucket.schedule.amount * j := Nat.le_trans (Nat.le_add_right _ _) (hreserve' t)
      _ ≤ base + w.bucket.schedule.amount * ((t - s) / w.bucket.schedule.period + slack) :=
          Nat.add_le_add_left (Nat.mul_le_mul_left _ hcount) _

/-! ## One use after the other -/

/-- What is kept from use to use; `last` is when the last one was. -/
structure Kept (t₀ : Instant) (w : Usage) (last : Instant) : Prop where
  level : w.bucket.Level
  since_first : t₀ ≤ w.start
  start_le : w.start ≤ w.bucket.lastRefill
  refill_le : w.bucket.lastRefill ≤ last
  from_start : w.Covered w.start w.burst 0
  anywhere : ∀ s, w.Covered s w.bucket.capacity 1 ∨ ∀ t, w.granted s t = 0

theorem granted_of_no_grants (h : w.grants = []) (s t : Instant) : w.granted s t = 0 := by
  unfold granted
  rw [h]
  rfl

/-- Right after the rate was set. -/
theorem kept_of_no_grants (hg : w.grants = []) (h : w.bucket.Level) (hs : w.bucket.lastRefill = w.start)
    (ht : w.bucket.tokens = w.burst) (h₀ : t₀ ≤ w.start) : Kept t₀ w w.start where
  level := h
  since_first := h₀
  start_le := Nat.le_of_eq hs.symm
  refill_le := Nat.le_of_eq hs
  from_start :=
    { reserve := ⟨0, by lia, fun t => by rw [granted_of_no_grants hg]; lia⟩
      within := fun t _ => by rw [granted_of_no_grants hg]; exact Nat.zero_le _ }
  anywhere := fun s => .inr (granted_of_no_grants hg s)

namespace Kept

theorem later (h : Kept t₀ w last) (hle : last ≤ now) : Kept t₀ w now :=
  { h with refill_le := Nat.le_trans h.refill_le hle }

theorem recent (h : Kept t₀ w now) (hspan : now < t₀ + 2 ^ 64 * Duration.microsecond) : w.bucket.Recent now :=
  RateLimiter.recent_of_span (Nat.le_trans h.since_first h.start_le) hspan

theorem refilled (h : Kept t₀ w now) (hr : w.bucket.Recent now) :
    Kept t₀ (w.refilled now) now ∧
      now < (w.refilled now).bucket.lastRefill + (w.refilled now).bucket.schedule.period := by
  have heq := RateLimiter.refill_eq h.level h.refill_le hr
  have hlevel := h.level.refill h.refill_le hr
  obtain ⟨hfirst_le, hle⟩ := RateLimiter.refill_between h.level h.refill_le hr
  refine ⟨?_, ?_⟩
  · refine ⟨hlevel, h.since_first, Nat.le_trans h.start_le hfirst_le, hle,
      h.from_start.refilled h.level h.refill_le hr, fun s => ?_⟩
    · have hcap : (w.refilled now).bucket.capacity = w.bucket.capacity := by
        show (w.bucket.refill now).capacity = _
        rw [heq]
        rfl
      rw [hcap]
      exact (h.anywhere s).imp (·.refilled h.level h.refill_le hr) id
  · show now < (w.bucket.refill now).lastRefill + (w.bucket.refill now).schedule.period
    rw [heq]
    exact RateLimiter.lt_next_refill h.level h.refill_le

/-- A grant right after a refill. For an instant since which nothing was granted, the tokens that are there are all that
comes from before; the interval that now passes is the one that began before. -/
theorem grant (h : Kept t₀ w now) (hnext : now < w.bucket.lastRefill + w.bucket.schedule.period)
    (hn : n ≤ w.bucket.tokens) : Kept t₀ (w.grant now n) now where
  level := ⟨h.level.schedule, Nat.le_trans (Nat.sub_le _ _) h.level.tokens_le⟩
  since_first := h.since_first
  start_le := h.start_le
  refill_le := h.refill_le
  from_start := h.from_start.grant h.level h.refill_le hn
  anywhere s := by
    rcases h.anywhere s with hc | hnone
    · exact .inl (hc.grant h.level h.refill_le hn)
    · rcases Nat.lt_or_ge now s with hlt | hge
      · refine .inr fun t => ?_
        rw [granted_grant, if_neg fun hin => Nat.not_le_of_lt hlt hin.1, hnone t]
      · have hall : w.Covered s w.bucket.capacity 1 :=
          { reserve := ⟨0, by lia, fun t => by rw [hnone t]; have := h.level.tokens_le; lia⟩
            within := fun t _ => by rw [hnone t]; exact Nat.zero_le _ }
        exact .inl (hall.grant h.level h.refill_le hn)

theorem next (h : Kept t₀ w last) (hle : last ≤ now) (hspan : now < t₀ + 2 ^ 64 * Duration.microsecond) (u : Use) :
    Kept t₀ (w.next now u) now := by
  have hnow := h.later hle
  have ⟨hfilled, hnext⟩ := hnow.refilled (hnow.recent hspan)
  cases u with
  | acquire n =>
    rw [next_acquire]
    split
    next hn => exact hfilled.grant hnext hn
    next => exact hfilled
  | available => exact hfilled
  | setRate rate =>
    cases hset : w.bucket.setRate rate now with
    | error e =>
      rw [next_refused hset]
      exact hnow
    | ok l =>
      rw [next_accepted hset]
      obtain ⟨hlevel, htokens, hrefill⟩ := RateLimiter.level_setRate hset
      have hfirst : t₀ ≤ now :=
        Nat.le_trans hnow.since_first (Nat.le_trans hnow.start_le hnow.refill_le)
      exact kept_of_no_grants (w := ⟨l, now, 0, []⟩) rfl hlevel hrefill htokens hfirst

theorem run {uses : List (Instant × Use)} (h : Kept t₀ w last)
    (horder : (last :: uses.map Prod.fst).Pairwise (· ≤ ·))
    (hspan : ∀ u ∈ uses, u.1 < t₀ + 2 ^ 64 * Duration.microsecond) : ∃ last, Kept t₀ (w.run uses) last := by
  induction uses generalizing w last with
  | nil => exact ⟨last, h⟩
  | cons u uses ih =>
    obtain ⟨hfirst, hrest⟩ := List.pairwise_cons.mp horder
    have hstep := h.next (hfirst u.1 List.mem_cons_self) (hspan u List.mem_cons_self) u.2
    exact ih hstep hrest fun v hv => hspan v (List.mem_cons_of_mem _ hv)

end Kept

theorem kept_begin {rate : Binary64} {l : RateLimiter} (h : RateLimiter.new rate t₀ = .ok l) :
    Kept t₀ (begin l t₀) t₀ :=
  have ⟨hlevel, htokens, hrefill⟩ := RateLimiter.level_new h
  kept_of_no_grants rfl hlevel hrefill htokens (Nat.le_refl t₀)

/-- **How much a bucket grants.** Since its rate was last set, a bucket grants at most what there was then and the
tokens of the whole intervals since; and in a stretch of time after that at most its capacity and the tokens of the
intervals that fit into it, and of one more. -/
theorem grants_bounded {rate : Binary64} {l : RateLimiter} {uses : List (Instant × Use)}
    (hnew : RateLimiter.new rate t₀ = .ok l) (horder : (t₀ :: uses.map Prod.fst).Pairwise (· ≤ ·))
    (hspan : ∀ u ∈ uses, u.1 < t₀ + 2 ^ 64 * Duration.microsecond) :
    let w := (begin l t₀).run uses
    (∀ t, w.start ≤ t → w.granted w.start t ≤
        w.burst + w.bucket.schedule.amount * ((t - w.start) / w.bucket.schedule.period)) ∧
      ∀ s t, w.start ≤ s → s ≤ t → w.granted s t ≤
        w.bucket.capacity + w.bucket.schedule.amount * ((t - s) / w.bucket.schedule.period + 1) := by
  intro w
  obtain ⟨last, hkept⟩ := (kept_begin hnew).run horder hspan
  refine ⟨fun t ht => hkept.from_start.within t ht, fun s t _ hst => ?_⟩
  rcases hkept.anywhere s with hc | hnone
  · exact hc.within t hst
  · rw [hnone t]
    exact Nat.zero_le _

/-- Uses of a bucket of 1.5 tokens a second. Its rate is then set to nothing, which is refused, and to 2. -/
def usesAtTwoRates : List (Instant × Use) :=
  [(0, .acquire 2), (1000000000, .acquire 1), (2000000000, .acquire 1), (2500000000, .available),
    (3000000000, .setRate ⟨0⟩), (3100000000, .setRate ⟨0x4000000000000000⟩), (3600000000, .acquire 1),
    (3700000000, .acquire 1), (4100000000, .acquire 1)]

/-- At the second rate there are two grants, as many as there are intervals. -/
theorem grants_bounded_two_rates :
    let w := (begin ⟨⟨0x3FF8000000000000⟩, ⟨2000000, 3, 2⟩, 2, 0⟩ 0).run usesAtTwoRates
    w.start = 3100000000 ∧ w.grants = [(3600000000, 1), (4100000000, 1)] ∧
      w.granted w.start 4100000000 ≤ 0 + 1 * ((4100000000 - w.start) / 500000000) ∧
      w.granted 3600000000 4100000000 ≤ 2 + 1 * ((4100000000 - 3600000000) / 500000000 + 1) :=
  have h := @grants_bounded 0 ⟨0x3FF8000000000000⟩ _ usesAtTwoRates rfl (by decide) (by decide)
  ⟨rfl, rfl, h.1 4100000000 (by decide), h.2 3600000000 4100000000 (by decide) (by decide)⟩

end Usage

end Rpc
