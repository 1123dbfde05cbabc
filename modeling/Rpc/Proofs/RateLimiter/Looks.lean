import Rpc.Proofs.RateLimiter.Refill
import Rpc.RateLimiter.Usage

/-!
# Looking at a bucket changes nothing

- `RateLimiter.Alike`: two buckets that no later use can tell apart; a look makes no difference to that
  (`Alike.look`), and uses keep it (`Alike.use`);
- `RateLimiter.looks_change_nothing`: the main statement.
-/

namespace Rpc

/-- Uses of a bucket at instants, and extra looks at it in between. -/
abbrev Watched := List (Instant × Option Use)

namespace Watched

/-- The uses without the looks. -/
def uses (es : Watched) : List (Instant × Use) := es.filterMap fun e => e.2.map fun u => (e.1, u)

/-- The uses and the looks. -/
def all (es : Watched) : List (Instant × Use) := es.map fun e => (e.1, e.2.getD .available)

/-- What belongs to the uses of what is learnt from uses and looks. -/
def ofUses (es : Watched) (answers : List UseAnswer) : List UseAnswer :=
  (es.zip answers).filterMap fun x => x.1.2.map fun _ => x.2

end Watched

namespace RateLimiter

variable {l l' : RateLimiter} {t₀ now s t : Instant}

/-! ## Buckets that are alike -/

/-- A bucket that was refilled for the last time between two instants. -/
structure Since (t₀ : Instant) (l : RateLimiter) (now : Instant) : Prop where
  level : l.Level
  first_le : t₀ ≤ l.lastRefill
  last_le : l.lastRefill ≤ now

/-- Not so long after `t₀` that 64 bits cannot count the microseconds. -/
def Within (t₀ t : Instant) : Prop := t < t₀ + 2 ^ 64 * Duration.microsecond

theorem Since.recent (h : Since t₀ l now) (ht : Within t₀ t) : l.Recent t := recent_of_span h.first_le ht

theorem Since.refill (h : Since t₀ l now) (hle : now ≤ t) (ht : Within t₀ t) : Since t₀ (l.refill t) t := by
  have hlast := Nat.le_trans h.last_le hle
  have hr := h.recent ht
  obtain ⟨hfirst_le, hle'⟩ := refill_between h.level hlast hr
  exact ⟨h.level.refill hlast hr, Nat.le_trans h.first_le hfirst_le, hle'⟩

theorem Since.use (h : Since t₀ l now) (hle : now ≤ t) (ht : Within t₀ t) (u : Use) : Since t₀ (l.use t u).1 t := by
  have hfilled := h.refill hle ht
  cases u with
  | acquire n =>
    simp only [RateLimiter.use, tryAcquire]
    split
    · exact ⟨⟨hfilled.level.schedule, Nat.le_trans (Nat.sub_le _ _) hfilled.level.tokens_le⟩, hfilled.first_le,
        hfilled.last_le⟩
    · exact hfilled
  | available => exact hfilled
  | setRate rate =>
    have hlast := Nat.le_trans h.last_le hle
    simp only [RateLimiter.use]
    cases hset : l.setRate rate t with
    | error e => exact ⟨h.level, h.first_le, hlast⟩
    | ok l₁ =>
      obtain ⟨hlevel, -, hrefill⟩ := level_setRate hset
      exact ⟨hlevel, hrefill ▸ Nat.le_trans h.first_le hlast, Nat.le_of_eq hrefill⟩

/-- Two buckets that are the same once they are refilled, from an instant on. -/
def Alike (t₀ : Instant) (l l' : RateLimiter) (now : Instant) : Prop :=
  ∀ t, now ≤ t → Within t₀ t → l.refill t = l'.refill t

/-- A look at one of them is nothing. -/
theorem Alike.look (h : Alike t₀ l l' now) (hl : Since t₀ l now) (hle : now ≤ s) :
    Alike t₀ (l.refill s) l' s := by
  intro t hst ht
  rw [refill_refill hl.level (Nat.le_trans hl.last_le hle) hst (hl.recent ht)]
  exact h t (Nat.le_trans hle hst) ht

/-- A change of the rate leaves nothing of what was before. -/
theorem setRate_eq (l l' : RateLimiter) (rate : Binary64) (now : Instant) :
    l.setRate rate now = l'.setRate rate now := rfl

/-- A use tells the same of both, and they are alike after it. -/
theorem Alike.use (h : Alike t₀ l l' now) (hle : now ≤ t) (ht : Within t₀ t) (u : Use) :
    (l.use t u).2 = (l'.use t u).2 ∧ Alike t₀ (l.use t u).1 (l'.use t u).1 t := by
  have hrefill := h t hle ht
  cases u with
  | acquire n =>
    have hsame : l.use t (.acquire n) = l'.use t (.acquire n) := by simp only [RateLimiter.use, tryAcquire, hrefill]
    exact hsame ▸ ⟨rfl, fun _ _ _ => rfl⟩
  | available =>
    have hsame : l.use t .available = l'.use t .available := by simp only [RateLimiter.use, available, hrefill]
    exact hsame ▸ ⟨rfl, fun _ _ _ => rfl⟩
  | setRate rate =>
    simp only [RateLimiter.use, setRate_eq l l']
    cases l'.setRate rate t with
    | ok l₁ => exact ⟨rfl, fun _ _ _ => rfl⟩
    | error e => exact ⟨rfl, fun t' hle' ht' => h t' (Nat.le_trans hle hle') ht'⟩

/-! ## Runs -/

/-- Of two buckets that are alike, one that is looked at in between tells what the other tells. -/
theorem Alike.answers {es : Watched} (h : Alike t₀ l l' now) (hl : Since t₀ l now)
    (horder : (now :: es.map Prod.fst).Pairwise (· ≤ ·)) (hspan : ∀ e ∈ es, Within t₀ e.1) :
    es.ofUses (l.answers es.all) = l'.answers es.uses := by
  induction es generalizing l l' now with
  | nil => rfl
  | cons e es ih =>
    obtain ⟨hfirst, hrest⟩ := List.pairwise_cons.mp horder
    have hle := hfirst e.1 List.mem_cons_self
    have ht := hspan e List.mem_cons_self
    have hspan' : ∀ e' ∈ es, Within t₀ e'.1 := fun e' he => hspan e' (List.mem_cons_of_mem e he)
    obtain ⟨t, u⟩ := e
    cases u with
    | none => exact ih (h.look hl hle) (hl.refill hle ht) hrest hspan'
    | some u =>
      obtain ⟨hsame, halike⟩ := h.use hle ht u
      have htail := ih halike (hl.use hle ht u) hrest hspan'
      exact congrArg₂ List.cons hsame htail

/-- **Looking changes nothing.** What acquisitions, looks and changes of the rate tell of a bucket, one after the other
within 2 ^ 64 microseconds, they tell as well with any number of extra looks in between. -/
theorem looks_change_nothing {rate : Binary64} {es : Watched} (hnew : new rate t₀ = .ok l)
    (horder : (t₀ :: es.map Prod.fst).Pairwise (· ≤ ·))
    (hspan : ∀ e ∈ es, e.1 < t₀ + 2 ^ 64 * Duration.microsecond) :
    es.ofUses (l.answers es.all) = l.answers es.uses := by
  obtain ⟨hlevel, -, hrefill⟩ := level_new hnew
  have hsince : Since t₀ l t₀ := ⟨hlevel, Nat.le_of_eq hrefill.symm, Nat.le_of_eq hrefill⟩
  exact Alike.answers (fun _ _ _ => rfl) hsince horder hspan

/-- A bucket of 2.5 tokens a second that is used and then set to 1.5, with looks within intervals and at their ends. -/
def watchedUses : Watched :=
  [(0, some (.acquire 3)), (300000000, none), (400000000, some (.acquire 1)), (900000000, none),
    (2000000000, some (.acquire 5)), (2000000001, none), (2000000002, some (.setRate ⟨0⟩)),
    (3000000000, some (.setRate ⟨0x3FF8000000000000⟩)), (4000000000, none), (5000000000, none),
    (5000000000, some .available)]

/-- A token comes every 400 milliseconds, up to three; at the second rate three come every two seconds, and two stay. -/
theorem looks_change_nothing_watched :
    let l : RateLimiter := ⟨⟨0x4004000000000000⟩, ⟨400000, 1, 3⟩, 3, 0⟩
    l.answers watchedUses.uses =
        [.granted true, .granted true, .granted false, .rated (some ⟨⟨0⟩⟩), .rated none, .tokens 2] ∧
      watchedUses.ofUses (l.answers watchedUses.all) = l.answers watchedUses.uses :=
  ⟨rfl, @looks_change_nothing _ 0 ⟨0x4004000000000000⟩ watchedUses rfl (by decide) (by decide)⟩

end RateLimiter

end Rpc
