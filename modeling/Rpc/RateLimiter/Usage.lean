import Rpc.RateLimiter

/-!
# A bucket in use

What is done to a bucket, one thing after the other (`Use`), with a record of what it granted since its rate was last
set (`Usage`), or with what is learnt from each use (`RateLimiter.answers`). `RateLimiter.visits` is the use by somebody
who takes all there is once a second.
-/

namespace Rpc

/-- Something that is done to a bucket. -/
inductive Use where
  | acquire (n : Nat)
  | available
  | setRate (rate : Binary64)

/-- A bucket, and what it granted since its rate was last set. -/
structure Usage where
  bucket : RateLimiter
  /-- When the rate was last set. -/
  start : Instant
  /-- What there was to grant then: all that a new bucket holds, and nothing after a change of the rate. -/
  burst : Nat
  /-- The tokens that were granted since, and when. -/
  grants : List (Instant × Nat)

namespace Usage

/-- A new bucket. -/
def begin (l : RateLimiter) (now : Instant) : Usage := ⟨l, now, l.capacity, []⟩

/-- The bucket after a use at an instant. A rate that is accepted begins a new record. -/
def next (w : Usage) (now : Instant) : Use → Usage
  | .acquire n =>
    let (l, got) := w.bucket.tryAcquire n now
    { w with bucket := l, grants := if got then w.grants ++ [(now, n)] else w.grants }
  | .available => { w with bucket := (w.bucket.available now).1 }
  | .setRate rate =>
    match w.bucket.setRate rate now with
    | .ok l => ⟨l, now, 0, []⟩
    | .error _ => w

/-- The bucket after uses at instants. -/
def run (w : Usage) (uses : List (Instant × Use)) : Usage := uses.foldl (fun w u => w.next u.1 u.2) w

/-- How many tokens were granted from an instant `s` to an instant `t`, both included. -/
def granted (w : Usage) (s t : Instant) : Nat :=
  (w.grants.filter fun g => s ≤ g.1 && g.1 ≤ t).foldr (fun g n => g.2 + n) 0

end Usage

/-! ## What is learnt -/

/-- What is learnt from a use. -/
inductive UseAnswer where
  | granted (got : Bool)
  | tokens (n : Nat)
  /-- The rate was accepted, unless it was refused. -/
  | rated (refusal : Option InvalidRate)
  deriving DecidableEq

namespace RateLimiter

/-- The bucket after a use at an instant, and what is learnt from it. -/
def use (l : RateLimiter) (now : Instant) : Use → RateLimiter × UseAnswer
  | .acquire n =>
    let (l, got) := l.tryAcquire n now
    (l, .granted got)
  | .available =>
    let (l, n) := l.available now
    (l, .tokens n)
  | .setRate rate =>
    match l.setRate rate now with
    | .ok l => (l, .rated none)
    | .error e => (l, .rated (some e))

/-- What is learnt from uses at instants, one after the other. -/
def answers (l : RateLimiter) : List (Instant × Use) → List UseAnswer
  | [] => []
  | (now, u) :: uses =>
    let (l, a) := l.use now u
    a :: l.answers uses

/-! ## Visits -/

/-- Looks how many tokens there are and takes them; how many were got. -/
def takeAll (l : RateLimiter) (now : Instant) : RateLimiter × Nat :=
  let (l, n) := l.available now
  let (l, got) := l.tryAcquire n now
  (l, if got then n else 0)

/-- Takes all there is once more, on top of what was got before. -/
def takeMore (x : RateLimiter × Nat) (now : Instant) : RateLimiter × Nat :=
  let (l, got) := x.1.takeAll now
  (l, x.2 + got)

/-- So many seconds after an instant. -/
def secondsAfter (start : Instant) (n : Nat) : Instant := start + n * Duration.second

/-- Empties a bucket at an instant, and takes all there is one second later, two seconds later and so on, that many
times; how much those visits got together. -/
def visits (l : RateLimiter) (start : Instant) (n : Nat) : RateLimiter × Nat :=
  ((List.range n).map fun i => secondsAfter start (i + 1)).foldl takeMore ((l.takeAll start).1, 0)

end RateLimiter

end Rpc
