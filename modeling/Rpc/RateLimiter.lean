import Rpc.Binary64.Decimal
import Rpc.Time

/-!
# Token buckets

A bucket holds at most `capacity` tokens and starts full. For every whole `interval` since the last refill it gains
`amount` tokens; interval and amount are the rate, to a thousandth of a permit a second, in lowest terms. Nothing runs
in the background: a bucket is refilled when it is looked at (`RateLimiter.refill`).

Instants are nanoseconds from an arbitrary start; counts of tokens saturate at 64 bits.

- `Schedule.ofRate`: the schedule of a rate, or the rate is refused;
- `RateLimiter.tryAcquire`, `RateLimiter.available`, `RateLimiter.setRate`: one look at the bucket at an instant;
- `RateLimiter.acquireWithin`: up to eleven tries, a tenth of the time apart.
-/

namespace Rpc

/-- The greatest number of 64 bits. -/
def maxUInt64 : Nat := 2 ^ 64 - 1

/-- A rate that is not positive and finite, or that rounds to nothing. -/
structure InvalidRate where
  rate : Binary64
  deriving DecidableEq

/-- The wording in messages to people. -/
def InvalidRate.message (e : InvalidRate) : String :=
  "invalid rate: " ++ e.rate.render .plain ++ " permits/second"

/-! ## Schedules -/

/-- When and by how much a bucket is refilled. -/
structure Schedule where
  /-- Microseconds between refills. -/
  interval : Nat
  /-- Tokens of a refill. -/
  amount : Nat
  capacity : Nat
  deriving DecidableEq

namespace Schedule

/-- Thousandths of a microsecond in a second: the interval at which a thousandth of a permit a second gives a token.
-/
def scaledSecond : Nat := 1000000000

/-- A positive rate in thousandths of a permit a second, saturating. -/
def scaledRate (rate : Binary64) : Nat :=
  let product := Binary64.round false (rate.absNum * 1000) rate.absDen
  if product.isFinite then min (Binary64.roundHalfUp product.absNum product.absDen) maxUInt64 else maxUInt64

/-- The tokens that a second of a positive rate gives, at least one, saturating. -/
def capacityOf (rate : Binary64) : Nat :=
  max 1 (min ((rate.absNum + rate.absDen - 1) / rate.absDen) maxUInt64)

/-- The schedule of a rate. -/
def ofRate (rate : Binary64) : Except InvalidRate Schedule :=
  if !rate.isFinite || !rate.isPositive then .error ⟨rate⟩
  else
    let scaled := scaledRate rate
    if scaled = 0 then .error ⟨rate⟩
    else
      let divisor := Nat.gcd scaled scaledSecond
      .ok ⟨scaledSecond / divisor, scaled / divisor, capacityOf rate⟩

end Schedule

/-! ## Buckets -/

/-- A token bucket. -/
structure RateLimiter where
  rate : Binary64
  schedule : Schedule
  tokens : Nat
  lastRefill : Instant

namespace RateLimiter

/-- A full bucket. -/
def new (rate : Binary64) (now : Instant) : Except InvalidRate RateLimiter := do
  let s ← Schedule.ofRate rate
  .ok ⟨rate, s, s.capacity, now⟩

/-- The most that the bucket holds. -/
def capacity (l : RateLimiter) : Nat := l.schedule.capacity

/-- The whole intervals since the last refill. -/
def intervals (l : RateLimiter) (now : Instant) : Nat :=
  min ((now - l.lastRefill) / 1000 / l.schedule.interval) maxUInt64

/-- The bucket with the tokens of all whole intervals since the last refill. -/
def refill (l : RateLimiter) (now : Instant) : RateLimiter :=
  let n := l.intervals now
  if n = 0 then l
  else
    let added := min (n * l.schedule.amount) maxUInt64
    { l with
      tokens := min (min (l.tokens + added) maxUInt64) l.schedule.capacity
      lastRefill := min (l.lastRefill + min (n * l.schedule.interval) maxUInt64 * 1000) now }

/-- The tokens there are. -/
def available (l : RateLimiter) (now : Instant) : RateLimiter × Nat :=
  let l := l.refill now
  (l, l.tokens)

/-- Takes `n` tokens if there are as many. -/
def tryAcquire (l : RateLimiter) (n : Nat) (now : Instant) : RateLimiter × Bool :=
  let l := l.refill now
  if n ≤ l.tokens then ({ l with tokens := l.tokens - n }, true) else (l, false)

/-- Another rate. The bucket is empty after it, so that no burst comes through. -/
def setRate (l : RateLimiter) (rate : Binary64) (now : Instant) : Except InvalidRate RateLimiter := do
  let s ← Schedule.ofRate rate
  .ok { l with rate := rate, schedule := s, tokens := 0, lastRefill := now }

/-! ## Waiting -/

/-- Tries after the first one in `acquireWithin`. -/
def acquireAttempts : Nat := 10

/-- Tries that many times more, a step apart; also gives the instant of the last try. -/
def retry (n step : Nat) : (attempts : Nat) → RateLimiter → Instant → RateLimiter × Bool × Instant
  | 0, l, now => (l, false, now)
  | attempts + 1, l, now =>
    let now := now + step
    match l.tryAcquire n now with
    | (l, true) => (l, true, now)
    | (l, false) => retry n step attempts l now

/-- Takes `n` tokens as soon as a try finds as many, for up to `timeout` nanoseconds. -/
def acquireWithin (l : RateLimiter) (n timeout : Nat) (now : Instant) : RateLimiter × Bool × Instant :=
  match l.tryAcquire n now with
  | (l, true) => (l, true, now)
  | (l, false) => retry n (timeout / acquireAttempts) acquireAttempts l now

/-- How many of `k` tries for one token succeed. -/
def countAcquired : (k : Nat) → RateLimiter → Instant → RateLimiter × Nat
  | 0, l, _ => (l, 0)
  | k + 1, l, now =>
    let (l, got) := l.tryAcquire 1 now
    let (l, count) := countAcquired k l now
    (l, count + got.toNat)

end RateLimiter

end Rpc
