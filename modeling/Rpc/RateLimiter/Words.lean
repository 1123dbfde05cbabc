import Rpc.RateLimiter

/-!
# Token buckets in words

`RateLimiter` counts with natural numbers and says where it stops at 64 bits. Here a bucket is its words, and what is
done to it is done field by field. A division by zero ends the program (`DivisionByZero`); what was changed before an
error stays changed.

- `euclid`: Euclid's loop, and `Turns`: how it goes on until nothing is left;
- `ScheduleWords.ofRate`: the schedule of a rate, or the rate is refused;
- `BucketWords.refill`, `BucketWords.setRate`: what is done to a bucket at an instant.
-/

namespace Rpc

/-! ## Words -/

/-- A division by zero. -/
structure DivisionByZero

/-- The quotient of two words, or of two numbers that are longer than words. -/
def checkedDiv {α : Type} [Div α] [OfNat α 0] [DecidableEq α] (a b : α) : Except DivisionByZero α :=
  if b = 0 then .error ⟨⟩ else .ok (a / b)

namespace Word

/-- The word of a number, or the greatest word if the number is beyond it. -/
def clamp (n : Nat) : UInt64 := UInt64.ofNat (min n maxUInt64)

/-- The sum, saturating. -/
def add (a b : UInt64) : UInt64 := clamp (a.toNat + b.toNat)

/-- The product, saturating. -/
def mul (a b : UInt64) : UInt64 := clamp (a.toNat * b.toNat)

end Word

/-! ## Euclid's loop -/

/-- The number that two words end with if the second and what it leaves of the first take their place, until the second
is nothing. -/
def euclid (a b : UInt64) : UInt64 := if b = 0 then a else euclid b (a % b)
termination_by b.toNat
decreasing_by
  rename_i hb
  rw [UInt64.toNat_mod]
  exact Nat.mod_lt _ (Nat.pos_of_ne_zero fun h => hb (UInt64.toNat_inj.mp h))

/-- The loop from two words on: how many turns it takes, and the number that it ends with. -/
inductive Turns : (a b : UInt64) → (turns : Nat) → (last : UInt64) → Prop
  | done {a : UInt64} : Turns a 0 0 a
  | turn {a b last : UInt64} {turns : Nat} : b ≠ 0 → Turns b (a % b) turns last → Turns a b (turns + 1) last

/-! ## Schedules -/

/-- A schedule in words. -/
structure ScheduleWords where
  interval : UInt64
  amount : UInt64
  capacity : UInt64

namespace ScheduleWords

/-- The schedule that the words stand for. -/
def schedule (s : ScheduleWords) : Schedule := ⟨s.interval.toNat, s.amount.toNat, s.capacity.toNat⟩

/-- Thousandths of a microsecond in a second. -/
def scaledSecond : UInt64 := 1000000000

/-- A positive rate in thousandths of a permit a second. -/
def scaledRate (rate : Binary64) : UInt64 := .ofNat (Schedule.scaledRate rate)

/-- The schedule of a rate. -/
def ofRate (rate : Binary64) : Except DivisionByZero (Except InvalidRate ScheduleWords) :=
  if !rate.isFinite || !rate.isPositive then return .error ⟨rate⟩
  else if scaledRate rate = 0 then return .error ⟨rate⟩
  else do
    let divisor := euclid (scaledRate rate) scaledSecond
    let interval ← checkedDiv scaledSecond divisor
    let amount ← checkedDiv (scaledRate rate) divisor
    return .ok ⟨interval, amount, .ofNat (Schedule.capacityOf rate)⟩

end ScheduleWords

/-! ## Buckets -/

/-- A bucket in words. Rate and capacity are there once more beside the schedule, for those who only read them. -/
structure BucketWords where
  tokens : UInt64
  rate : Binary64
  capacity : UInt64
  schedule : ScheduleWords
  lastRefill : Instant

namespace BucketWords

/-- The bucket that the words stand for. -/
def bucket (w : BucketWords) : RateLimiter := ⟨w.rate, w.schedule.schedule, w.tokens.toNat, w.lastRefill⟩

/-- Adds the tokens of all whole intervals since the last refill. -/
def refill (now : Instant) : StateT BucketWords (Except DivisionByZero) Unit := do
  let schedule := (← get).schedule
  let elapsed := now - (← get).lastRefill
  let intervals := Word.clamp (← checkedDiv (elapsed / Duration.microsecond) schedule.interval.toNat)
  if intervals = 0 then return
  else
    let added := Word.mul intervals schedule.amount
    modify fun w => { w with tokens := min (Word.add w.tokens added) schedule.capacity }
    let advance := (Word.mul intervals schedule.interval).toNat * Duration.microsecond
    modify fun w => { w with lastRefill := min (w.lastRefill + advance) now }

/-- Another rate. The bucket is empty after it. -/
def setRate (rate : Binary64) (now : Instant) :
    StateT BucketWords (Except DivisionByZero) (Except InvalidRate Unit) := do
  match ← ScheduleWords.ofRate rate with
  | .error e => return .error e
  | .ok schedule =>
    modify fun w => { w with tokens := 0 }
    modify fun w => { w with rate := rate }
    modify fun w => { w with capacity := schedule.capacity }
    modify fun w => { w with schedule := schedule }
    modify fun w => { w with lastRefill := now }
    return .ok ()

end BucketWords

end Rpc
