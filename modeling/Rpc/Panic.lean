import Rpc.Bytes

/-!
# Operations that can end a program

An operation that is asked for what there is not ends the program (`Panic`). That is no error that a caller gets to
see, so it is an outcome of its own: an operation that can do so and can fail as well gives an `Except` in an `Except`.
-/

namespace Rpc

/-- What ends a program. -/
inductive Panic where
  /-- A sum that does not fit 64 bits. -/
  | overflow
  /-- A difference below zero. -/
  | underflow
  /-- Bytes behind the end. -/
  | outOfBounds
  /-- More space than there is. -/
  | capacity
  deriving DecidableEq

/-- The sum of two numbers of 64 bits. -/
def checkedAdd (a b : Nat) : Except Panic Nat := if a + b < 2 ^ 64 then .ok (a + b) else .error .overflow

/-- The difference of two lengths. -/
def checkedSub (a b : Nat) : Except Panic Nat := if b ≤ a then .ok (a - b) else .error .underflow

theorem checkedAdd_of_lt {a b : Nat} (h : a + b < 2 ^ 64) : checkedAdd a b = .ok (a + b) := if_pos h

theorem checkedSub_of_le {a b : Nat} (h : b ≤ a) : checkedSub a b = .ok (a - b) := if_pos h

end Rpc
