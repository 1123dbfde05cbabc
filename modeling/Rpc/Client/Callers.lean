import Rpc.Client.Steps

/-!
# Callers of a pool

What a pool alone does not know is who has its connections. `Callers` is a pool and the connections that callers have
got and not begun to send on. All callers go the same way: who gets a connection sends one request on it and leaves it
to the pool; nobody sends on a connection without having got it, and nobody gives one back (`Callers.step?`).

How many are at work on a connection is counted by `Callers.users`.
-/

namespace Rpc

namespace Pool

/-- How many sends are on their way on a connection. -/
def sending (p : Pool) (n : Nat) : Nat := p.sends.total fun x => if x.connection = n then 1 else 0

/-- How many responses a connection owes. -/
def owed (p : Pool) (n : Nat) : Nat := ((p.connections.get? n).map (·.inFlight)).getD 0

end Pool

/-- A pool, and the connections that its callers have got and not begun to send on. -/
structure Callers where
  pool : Pool
  inHand : List Nat

namespace Callers

/-- No connections, and nobody who has one. -/
def start : Callers := ⟨.empty, []⟩

/-- Sends are for who has got the connection, and giving back is for nobody. -/
def permits (w : Callers) : PoolStep → Bool
  | .startSend n _ => n ∈ w.inHand
  | .release _ => false
  | _ => true

/-- What callers have in hand after a step with such an answer. -/
def inHandAfter (w : Callers) : PoolStep → PoolAnswer → List Nat
  | .acquire _, .acquired (.idle n) => n :: w.inHand
  | .dialed n _, _ => n :: w.inHand
  | .startSend n _, _ => w.inHand.erase n
  | _, _ => w.inHand

/-- One step, where it is possible, and what somebody learns from it. -/
def step? (w : Callers) (s : PoolStep) : Option (Callers × PoolAnswer) :=
  if w.permits s then (w.pool.step? s).map fun (p, a) => (⟨p, w.inHandAfter s a⟩, a) else none

/-- What callers and their pool come to, with what was learnt on the way. -/
inductive Reaches (w : Callers) : List (PoolStep × PoolAnswer) → Callers → Prop
  | refl : Reaches w [] w
  | next {u v : Callers} {s : PoolStep} {a : PoolAnswer} {run : List (PoolStep × PoolAnswer)} :
      Reaches w run u → u.step? s = some (v, a) → Reaches w (run ++ [(s, a)]) v

/-- How many are at work on a connection: they have it in hand, send on it or are owed a response. -/
def users (w : Callers) (n : Nat) : Nat := w.inHand.count n + w.pool.sending n + w.pool.owed n

/-- A look at a connection gives it back: it is idle after, and was not before. -/
def GivesBack (w : Callers) (s : PoolStep) (v : Callers) (n : Nat) : Prop :=
  (∃ reclaimAfter now probeWritten, s = .checkConnection reclaimAfter now probeWritten n) ∧
    w.pool.isIdle n = false ∧ v.pool.isIdle n = true

/-- A look at a connection gave it back, some time on a run. -/
def GivenBack (run : List (PoolStep × PoolAnswer)) (n : Nat) : Prop :=
  ∃ past s a rest w v, run = past ++ (s, a) :: rest ∧ start.Reaches past w ∧ w.step? s = some (v, a) ∧ w.GivesBack s v n

end Callers

end Rpc
