import Rpc.Client.Pending

/-!
# Waiting for a response

A table of waiting requests in time (`Waiting`): what is to happen to its entries at later instants, in order. Time
passes while a caller waits (`Waiting.wait`) or on its own (`Waiting.advance`). What is due at the instant at which a
caller's time is up comes too late for that caller.
-/

namespace Rpc

/-- A change of an entry at an instant: its response comes, or it is taken away. -/
structure Arrival where
  due : Instant
  requestId : UInt32
  response : Option Response

/-- A table of waiting requests at an instant, and what is to happen to it, earliest first. -/
structure Waiting (ω : Type) where
  table : Pending ω
  now : Instant
  arrivals : List Arrival

namespace Waiting

variable {ω : Type}

/-- The start: no requests. -/
def start : Waiting ω := ⟨.empty, 0, []⟩

/-- Arrivals with another one among them, behind those that are due at the same instant. -/
def schedule (a : Arrival) : List Arrival → List Arrival
  | [] => [a]
  | b :: bs => if b.due ≤ a.due then b :: schedule a bs else a :: b :: bs

/-- What an arrival does to the table. -/
def arrive (t : Pending ω) (a : Arrival) : Pending ω :=
  match a.response with
  | some r => (t.complete a.requestId r).1
  | none => (t.remove a.requestId).1

/-- Lets everything happen that is due up to an instant. -/
def advance (w : Waiting ω) (now : Instant) : Waiting ω :=
  let (due, later) := w.arrivals.span (·.due ≤ now)
  ⟨due.foldl arrive w.table, now, later⟩

/-- Waits for a handle until `deadline`. The instants of `arrivals` are gone through one after the other; each of them
takes one unit of fuel. -/
def waitFrom (handle deadline after : Nat) : (fuel : Nat) → Waiting ω → Waiting ω × Option Outcome
  | 0, w => (w, none)
  | fuel + 1, w =>
    match w.table.poll handle with
    | (t, some o) => ({ w with table := t }, some o)
    | (_, none) =>
      match w.arrivals with
      | a :: _ =>
        if a.due < deadline then waitFrom handle deadline after fuel (w.advance (max w.now a.due))
        else expireAt w
      | [] => expireAt w
where
  /-- The caller's time is up. -/
  expireAt (w : Waiting ω) : Waiting ω × Option Outcome :=
    let (t, o) := w.table.expire handle after
    ({ w with table := t, now := max w.now deadline }, o)

/-- Waits for a handle for up to `timeout`; what the handle gives and how long it took, or nothing if it is gone. -/
def wait (w : Waiting ω) (handle timeout : Nat) (arrivals : List Arrival) : Waiting ω × Option (Outcome × Nat) :=
  if (w.table.handles.get? handle).isNone then (w, none)
  else
    let w := { w with arrivals := arrivals.foldl (fun as a => schedule a as) w.arrivals }
    match waitFrom handle (w.now + timeout) timeout (w.arrivals.length + 1) w with
    | (w', some o) => (w', some (o, w'.now - w.now))
    | (w', none) => (w', none)

end Waiting

end Rpc
