import Rpc.Client.Pending

/-!
# Waiting requests, step by step

Taking an entry from the table is one step, and telling its caller what came of it is another; a caller whose time is up
has stopped waiting in one step and looks into the table in the next. Whatever others do can come in between
(`PendingStep`). A step that is not possible in a state is `none` (`PendingRun.step?`); `PendingRun.Reaches` is what a
table can come to.

- `PendingRun.take`: the step that decides what a handle gives;
- `PendingRun.leave`: what becomes of a handle that is read or given up.
-/

namespace Rpc

/-- A caller whose time is up after so many nanoseconds. -/
inductive Late where
  /-- It is going to take its entry from the table. -/
  | looking (after : Nat)
  /-- Its entry had gone: what is on its way counts. -/
  | outrun (after : Nat)

/-- Requests that wait, with what is on its way to their callers. -/
structure PendingRun (ω : Type) where
  table : Pending ω
  /-- The handles at which the time is up. -/
  late : Table Nat Late
  /-- What came of entries that were taken, and is not in their handles yet. -/
  news : List (Nat × Delivery)

/-- A step of a table and its handles. -/
inductive PendingStep (ω : Type) where
  | insert (id : UInt32) (owner : ω)
  | complete (id : UInt32) (r : Response)
  | remove (id : UInt32)
  | removeOwnedBy (p : ω → Bool)
  | clear
  | contains (id : UInt32)
  /-- The `k`-th news come to their handle. -/
  | tell (k : Nat)
  /-- A caller looks whether its handle gives something. -/
  | poll (handle : Nat)
  /-- The time of a caller is up, and its handle gives nothing. -/
  | timeUp (handle after : Nat)
  /-- A caller whose time is up takes its entry from the table, if that is still there. -/
  | look (handle : Nat)
  | drop (handle : Nat)

/-- What somebody learns from a step. -/
inductive PendingAnswer (ω : Type) where
  | done
  | handle (h : Nat)
  | owner (o : Option ω)
  | count (n : Nat)
  | found (b : Bool)
  | outcome (o : Option Outcome)

namespace PendingRun

variable {ω : Type}

/-- No requests. -/
def empty : PendingRun ω := ⟨.empty, .empty, []⟩

/-- Takes the entry of an id, if there is one. -/
def take (s : PendingRun ω) (id : UInt32) (d : Delivery) : PendingRun ω × Option ω :=
  match s.table.entries.get? id with
  | none => (s, none)
  | some e =>
    ({ s with table := { s.table with entries := s.table.entries.erase id }, news := s.news ++ [(e.handle, d)] },
      some e.owner)

/-- Takes the entries of the given ids. -/
def takeAll (s : PendingRun ω) (ids : List UInt32) (d : Delivery) : PendingRun ω :=
  ids.foldl (fun s id => (s.take id d).1) s

/-- What a handle gives: after the caller's time was up, no response is a timeout. -/
def read (late : Option Late) : Delivery → Option Outcome
  | .awaited => none
  | .response r => some (.ok r)
  | .lost =>
    match late with
    | some (.outrun after) => some (.error (.timeout after))
    | _ => some (.error .connectionClosed)

/-- Nobody waits at a handle any more. -/
def leave (s : PendingRun ω) (h : Nat) : PendingRun ω := { s with table := s.table.drop h, late := s.late.erase h }

/-- One step, where it is possible, and what somebody learns from it. -/
def step? (s : PendingRun ω) : PendingStep ω → Option (PendingRun ω × PendingAnswer ω)
  | .insert id o =>
    let (t, h) := s.table.insert id o
    some ({ s with table := t }, .handle h)
  | .complete id r =>
    let (s, o) := s.take id (.response r)
    some (s, .owner o)
  | .remove id =>
    let (s, o) := s.take id .lost
    some (s, .owner o)
  | .removeOwnedBy p => some (s.takeAll (s.table.ownedBy p) .lost, .count (s.table.ownedBy p).length)
  | .clear => some (s.takeAll s.table.entries.keys .lost, .done)
  | .contains id => some (s, .found (s.table.contains id))
  | .tell k =>
    match s.news[k]? with
    | none => none
    | some (h, d) => some ({ s with table := s.table.deliver h d, news := s.news.eraseIdx k }, .done)
  | .poll h =>
    match s.table.handles.get? h, s.late.get? h with
    | none, _ | _, some (.looking _) => none
    | some x, l =>
      match read l x.delivery with
      | none => some (s, .outcome none)
      | some o => some (s.leave h, .outcome (some o))
  | .timeUp h after =>
    match s.table.handles.get? h, s.late.get? h with
    | some ⟨_, .awaited⟩, none => some ({ s with late := s.late.set h (.looking after) }, .done)
    | _, _ => none
  | .look h =>
    match s.table.handles.get? h, s.late.get? h with
    | some x, some (.looking after) =>
      match s.table.remove x.requestId with
      | (t, some _) => some ({ s with table := t }.leave h, .outcome (some (.error (.timeout after))))
      | (_, none) => some ({ s with late := s.late.set h (.outrun after) }, .outcome none)
    | _, _ => none
  | .drop h => (s.table.handles.get? h).map fun _ => (s.leave h, .done)

/-- A state that steps lead to, with what was learnt on the way. -/
inductive Reaches : PendingRun ω → List (PendingStep ω × PendingAnswer ω) → PendingRun ω → Prop
  | refl (s : PendingRun ω) : Reaches s [] s
  | next {s t u : PendingRun ω} {x : PendingStep ω} {a : PendingAnswer ω}
      {run : List (PendingStep ω × PendingAnswer ω)} :
      s.step? x = some (t, a) → Reaches t run u → Reaches s ((x, a) :: run) u

end PendingRun

end Rpc
