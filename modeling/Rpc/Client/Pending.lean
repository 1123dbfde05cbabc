import Rpc.Client.Error

/-!
# Requests that wait for responses

A table from request ids to the callers that wait (`Pending`). Each caller has a handle; an entry names the handle to
which a response goes, and an owner, the connection that carried the request.

An entry goes in one step, and that step decides what its handle gives: a response (`Pending.complete`), or nothing
more (`Pending.remove`, `Pending.removeOwnedBy`, `Pending.clear`, or another entry with the same id,
`Pending.insert`). A handle is read once (`Pending.poll`, `Pending.expire`) or given up (`Pending.drop`); it is gone
after that, and with it whatever entry has its id.
-/

namespace Rpc

/-- What a handle holds. -/
inductive Delivery where
  | awaited
  | response (r : Response)
  /-- No response will come. -/
  | lost

/-- The caller's end of a request. -/
structure Handle where
  requestId : UInt32
  delivery : Delivery

/-- The table's end of a request. -/
structure PendingEntry (ω : Type) where
  /-- The number of the handle that waits. -/
  handle : Nat
  owner : ω

/-- The requests that wait for responses, and the handles that have not been read. -/
structure Pending (ω : Type) where
  entries : Table UInt32 (PendingEntry ω)
  handles : Table Nat Handle
  nextHandle : Nat

namespace Pending

variable {ω : Type}

/-- No requests. -/
def empty : Pending ω := ⟨.empty, .empty, 0⟩

instance : Inhabited (Pending ω) := ⟨empty⟩

/-- How many requests wait. -/
def size (t : Pending ω) : Nat := t.entries.size

/-- A request waits under an id. -/
def contains (t : Pending ω) (id : UInt32) : Bool := t.entries.contains id

/-- A request with such an owner waits. -/
def anyOwnedBy (t : Pending ω) (p : ω → Bool) : Bool := t.entries.values.any fun e => p e.owner

/-- Puts into a handle what it gives, unless it is gone. -/
def deliver (t : Pending ω) (handle : Nat) (d : Delivery) : Pending ω :=
  { t with handles := t.handles.modify handle fun h => { h with delivery := d } }

/-! ## Entries -/

/-- Takes the entry of an id, if there is one, and tells its handle what came of it. -/
def settle (t : Pending ω) (id : UInt32) (d : Delivery) : Pending ω × Option ω :=
  match t.entries.get? id with
  | none => (t, none)
  | some e => ({ t with entries := t.entries.erase id }.deliver e.handle d, some e.owner)

/-- A new entry and the number of its handle. One that had the same id is lost. -/
def insert (t : Pending ω) (id : UInt32) (owner : ω) : Pending ω × Nat :=
  let t := (t.settle id .lost).1
  let h := t.nextHandle
  (⟨t.entries.set id ⟨h, owner⟩, t.handles.set h ⟨id, .awaited⟩, h + 1⟩, h)

/-- Gives a response to the caller that waits under an id; the owner, if one does. -/
def complete (t : Pending ω) (id : UInt32) (r : Response) : Pending ω × Option ω := t.settle id (.response r)

/-- Takes an entry without a response; its owner. -/
def remove (t : Pending ω) (id : UInt32) : Pending ω × Option ω := t.settle id .lost

/-- Takes the entries of the given ids without responses. -/
def removeAll (t : Pending ω) (ids : List UInt32) : Pending ω := ids.foldl (fun t id => (t.remove id).1) t

/-- The ids under which requests with such owners wait. -/
def ownedBy (t : Pending ω) (p : ω → Bool) : List UInt32 := (t.entries.filter fun _ e => p e.owner).keys

/-- Takes the entries with such owners without responses; how many there were. -/
def removeOwnedBy (t : Pending ω) (p : ω → Bool) : Pending ω × Nat :=
  (t.removeAll (t.ownedBy p), (t.ownedBy p).length)

/-- Takes all entries without responses. -/
def clear (t : Pending ω) : Pending ω := t.removeAll t.entries.keys

/-! ## Handles -/

/-- The id of the request of a handle. -/
def requestId? (t : Pending ω) (handle : Nat) : Option UInt32 := (t.handles.get? handle).map (·.requestId)

/-- Gives up a handle. The entry with its id goes too. -/
def drop (t : Pending ω) (handle : Nat) : Pending ω :=
  match t.handles.get? handle with
  | none => t
  | some h => ({ t with handles := t.handles.erase handle }.remove h.requestId).1

/-- What a handle gives now, if that is decided. -/
def Delivery.outcome? : Delivery → Option Outcome
  | .awaited => none
  | .response r => some (.ok r)
  | .lost => some (.error .connectionClosed)

/-- What a handle gives now. -/
def outcome? (t : Pending ω) (handle : Nat) : Option Outcome :=
  (t.handles.get? handle).bind fun h => Delivery.outcome? h.delivery

/-- Reads a handle, if what it gives is decided. -/
def poll (t : Pending ω) (handle : Nat) : Pending ω × Option Outcome :=
  match t.outcome? handle with
  | none => (t, none)
  | some o => (t.drop handle, some o)

/-- Reads a handle whose time is up. What is decided by then still counts; else the entry goes, and that is the
outcome. A handle whose entry went by a response that is still on its way goes on waiting for it. -/
def expire (t : Pending ω) (handle after : Nat) : Pending ω × Option Outcome :=
  match t.poll handle with
  | (t, some o) => (t, some o)
  | (t, none) =>
    match t.requestId? handle with
    | none => (t, none)
    | some id =>
      match t.remove id with
      | (t, some _) => (t.drop handle, some (.error (.timeout after)))
      | (t, none) => (t, none)

end Pending

end Rpc
