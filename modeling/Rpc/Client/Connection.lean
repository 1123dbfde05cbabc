import Rpc.Client.Pending

/-!
# Connections of a client

A connection is checked out (busy) or idle, and open or closed (`Connection`). It knows the requests that are being
written on it and those that were written and have not been answered. Its reader takes one frame after the other; a
response waits there while the request with its id is still being written.

The busy flag only steers who gets the connection: requests are told apart by their ids.
-/

namespace Rpc

/-- What the reader of a connection does. -/
inductive ReaderState where
  | reading
  /-- It has a response, or what stands for one, for an id. -/
  | holding (id : UInt32) (r : Response)
  | finished

/-- A connection to one address. -/
structure Connection where
  address : SocketAddress
  busy : Bool
  closed : Bool
  /-- Somebody writes a frame. -/
  writerTaken : Bool
  /-- The ids of requests that are being written and are not yet waiting. -/
  writing : List UInt32
  /-- The ids of requests that were written and not yet answered. -/
  outstanding : List UInt32
  /-- When the last frame was written or came in. -/
  lastActive : Instant
  reader : ReaderState

namespace Connection

/-- A new connection is checked out. -/
def opened (address : SocketAddress) (now : Instant) : Connection :=
  ⟨address, true, false, false, [], [], now, .reading⟩

/-- Open and not checked out. -/
def isIdle (c : Connection) : Bool := !c.closed && !c.busy

/-- Gives the connection back, unless it is closed. -/
def release (c : Connection) : Connection := if c.closed then c else { c with busy := false }

/-- Closes the connection. -/
def close (c : Connection) : Connection := { c with busy := false, closed := true }

/-- Notes that a frame was written or came in. -/
def touch (c : Connection) (now : Instant) : Connection := { c with lastActive := now }

/-- How long no frame was written or came in. -/
def quietFor (c : Connection) (now : Instant) : Nat := now - c.lastActive

/-- How many requests have been written and not answered. -/
def inFlight (c : Connection) : Nat := c.outstanding.length

/-! ## Writing -/

/-- Begins to write a request. -/
def startWriting (c : Connection) (id : UInt32) : Connection := { c with writing := c.writing.insert id }

/-- Is done with writing a request, in whatever way. -/
def stopWriting (c : Connection) (id : UInt32) : Connection := { c with writing := c.writing.filter (· ≠ id) }

/-- Notes that a request has been written. -/
def expect (c : Connection) (id : UInt32) : Connection := { c with outstanding := c.outstanding.insert id }

/-! ## Reading -/

/-- The id and the response that a frame stands for, if it is one for the reader to hand on. A frame that cannot be
decoded stands for an error under the id in its header. -/
def responseOf : Inbound → Option (UInt32 × Response)
  | .ok m =>
    match m.type, m.payload with
    | .response, .response r => some (m.requestId, r)
    | _, _ => none
  | .error e => some (e.header.requestId, .err e.header.requestId ⟨.badRequest, e.message, none⟩)

/-- Takes a frame. -/
def receive (c : Connection) (i : Inbound) (now : Instant) : Connection :=
  let c := c.touch now
  match responseOf i with
  | some (id, r) => { c with reader := .holding id r }
  | none => c

/-- Strikes a request off as answered, and is idle again if it was the last. -/
def answered (c : Connection) (id : UInt32) : Connection :=
  let c := { c with outstanding := c.outstanding.filter (· ≠ id) }
  if c.outstanding.isEmpty then c.release else c

end Connection

end Rpc
