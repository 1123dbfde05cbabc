import Rpc.Server.Connection

/-!
# The writer of a connection

What the writer does to the bytes of a connection. `FrameCodec.writeReplies` says which frames it writes; here they go
through a buffer, into which a frame is written part by part.

- `Outlet.send`: a message into the buffer, and the buffer to the peer;
- `Outlet.writeReplies`: replies one after the other, with an error in the place of one without a frame.
-/

namespace Rpc

/-- The bytes of a connection that go to its peer. -/
structure Outlet where
  /-- Written, and not sent. -/
  buffer : Bytes
  /-- Sent, in order. -/
  sent : Bytes
  deriving DecidableEq

namespace Outlet

/-- Before anything is written. -/
def empty : Outlet := ⟨[], []⟩

/-- Sends a message with all that the buffer holds. After a failure nothing is sent, and the buffer is as the failure
left it. -/
def send (c : FrameCodec) (m : Message) (o : Outlet) : Except EncodeError Unit × Outlet :=
  match (c.encodeInto m).run.run o.buffer with
  | (.error e, buffer) => (.error e, { o with buffer := buffer })
  | (.ok (), buffer) => (.ok (), ⟨[], o.sent ++ buffer⟩)

/-- Sends a reply, or an error in its place if it is a response. -/
def sendReply (c : FrameCodec) (m : Message) (o : Outlet) : Except EncodeError Unit × Outlet :=
  match o.send c m with
  | (.error e, o) => if m.type = .response then o.send c (encodingFailure m e) else (.error e, o)
  | (.ok (), o) => (.ok (), o)

/-- Sends replies one after the other, up to the first that cannot be sent; whether all are. -/
def writeReplies (c : FrameCodec) : List Message → Outlet → Bool × Outlet
  | [], o => (true, o)
  | m :: ms, o =>
    match o.sendReply c m with
    | (.error _, o) => (false, o)
    | (.ok (), o) => writeReplies c ms o

end Outlet

end Rpc
