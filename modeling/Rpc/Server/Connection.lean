import Rpc.Server.Pipeline

/-!
# Runs of a server

Each connection has a reader, which answers what needs no method itself, a single writer, and workers, which run
methods for it (`ServerConnection`). Over all connections no more than so many workers run at once (`ServerRun`).

- `FrameCodec.encodeReply`: a reply that has no frame is replaced by an error;
- `ServerRun.step?`: one step of a reader, a worker, a writer or a peer, where it is possible;
- `ServerRun.Reaches`: what a server can come to.
-/

namespace Rpc

/-! ## Writing replies -/

/-- The error that takes the place of a reply without a frame. -/
def encodingFailure (m : Message) (e : EncodeError) : Message :=
  { type := .response
    serializer := m.serializer
    compressor := m.compressor
    requestId := m.requestId
    payload := .response (.err m.requestId ⟨.invocation, "result could not be encoded: " ++ e.message, none⟩) }

/-- A reply with its frame, or an error with its frame in the reply's place. -/
def FrameCodec.encodeReply (c : FrameCodec) (m : Message) : Except EncodeError (Message × Bytes) :=
  match c.encode m with
  | .ok frame => .ok (m, frame)
  | .error e =>
    if m.type = .response then (c.encode (encodingFailure m e)).map (encodingFailure m e, ·) else .error e

/-- Writes replies one after the other, up to the first that cannot be written; whether all are. -/
def FrameCodec.writeReplies (c : FrameCodec) : List Message → List (Message × Bytes) × Bool
  | [] => ([], true)
  | m :: ms =>
    match c.encodeReply m with
    | .error _ => ([], false)
    | .ok written =>
      let (rest, all) := writeReplies c ms
      (written :: rest, all)

/-! ## Connections -/

/-- What a peer does after the frames that it has sent. -/
inductive Inflow where
  | more
  | ended
  | broken (e : StreamError)

/-- A connection to a peer. -/
structure ServerConnection where
  peer : SocketAddress
  /-- Frames that have come in and have not been looked at. -/
  inbound : List Inbound
  inflow : Inflow
  /-- The reader has not ended. -/
  reading : Bool
  /-- Invocations that wait for a worker. -/
  waiting : List Invocation
  /-- Invocations that run. -/
  running : List Invocation
  /-- Replies of invocations that are over and wait for a place in the queue. -/
  owed : List Message
  /-- Replies that wait for the writer. -/
  queue : List Message
  /-- The writer has not ended. -/
  writing : Bool
  /-- The writer is to end at once. -/
  closed : Bool
  /-- What has been written, in order. -/
  written : List (Message × Bytes)

namespace ServerConnection

/-- How many replies the queue holds. -/
def queueLimit : Nat := 128

/-- A new connection. -/
def opened (peer : SocketAddress) : ServerConnection := ⟨peer, [], .more, true, [], [], [], [], true, false, []⟩

/-- There is room in the queue. -/
def hasRoom (c : ServerConnection) : Bool := c.queue.length < queueLimit

/-- All replies have been written, and there will be no more. -/
def isDone (c : ServerConnection) : Bool :=
  !c.reading && c.waiting.isEmpty && c.running.isEmpty && c.owed.isEmpty && c.queue.isEmpty

end ServerConnection

/-! ## Steps -/

/-- A server in the middle of its work. -/
structure ServerRun (σ : Type) where
  pipeline : Pipeline σ
  codec : FrameCodec
  /-- How many invocations may run at once. -/
  workers : Nat
  connections : Table Nat ServerConnection

/-- A step of a server. -/
inductive ServerStep where
  | opened (n : Nat) (peer : SocketAddress)
  /-- A frame comes in. -/
  | arrived (n : Nat) (i : Inbound)
  /-- Nothing more comes in. -/
  | ended (n : Nat) (inflow : Inflow)
  /-- The reader looks at a frame. -/
  | read (n : Nat) (now : Instant)
  /-- The reader ends. -/
  | endReading (n : Nat)
  /-- The invocation at a place among those that wait gets a worker. -/
  | start (n place : Nat)
  /-- The invocation at a place among those that run is over. -/
  | finish (n place : Nat)
  /-- A reply that is owed gets a place in the queue. -/
  | enqueue (n : Nat)
  | write (n : Nat)
  | endWriting (n : Nat)
  | shutdown

namespace ServerRun

variable {σ : Type}

/-- How many invocations run. -/
def running (r : ServerRun σ) : Nat := r.connections.total (·.running.length)

/-- The server with a connection set. -/
def put (r : ServerRun σ) (n : Nat) (c : ServerConnection) : ServerRun σ :=
  { r with connections := r.connections.set n c }

/-- The connection with a reply in its queue, where there is room for it. -/
def queued (c : ServerConnection) : Option Message → Option ServerConnection
  | none => some c
  | some m => if c.hasRoom then some { c with queue := c.queue ++ [m] } else none

/-- The reader of a connection looks at a frame, and what it answers itself goes into the queue at once, so that it can
only look at such a frame when there is room. A reader that asks the filters and then waits for room is left out, and
with it what other readers ask the filters in the meantime. -/
def readFrame (r : ServerRun σ) (n : Nat) (c : ServerConnection) (i : Inbound) (now : Instant) :
    Option (ServerRun σ) :=
  match i with
  | .error e => (queued c (r.pipeline.reject e)).map (r.put n)
  | .ok m =>
    let (pipeline, admission) := r.pipeline.receive c.peer now m
    let r := { r with pipeline := pipeline }
    match admission with
    | .reply m => (queued c (some m)).map (r.put n)
    | .invoke i => some (r.put n { c with waiting := c.waiting ++ [i] })
    | .ignore => some (r.put n c)

/-- The connection after a shutdown: nothing is read, written or started any more. -/
def closedDown (c : ServerConnection) : ServerConnection := { c with reading := false, waiting := [], closed := true }

/-- What a step does to the connection it is about. A reader looks at frames as long as the writer lives. Runs are left
out in which it outlives the writer and admits more, up to the first answer of its own that has nowhere to go; nothing
that comes of these is ever written. -/
def stepAt (r : ServerRun σ) (n : Nat) (c : ServerConnection) : ServerStep → Option (ServerRun σ)
  | .arrived _ i =>
    match c.inflow with
    | .more => some (r.put n { c with inbound := c.inbound ++ [i] })
    | _ => none
  | .ended _ inflow =>
    match c.inflow with
    | .more => some (r.put n { c with inflow := inflow })
    | _ => none
  | .read _ now =>
    match c.inbound with
    | i :: rest => if c.reading && c.writing then r.readFrame n { c with inbound := rest } i now else none
    | [] => none
  | .endReading _ =>
    if c.reading then
      if !c.writing then some (r.put n { c with reading := false })
      else
        match c.inbound, c.inflow with
        | [], .ended => some (r.put n { c with reading := false })
        | [], .broken _ => some (r.put n { c with reading := false, closed := true })
        | _, _ => none
    else none
  | .start _ place =>
    match c.waiting[place]? with
    | some i =>
      if r.running < r.workers then
        some (r.put n { c with waiting := c.waiting.eraseIdx place, running := c.running ++ [i] })
      else none
    | none => none
  | .finish _ place =>
    match c.running[place]? with
    | some i =>
      some (r.put n
        { c with running := c.running.eraseIdx place, owed := c.owed ++ [(i.run r.pipeline.services).result] })
    | none => none
  | .enqueue _ =>
    match c.owed with
    | m :: rest => if c.writing then (queued { c with owed := rest } (some m)).map (r.put n)
      else some (r.put n { c with owed := rest })
    | [] => none
  | .write _ =>
    match c.queue with
    | m :: rest =>
      if c.writing then
        match r.codec.encodeReply m with
        | .ok written => some (r.put n { c with queue := rest, written := c.written ++ [written] })
        | .error _ => some (r.put n { c with queue := rest, writing := false })
      else none
    | [] => none
  | .endWriting _ => if c.writing && (c.closed || c.isDone) then some (r.put n { c with writing := false }) else none
  | _ => none

/-- One step, where it is possible. -/
def step? (r : ServerRun σ) (s : ServerStep) : Option (ServerRun σ) :=
  match s with
  | .opened n peer => if r.connections.contains n then none else some (r.put n (.opened peer))
  | .shutdown => some { r with connections := r.connections.map fun _ c => closedDown c }
  | .arrived n _ | .ended n _ | .read n _ | .endReading n | .start n _ | .finish n _ | .enqueue n | .write n
  | .endWriting n => (r.connections.get? n).bind fun c => r.stepAt n c s

/-- A server that steps lead to. -/
inductive Reaches : ServerRun σ → List ServerStep → ServerRun σ → Prop
  | refl (r : ServerRun σ) : Reaches r [] r
  | next {q r t : ServerRun σ} {s : ServerStep} {run : List ServerStep} :
      q.step? s = some r → Reaches r run t → Reaches q (s :: run) t

end ServerRun

end Rpc
