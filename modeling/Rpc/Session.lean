import Rpc.Client.Client
import Rpc.Client.Steps
import Rpc.Server.Connection

/-!
# A client and a server

A client whose connections all lead to one server, the server, and the bytes that are on their way between them
(`Session`). What one side writes to a connection is carried to the other side in pieces of any length (`Flow`), and
taken off there frame by frame. Callers, readers, workers, writers and the network take their steps in any order
(`Session.step?`); connections stay open, and nobody gives up a call or runs out of time.

- `RemoteCall`: a request as a caller sends it;
- `Plan`: what client, server and wires do together in a step; `Session.plan?`: where a step is possible, its plan;
- `Session.Reaches`: what a session can come to, with what happened on the way (`SessionNote`).
-/

namespace Rpc

/-! ## Bytes on their way -/

/-- The bytes that go one way on a connection. -/
structure Flow where
  /-- What has been written and is still on its way. -/
  sent : Bytes
  /-- What has arrived and has not been taken off as a frame. -/
  arrived : Bytes

namespace Flow

/-- Nothing has been written. -/
def empty : Flow := ⟨[], []⟩

/-- All bytes that have been written and not been taken off, in order. -/
def bytes (f : Flow) : Bytes := f.arrived ++ f.sent

/-- More bytes are written. -/
def put (f : Flow) (more : Bytes) : Flow := { f with sent := f.sent ++ more }

/-- So many bytes arrive. -/
def carry (f : Flow) (k : Nat) : Flow := ⟨f.sent.drop k, f.arrived ++ f.sent.take k⟩

/-- Takes off the frame at the front, if it has arrived as a whole. -/
def take? (f : Flow) (c : FrameCodec) : Option (Inbound × Flow) :=
  match c.decode f.arrived with
  | .item i rest => some (i, { f with arrived := rest })
  | _ => none

end Flow

/-- The bytes on their way on a connection: up to the server and down to the client. -/
structure Wire where
  up : Flow
  down : Flow

/-- A new connection carries nothing. -/
def Wire.opened : Wire := ⟨.empty, .empty⟩

/-! ## Sessions -/

/-- A request as a caller sends it, under an id and with a serializer and a compressor. -/
structure RemoteCall where
  requestId : UInt32
  request : Request
  serializer : UInt8
  compressor : UInt8

/-- The message that carries a request. -/
def RemoteCall.message (x : RemoteCall) : Message :=
  { Message.request x.requestId x.request with serializer := x.serializer, compressor := x.compressor }

/-- The request that a client sends for its caller. -/
def Client.remoteCall (c : Client) (r : Request) (o : CallOptions) (id : UInt32) : RemoteCall :=
  ⟨id, r, o.serializer.getD c.serializer, o.compressor.getD c.compressor⟩

/-- A client's message carries the request that its caller sends. -/
theorem Client.message_remoteCall (c : Client) (r : Request) (o : CallOptions) (id : UInt32) :
    (c.remoteCall r o id).message = c.messageOf r o id := rfl

/-- A client, a server and what is on its way between them. -/
structure Session (σ : Type) where
  /-- The codec of the client. -/
  codec : FrameCodec
  pool : Pool
  /-- The messages of sends that have not been put on a wire. -/
  outgoing : Table Nat Message
  wires : Table Nat Wire
  server : ServerRun σ

/-- A step of a session. -/
inductive SessionStep where
  /-- A step of the client that puts nothing on a wire and takes nothing off one. -/
  | client (s : PoolStep)
  /-- A connection comes about, from an address of the client. -/
  | connect (n : Nat) (peer : SocketAddress) (now : Instant)
  /-- A caller who has the connection begins to send a request. -/
  | send (n : Nat) (x : RemoteCall)
  /-- The frame of a send is put on the wire. -/
  | put (s : Nat)
  /-- A send is over, all of its frame having been put on the wire. -/
  | written (s : Nat) (now : Instant)
  /-- The client looks at a connection; an idle one is sent a heartbeat. -/
  | probe (n reclaimAfter : Nat) (now : Instant)
  | carryUp (n k : Nat)
  | carryDown (n k : Nat)
  /-- The server takes a frame off the wire. -/
  | arrive (n : Nat)
  /-- A step of a reader or a worker of the server. -/
  | serve (s : ServerStep)
  /-- The server writes a reply. -/
  | reply (n : Nat)
  /-- The reader of a connection of the client takes a frame off the wire. -/
  | receive (n : Nat) (now : Instant)

/-- What client, server and wires do together in a step. -/
structure Plan where
  client : Option PoolStep := none
  server : Option ServerStep := none
  /-- The call about which the server's filters are asked. -/
  call : Option Call := none
  outgoing : Table Nat Message
  wires : Table Nat Wire

/-- What happened in a step: what the client did and somebody learnt from it, what the server did, and the call about
which its filters were asked. -/
structure SessionNote where
  client : Option (PoolStep × PoolAnswer)
  server : Option ServerStep
  call : Option Call

/-- Steps of a client that put nothing on a wire and take nothing off one. Nobody closes a connection or gives up. -/
def PoolStep.isLocal : PoolStep → Bool
  | .acquire _ | .dialFailed _ | .beginWrite _ | .handOver _ | .release _ | .prune _ | .poll _ => true
  | _ => false

/-- Steps of readers and workers of a server. -/
def ServerStep.isServing : ServerStep → Bool
  | .read .. | .start .. | .finish .. | .enqueue _ => true
  | _ => false

/-- The call about which filters are asked for a frame. -/
def Inbound.call? (peer : SocketAddress) (now : Instant) : Inbound → Option Call
  | .ok m =>
    match m.type, m.payload with
    | .request, .request r => some ⟨peer, m.requestId, r, now⟩
    | _, _ => none
  | .error _ => none

namespace Session

variable {σ : Type}

/-- A client without connections and a server to which nobody has connected. -/
def start (codec : FrameCodec) (pipeline : Pipeline σ) (serverCodec : FrameCodec) (workers : Nat) : Session σ :=
  ⟨codec, .empty, .empty, .empty, ⟨pipeline, serverCodec, workers, .empty⟩⟩

/-- The call about which the filters are asked in a step of the server. -/
def callOf (s : Session σ) : ServerStep → Option Call
  | .read n now => do
    let c ← s.server.connections.get? n
    let i ← c.inbound.head?
    i.call? c.peer now
  | _ => none

/-- What is done in a step, where client and server can do their part. -/
def plan? (s : Session σ) : SessionStep → Option Plan
  | .client t => if t.isLocal then some { client := some t, outgoing := s.outgoing, wires := s.wires } else none
  | .connect n peer now => some
    { client := some (.dialed n now)
      server := some (.opened n peer)
      outgoing := s.outgoing
      wires := s.wires.set n .opened }
  | .send n x => some
    { client := some (.startSend n x.requestId)
      outgoing := s.outgoing.set s.pool.nextSend x.message
      wires := s.wires }
  | .put k => do
    let m ← s.outgoing.get? k
    let x ← s.pool.sends.get? k
    let w ← s.wires.get? x.connection
    let frame ← (s.codec.encode m).toOption
    if x.phase = .started then
      some { outgoing := s.outgoing.erase k, wires := s.wires.set x.connection { w with up := w.up.put frame } }
    else none
  | .written k now =>
    if s.outgoing.contains k then none
    else some { client := some (.endSend k .written now), outgoing := s.outgoing, wires := s.wires }
  | .probe n reclaimAfter now =>
    let look := PoolStep.checkConnection reclaimAfter now true n
    if s.pool.isIdle n then do
      let w ← s.wires.get? n
      let frame ← (s.codec.encode (.heartbeat s.pool.nextProbe)).toOption
      some { client := some look, outgoing := s.outgoing, wires := s.wires.set n { w with up := w.up.put frame } }
    else some { client := some look, outgoing := s.outgoing, wires := s.wires }
  | .carryUp n k => do
    let w ← s.wires.get? n
    if 0 < k ∧ k ≤ w.up.sent.length then
      some { outgoing := s.outgoing, wires := s.wires.set n { w with up := w.up.carry k } }
    else none
  | .carryDown n k => do
    let w ← s.wires.get? n
    if 0 < k ∧ k ≤ w.down.sent.length then
      some { outgoing := s.outgoing, wires := s.wires.set n { w with down := w.down.carry k } }
    else none
  | .arrive n => do
    let w ← s.wires.get? n
    let (i, up) ← w.up.take? s.server.codec
    some { server := some (.arrived n i), outgoing := s.outgoing, wires := s.wires.set n { w with up := up } }
  | .serve t =>
    if t.isServing then some { server := some t, call := s.callOf t, outgoing := s.outgoing, wires := s.wires }
    else none
  | .reply n => do
    let w ← s.wires.get? n
    let c ← s.server.connections.get? n
    let m ← c.queue.head?
    let (_, frame) ← (s.server.codec.encodeReply m).toOption
    some
      { server := some (.write n)
        outgoing := s.outgoing
        wires := s.wires.set n { w with down := w.down.put frame } }
  | .receive n now => do
    let w ← s.wires.get? n
    let (i, down) ← w.down.take? s.codec
    some { client := some (.receive n i now), outgoing := s.outgoing, wires := s.wires.set n { w with down := down } }

/-- The client's part of a step, if it has one. -/
def clientPart (p : Pool) : Option PoolStep → Option (Pool × Option (PoolStep × PoolAnswer))
  | none => some (p, none)
  | some t => (p.step? t).map fun (p, a) => (p, some (t, a))

/-- The server's part of a step, if it has one. -/
def serverPart (r : ServerRun σ) : Option ServerStep → Option (ServerRun σ)
  | none => some r
  | some t => r.step? t

/-- One step, where it is possible, and what happened in it. -/
def step? (s : Session σ) (e : SessionStep) : Option (Session σ × SessionNote) := do
  let plan ← s.plan? e
  let (pool, done) ← clientPart s.pool plan.client
  let server ← serverPart s.server plan.server
  some (⟨s.codec, pool, plan.outgoing, plan.wires, server⟩, ⟨done, plan.server, plan.call⟩)

/-- A session that steps lead to, with what happened on the way. -/
inductive Reaches : Session σ → List (SessionStep × SessionNote) → Session σ → Prop
  | refl (s : Session σ) : Reaches s [] s
  | next {s t u : Session σ} {e : SessionStep} {note : SessionNote} {run : List (SessionStep × SessionNote)} :
      s.step? e = some (t, note) → Reaches t run u → Reaches s ((e, note) :: run) u

end Session

end Rpc
