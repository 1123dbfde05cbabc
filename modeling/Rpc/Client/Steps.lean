import Rpc.Client.Pool

/-!
# Runs of a pool

All that callers, readers, peers and time can do to a pool, one step after the other in any order (`PoolStep`). A step
that is not possible in a state is `none` (`Pool.step?`); `Pool.Reaches` is what a pool can come to. Peers send
whatever frames they like.
-/

namespace Rpc

/-- A step of a pool. -/
inductive PoolStep where
  | acquire (a : SocketAddress)
  | dialed (n : Nat) (now : Instant)
  | dialFailed (n : Nat)
  /-- A caller who has the connection begins to send a request. -/
  | startSend (n : Nat) (id : UInt32)
  | beginWrite (s : Nat)
  | endSend (s : Nat) (result : Pool.WriteResult) (now : Instant)
  | abandonSend (s : Nat)
  | receive (n : Nat) (i : Inbound) (now : Instant)
  | handOver (n : Nat)
  /-- The peer is gone or broke the protocol, or the connection is closed. -/
  | endReading (n : Nat)
  | release (n : Nat)
  | close (n : Nat)
  | checkConnection (reclaimAfter : Nat) (now : Instant) (probeWritten : Bool) (n : Nat)
  | prune (a : SocketAddress)
  | shutdown
  /-- All waiting requests are lost. -/
  | clear
  | poll (handle : Nat)
  | expire (handle after : Nat)
  | drop (handle : Nat)

/-- What somebody learns from a step. -/
inductive PoolAnswer where
  | nothing
  | acquired (x : Pool.Acquired)
  | sending (s : Nat)
  | sent (x : Except ClientError Nat)
  | outcome (o : Outcome)

namespace Pool

/-- The writer of a connection is free. -/
def writerFree (p : Pool) (n : Nat) : Bool := ((p.connections.get? n).map (!·.writerTaken)).getD false

/-- The reader of a connection can take a frame or end. -/
def isReading (p : Pool) (n : Nat) : Bool :=
  match p.connections.get? n with
  | none => false
  | some c =>
    match c.reader with
    | .reading => true
    | _ => false

/-- The reader of a connection holds a response to a request that is not being written. -/
def canHandOver (p : Pool) (n : Nat) : Bool :=
  match p.connections.get? n with
  | none => false
  | some c =>
    match c.reader with
    | .holding id _ => id ∉ c.writing
    | _ => false

/-- A send can end so: only a started one is written or found not to be writable. -/
def canEnd (phase : SendPhase) : WriteResult → Bool
  | .timedOut _ => true
  | _ => phase = .started

/-- A step that changes the pool and tells nothing, where it is possible. -/
def silently (possible : Bool) (p : Pool) : Option (Pool × PoolAnswer) :=
  if possible then some (p, .nothing) else none

/-- One step, where it is possible, and what somebody learns from it. -/
def step? (p : Pool) : PoolStep → Option (Pool × PoolAnswer)
  | .acquire a =>
    let (p, x) := p.acquire a
    some (p, .acquired x)
  | .dialed n now => silently (p.dials.contains n) (p.dialed n now)
  | .dialFailed n => silently (p.dials.contains n) (p.dialFailed n)
  | .startSend n id =>
    if p.connections.contains n then
      let (p, s) := p.startSend n id
      some (p, .sending s)
    else none
  | .beginWrite s =>
    match p.sends.get? s with
    | some send => silently (send.phase = .queued && p.writerFree send.connection) (p.beginWrite s)
    | none => none
  | .endSend s result now =>
    match p.sends.get? s with
    | none => none
    | some send =>
      if canEnd send.phase result then
        match p.endSend s result now with
        | (p, some x) => some (p, .sent x)
        | (_, none) => none
      else none
  | .abandonSend s => silently (p.sends.contains s) (p.abandonSend s)
  | .receive n i now => silently (p.isReading n) (p.receive n i now)
  | .handOver n => silently (p.canHandOver n) (p.handOver n)
  | .endReading n => silently (p.isReading n) (p.endReading n)
  | .release n => silently true (p.update n (·.release))
  | .close n => silently true (p.update n (·.close))
  | .checkConnection reclaimAfter now probeWritten n =>
    silently true (p.checkConnection reclaimAfter now probeWritten n)
  | .prune a => silently true (p.prune a)
  | .shutdown => silently true p.shutdown
  | .clear => silently true { p with pending := p.pending.clear }
  | .poll handle =>
    match p.pending.poll handle with
    | (t, some o) => some ({ p with pending := t }, .outcome o)
    | (_, none) => none
  | .expire handle after =>
    match p.pending.expire handle after with
    | (t, some o) => some ({ p with pending := t }, .outcome o)
    | (_, none) => none
  | .drop handle => silently true { p with pending := p.pending.drop handle }

/-- A pool that steps lead to, with what was learnt on the way. -/
inductive Reaches : Pool → List (PoolStep × PoolAnswer) → Pool → Prop
  | refl (p : Pool) : Reaches p [] p
  | next {p q r : Pool} {s : PoolStep} {a : PoolAnswer} {run : List (PoolStep × PoolAnswer)} :
      p.step? s = some (q, a) → Reaches q run r → Reaches p ((s, a) :: run) r

end Pool

end Rpc
