import Rpc.Client.Steps

/-!
# One call among others

The way of one call from its request to a handle, step by step (`CallStage`). Between any two of its moves others do to
the pool whatever they like (`CallMove.other`), only nobody else goes on with what the call is dialing or sending.

A call waits at four stages: for the directory, for a connection to be dialed, for the writer of its connection, and
for its request to be written. At these its caller can give it up (`CallMove.giveUp`), and then the call ends there.

- `CallStage.move?`: what a move asks of the pool, and where the call is after it;
- `CallRun.step?`: one move, where it is possible; `CallRun.Reaches`: what a call among others can come to.
-/

namespace Rpc

/-- The connection that a step goes on dialing. -/
def PoolStep.dial? : PoolStep → Option Nat
  | .dialed n _ | .dialFailed n => some n
  | _ => none

/-- The send that a step goes on with. -/
def PoolStep.send? : PoolStep → Option Nat
  | .beginWrite s | .endSend s _ _ | .abandonSend s => some s
  | _ => none

/-- How a call ends. -/
inductive CallEnd where
  /-- Its request was written; the caller has a handle. -/
  | handle (h : Nat)
  | failed (e : ClientError)
  | givenUp

/-- How far a call has come. -/
inductive CallStage where
  /-- It waits for the directory. -/
  | resolving
  /-- It has an id and an address and is about to ask for a connection. -/
  | routed (id : UInt32) (a : SocketAddress)
  | dialing (id : UInt32) (a : SocketAddress) (n : Nat)
  /-- It has got a connection. -/
  | inHand (id : UInt32) (n : Nat)
  /-- It waits for the writer of its connection. -/
  | queued (id : UInt32) (n s : Nat)
  /-- Some of its request may have been written. -/
  | writing (id : UInt32) (n s : Nat)
  | ended (x : CallEnd)

/-- What a call does next, or somebody else. -/
inductive CallMove where
  /-- The directory and the balancer have answered. -/
  | routes (x : Except ClientError (UInt32 × SocketAddress))
  | asks
  | dials (result : Pool.DialResult) (now : Instant)
  | startsSend
  | beginsWrite
  | endsWrite (result : Pool.WriteResult) (now : Instant)
  /-- The caller gives up. -/
  | giveUp
  /-- A step that is not the call's. -/
  | other (s : PoolStep)

namespace CallStage

/-- The caller can give up at this stage. -/
def waits : CallStage → Bool
  | .resolving | .dialing .. | .queued .. | .writing .. => true
  | _ => false

/-- The number of the send, while it is on its way. -/
def send? : CallStage → Option Nat
  | .queued _ _ s | .writing _ _ s => some s
  | _ => none

/-- The step goes on with what the call is dialing or sending. -/
def owns : CallStage → PoolStep → Bool
  | .dialing _ _ n, t => t.dial? = some n
  | .queued _ _ s, t | .writing _ _ s, t => t.send? = some s
  | _, _ => false

/-- Where a call is after it has asked for a connection. -/
def afterAsking (id : UInt32) (a : SocketAddress) : PoolAnswer → CallStage
  | .acquired (.idle n) => .inHand id n
  | .acquired (.dialing n) => .dialing id a n
  | _ => .ended (.failed .shutDown)

/-- Where a call is after its send has begun. -/
def afterStarting (id : UInt32) (n : Nat) : PoolAnswer → CallStage
  | .sending s => .queued id n s
  | _ => .inHand id n

/-- Where a call is after its send has ended. -/
def afterSending : PoolAnswer → CallStage
  | .sent (.ok h) => .ended (.handle h)
  | .sent (.error e) => .ended (.failed e)
  | _ => .ended .givenUp

/-- What a move asks of the pool, if it asks for something, and where the call is after the answer. -/
def move? : CallStage → CallMove → Option (Option PoolStep × (PoolAnswer → CallStage))
  | .resolving, .routes (.error e) => some (none, fun _ => .ended (.failed e))
  | .resolving, .routes (.ok (id, a)) => some (none, fun _ => .routed id a)
  | .resolving, .giveUp => some (none, fun _ => .ended .givenUp)
  | .routed id a, .asks => some (some (.acquire a), afterAsking id a)
  | .dialing id _ n, .dials .connected now => some (some (.dialed n now), fun _ => .inHand id n)
  | .dialing _ a n, .dials (.failed reason) _ =>
    some (some (.dialFailed n), fun _ => .ended (.failed (.connect a reason)))
  | .dialing _ a n, .dials .timedOut _ => some (some (.dialFailed n), fun _ => .ended (.failed (.connectTimeout a)))
  | .dialing _ _ n, .giveUp => some (some (.dialFailed n), fun _ => .ended .givenUp)
  | .inHand id n, .startsSend => some (some (.startSend n id), afterStarting id n)
  | .queued id n s, .beginsWrite => some (some (.beginWrite s), fun _ => .writing id n s)
  | .queued _ _ s, .endsWrite result now | .writing _ _ s, .endsWrite result now =>
    some (some (.endSend s result now), afterSending)
  | .queued _ _ s, .giveUp | .writing _ _ s, .giveUp => some (some (.abandonSend s), fun _ => .ended .givenUp)
  | stage, .other t => if stage.owns t then none else some (some t, fun _ => stage)
  | _, _ => none

end CallStage

/-- A pool and one call. -/
structure CallRun where
  pool : Pool
  stage : CallStage

namespace CallRun

/-- A call that begins. -/
def start (p : Pool) : CallRun := ⟨p, .resolving⟩

/-- One move, where it is possible, and the step of the pool that it was, if it was one. -/
def step? (c : CallRun) (m : CallMove) : Option (CallRun × List (PoolStep × PoolAnswer)) :=
  match c.stage.move? m with
  | none => none
  | some (none, next) => some (⟨c.pool, next .nothing⟩, [])
  | some (some t, next) => (c.pool.step? t).map fun (p, a) => (⟨p, next a⟩, [(t, a)])

/-- What a call among others comes to, with the steps of the pool on the way. -/
inductive Reaches (c : CallRun) : List (PoolStep × PoolAnswer) → CallRun → Prop
  | refl : Reaches c [] c
  | next {d e : CallRun} {m : CallMove} {run steps : List (PoolStep × PoolAnswer)} :
      Reaches c run d → d.step? m = some (e, steps) → Reaches c (run ++ steps) e

end CallRun

end Rpc
