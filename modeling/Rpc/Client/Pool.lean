import Rpc.Client.Connection
import Rpc.Config.Client

/-!
# Pools of connections

A pool holds the connections to each address, and the requests that travel on them (`Pool`). It has no limit and no
queue: who asks for a connection gets an idle one or dials a new one.

- `Pool.acquire`, `Pool.dialed`, `Pool.connect`: getting a connection;
- `Pool.startSend` to `Pool.endSend` and `Pool.abandonSend`: a request on its way out. It waits for its response only
  once it is written as a whole;
- `Pool.receive`, `Pool.handOver`, `Pool.endReading`: the reader of a connection;
- `Pool.checkHealth`: idle connections are probed, and those that nobody gave back are freed;
- `Pool.shutdown`.
-/

namespace Rpc

/-- How far a request has come on its way out. -/
inductive SendPhase where
  /-- It waits for the writer of its connection. -/
  | queued
  /-- Some of it may have been written. -/
  | started
  deriving DecidableEq

/-- A request on its way out. -/
structure Send where
  connection : Nat
  requestId : UInt32
  phase : SendPhase

/-- The connections to each address, and the requests on them. -/
structure Pool where
  /-- All connections that there have been, by their numbers. -/
  connections : Table Nat Connection
  /-- The numbers of the connections to each address that was ever asked for. -/
  members : Table SocketAddress (List Nat)
  /-- The connections that are still being dialed. -/
  dials : Table Nat SocketAddress
  sends : Table Nat Send
  /-- The requests that wait for responses, each owned by its connection. -/
  pending : Pending Nat
  /-- The number of the next connection to be dialed. Counted in 64 bits it would begin again at zero after `2 ^ 64`
  connections; that many, one in a nanosecond, take more than five hundred years. -/
  nextConnection : Nat
  nextSend : Nat
  nextProbe : UInt32
  shutDown : Bool

namespace Pool

/-- A pool without connections. -/
def empty : Pool := ⟨.empty, .empty, .empty, .empty, .empty, 0, 0, 0, false⟩

instance : Inhabited Pool := ⟨empty⟩

/-- The pool with a connection changed. -/
def update (p : Pool) (n : Nat) (f : Connection → Connection) : Pool :=
  { p with connections := p.connections.modify n f }

/-- The connection is open; one that never was is not. -/
def isOpen (p : Pool) (n : Nat) : Bool := ((p.connections.get? n).map (!·.closed)).getD false

/-- The connection is open and not checked out. -/
def isIdle (p : Pool) (n : Nat) : Bool := ((p.connections.get? n).map (·.isIdle)).getD false

/-- The open connections to an address. -/
def openMembers (p : Pool) (a : SocketAddress) : List Nat := ((p.members.get? a).getD []).filter p.isOpen

/-- How many connections to an address are open and how many of them idle, if it was ever asked for. -/
def counts? (p : Pool) (a : SocketAddress) : Option (Nat × Nat) :=
  (p.members.get? a).map fun ns => ((ns.filter p.isOpen).length, (ns.filter p.isIdle).length)

/-! ## Getting a connection -/

/-- What comes of asking for a connection. -/
inductive Acquired where
  | refused
  | idle (n : Nat)
  | dialing (n : Nat)

/-- Checks out an idle connection to an address, or begins to dial one. -/
def acquire (p : Pool) (a : SocketAddress) : Pool × Acquired :=
  if p.shutDown then (p, .refused)
  else
    let ns := p.openMembers a
    let p := { p with members := p.members.set a ns }
    match ns.find? p.isIdle with
    | some n => (p.update n fun c => { c with busy := true }, .idle n)
    | none =>
      let n := p.nextConnection
      ({ p with dials := p.dials.set n a, nextConnection := n + 1 }, .dialing n)

/-- A dialed connection has come about. It is closed at once if the pool has been shut down. -/
def dialed (p : Pool) (n : Nat) (now : Instant) : Pool :=
  match p.dials.get? n with
  | none => p
  | some a =>
    let c := Connection.opened a now
    { p with
      dials := p.dials.erase n
      connections := p.connections.set n { c with closed := p.shutDown }
      members := p.members.modify a (· ++ [n]) }

/-- A connection will not come about. -/
def dialFailed (p : Pool) (n : Nat) : Pool := { p with dials := p.dials.erase n }

/-- What comes of dialing an address. -/
inductive DialResult where
  | connected
  | failed (reason : String)
  | timedOut

/-- Gets a connection to an address by way of a network. -/
def connect (p : Pool) (a : SocketAddress) (dial : SocketAddress → DialResult) (now : Instant) :
    Pool × Except ClientError Nat :=
  match p.acquire a with
  | (p, .refused) => (p, .error .shutDown)
  | (p, .idle n) => (p, .ok n)
  | (p, .dialing n) =>
    match dial a with
    | .connected => (p.dialed n now, .ok n)
    | .failed reason => (p.dialFailed n, .error (.connect a reason))
    | .timedOut => (p.dialFailed n, .error (.connectTimeout a))

/-! ## Sending -/

/-- How the writing of a request ends. -/
inductive WriteResult where
  | written
  | unencodable (e : EncodeError)
  | failed (reason : String)
  /-- It took more than so many nanoseconds. -/
  | timedOut (after : Nat)

/-- Begins to send a request on a connection; the number of the send. -/
def startSend (p : Pool) (n : Nat) (id : UInt32) : Pool × Nat :=
  let p := p.update n (·.startWriting id)
  ({ p with sends := p.sends.set p.nextSend ⟨n, id, .queued⟩, nextSend := p.nextSend + 1 }, p.nextSend)

/-- A send gets the writer of its connection. -/
def beginWrite (p : Pool) (s : Nat) : Pool :=
  match p.sends.get? s with
  | none => p
  | some send =>
    { p.update send.connection (fun c => { c with writerTaken := true }) with
      sends := p.sends.set s { send with phase := .started } }

/-- Takes a send out: its id is no longer being written, and the writer is free if it had it. -/
def forget (p : Pool) (s : Nat) (send : Send) : Pool :=
  { p.update send.connection (fun c =>
      let c := c.stopWriting send.requestId
      if send.phase = .started then { c with writerTaken := false } else c) with
    sends := p.sends.erase s }

/-- A send ends; the handle of its request if it was written. A connection on which a write failed or did not end in
time is closed, one on which nothing was written is idle again. -/
def endSend (p : Pool) (s : Nat) (result : WriteResult) (now : Instant) : Pool × Option (Except ClientError Nat) :=
  match p.sends.get? s with
  | none => (p, none)
  | some send =>
    let n := send.connection
    let p := p.update n (·.touch now)
    match result with
    | .written =>
      let p := p.update n (·.expect send.requestId)
      let (pending, handle) := p.pending.insert send.requestId n
      ({ p with pending := pending }.forget s send, some (.ok handle))
    | .unencodable e => ((p.update n (·.release)).forget s send, some (.error (.transport (.encode e))))
    | .failed reason => ((p.update n (·.close)).forget s send, some (.error (.transport (.io reason))))
    | .timedOut after =>
      let p := p.update n fun c => if send.phase = .started then c.close else c.release
      (p.forget s send, some (.error (.timeout after)))

/-- The caller gives up a send. -/
def abandonSend (p : Pool) (s : Nat) : Pool :=
  match p.sends.get? s with
  | none => p
  | some send =>
    (p.update send.connection fun c => if send.phase = .started then c.close else c.release).forget s send

/-! ## Reading -/

/-- The reader of a connection takes a frame. -/
def receive (p : Pool) (n : Nat) (i : Inbound) (now : Instant) : Pool := p.update n (·.receive i now)

/-- The reader hands on the response that it holds, if the request was sent on its connection and not answered yet.
The connection is idle before the caller hears of the response. -/
def handOver (p : Pool) (n : Nat) : Pool :=
  match p.connections.get? n with
  | some c =>
    match c.reader with
    | .holding id r =>
      let p := p.update n fun c => { c with reader := .reading }
      if id ∈ c.outstanding then
        let p := p.update n (·.answered id)
        { p with pending := (p.pending.complete id r).1 }
      else p
    | _ => p
  | none => p

/-- The reader of a connection ends. It closes the connection and fails the requests that it carried. -/
def endReading (p : Pool) (n : Nat) : Pool :=
  let p := p.update n fun c => { c.close with reader := .finished }
  { p with pending := (p.pending.removeOwnedBy (· == n)).1 }

/-! ## Health -/

/-- Looks at one connection: an idle one is probed, and closed if the probe cannot be written. One that is checked out
but has been quiet and carries no waiting request is given back, or closed if it still owes a response. -/
def checkConnection (p : Pool) (reclaimAfter : Nat) (now : Instant) (probeWritten : Bool) (n : Nat) : Pool :=
  match p.connections.get? n with
  | none => p
  | some c =>
    if c.closed then p
    else if !c.busy then
      let p := { p with nextProbe := p.nextProbe + 1 }
      if probeWritten then p else p.update n (·.close)
    else if c.quietFor now < reclaimAfter || p.pending.anyOwnedBy (· == n) then p
    else if c.outstanding.isEmpty then p.update n (·.release)
    else p.update n (·.close)

/-- Forgets the closed connections to an address. -/
def prune (p : Pool) (a : SocketAddress) : Pool :=
  { p with members := p.members.modify a fun ns => ns.filter p.isOpen }

/-- Looks at all connections to an address and forgets the closed ones. -/
def checkAddress (reclaimAfter : Nat) (now : Instant) (probeWritten : Nat → Bool) (p : Pool) (a : SocketAddress) :
    Pool :=
  (((p.members.get? a).getD []).foldl (fun p n => p.checkConnection reclaimAfter now (probeWritten n) n) p).prune a

/-- One health pass, with which probes can be written. -/
def checkHealth (p : Pool) (reclaimAfter : Nat) (now : Instant) (probeWritten : Nat → Bool) : Pool :=
  p.members.keys.foldl (checkAddress reclaimAfter now probeWritten) p

/-! ## The end -/

/-- Closes all connections, for good. -/
def shutdown (p : Pool) : Pool :=
  { p with
    shutDown := true
    connections := p.connections.map fun _ c => { c with closed := true }
    members := .empty }

end Pool

end Rpc
