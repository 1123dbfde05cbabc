import Rpc.Server.Connection

/-!
# What a step does to a connection of a server

- `due`: the reply that a frame is owed, as its type and its id;
- `Pipeline.look`: what the reader decides about a frame, which promises what is due (`Pipeline.look_promises`);
- `ServerRun.log`: what happened on a connection on a run;
- `Turn`: what the steps about a connection do to it and its log; `ServerRun.turn_of_stepAt`: they do nothing else;
- `ServerRun.step_cases`: what steps do to a server.
-/

namespace Rpc

/-! ## What is owed -/

/-- The type and the id of the reply that a frame is owed, if it is owed one. -/
def due : Inbound → Option (MessageType × UInt32)
  | .ok m =>
    match m.type with
    | .request => some (.response, m.requestId)
    | .heartbeatRequest => some (.heartbeatResponse, m.requestId)
    | _ => none
  | .error e =>
    if e.header.type = MessageType.request.toByte then some (.response, e.header.requestId) else none

/-- The type and the id of the reply to which a decision leads, if it leads to one. -/
def Admission.promises : Admission → Option (MessageType × UInt32)
  | .reply m => some (m.type, m.requestId)
  | .invoke i => some (.response, i.message.requestId)
  | .ignore => none

/-- The reply that the reader makes. -/
def Admission.reply? : Admission → Option Message
  | .reply m => some m
  | _ => none

/-- The invocation that the reader leaves to a worker. -/
def Admission.invocation? : Admission → Option Invocation
  | .invoke i => some i
  | _ => none

/-- What the reader decides about a frame. -/
def Pipeline.look {σ : Type} (p : Pipeline σ) (peer : SocketAddress) (now : Instant) :
    Inbound → Pipeline σ × Admission
  | .ok m => p.receive peer now m
  | .error e => (p, ((p.reject e).map Admission.reply).getD .ignore)

/-- **A decision promises what is due.** -/
theorem Pipeline.look_promises {σ : Type} (p : Pipeline σ) (peer : SocketAddress) (now : Instant) (i : Inbound) :
    (p.look peer now i).2.promises = due i := by
  cases i with
  | error e =>
    simp only [Pipeline.look, Pipeline.reject, due]
    by_cases h : e.header.type = MessageType.request.toByte
    · simp [h, Admission.promises]
    · simp [h, Admission.promises]
  | ok m =>
    simp only [Pipeline.look, Pipeline.receive, due]
    cases m.type with
    | request =>
      dsimp only
      split
      · split <;> rfl
      · rfl
    | heartbeatRequest | response | heartbeatResponse => rfl

/-- Only the filters learn from a frame. -/
theorem Pipeline.look_services {σ : Type} (p : Pipeline σ) (peer : SocketAddress) (now : Instant) (i : Inbound) :
    (p.look peer now i).1.services = p.services := by
  cases i with
  | error e => rfl
  | ok m =>
    simp only [Pipeline.look, Pipeline.receive]
    cases m.type with
    | request =>
      dsimp only
      split
      · split <;> rfl
      · rfl
    | heartbeatRequest | response | heartbeatResponse => rfl

/-! ## What happened on a connection -/

/-- What happened on a connection, each kind of thing in its order. -/
structure ConnectionLog where
  /-- The frames that came in. -/
  arrived : List Inbound
  /-- The frames that the reader looked at, and what it decided. -/
  seen : List (Inbound × Admission)
  /-- The invocations that were started. -/
  started : List Invocation
  /-- The invocations that are over. -/
  finished : List Invocation
  /-- The replies that the writer took up. -/
  tried : List Message

namespace ConnectionLog

/-- Nothing. -/
def empty : ConnectionLog := ⟨[], [], [], [], []⟩

/-- The replies that the reader made. -/
def readerReplies (log : ConnectionLog) : List Message := log.seen.filterMap (·.2.reply?)

/-- The requests that all filters allowed. -/
def admitted (log : ConnectionLog) : List Invocation := log.seen.filterMap (·.2.invocation?)

end ConnectionLog

/-- The connection that a step is about, if it is about one that is there. -/
def ServerStep.connection? : ServerStep → Option Nat
  | .arrived n _ | .ended n _ | .read n _ | .endReading n | .start n _ | .finish n _ | .enqueue n | .write n
  | .endWriting n => some n
  | .opened .. | .shutdown => none

namespace ServerRun

variable {σ : Type}

/-- The log of a connection after a step about it. -/
def noteAt (p : Pipeline σ) (c : ServerConnection) (log : ConnectionLog) : ServerStep → ConnectionLog
  | .arrived _ i => { log with arrived := log.arrived ++ [i] }
  | .read _ now => { log with seen := log.seen ++ (c.inbound.head?.map fun i => (i, (p.look c.peer now i).2)).toList }
  | .start _ place => { log with started := log.started ++ c.waiting[place]?.toList }
  | .finish _ place => { log with finished := log.finished ++ c.running[place]?.toList }
  | .write _ => { log with tried := log.tried ++ c.queue.head?.toList }
  | _ => log

/-- The log of a connection after a step. -/
def note (r : ServerRun σ) (n : Nat) (log : ConnectionLog) (s : ServerStep) : ConnectionLog :=
  if s.connection? = some n then ((r.connections.get? n).map fun c => noteAt r.pipeline c log s).getD log else log

/-- The log of a connection after a run that starts with a log. -/
def logFrom (n : Nat) : ServerRun σ → List ServerStep → ConnectionLog → ConnectionLog
  | _, [], log => log
  | r, s :: run, log =>
    match r.step? s with
    | some q => logFrom n q run (r.note n log s)
    | none => log

/-- What happened on a connection on a run. -/
def log (r : ServerRun σ) (n : Nat) (run : List ServerStep) : ConnectionLog := logFrom n r run .empty

end ServerRun

/-! ## Turns -/

/-- The connection after the reader has decided about a frame. -/
def ServerConnection.takes (c : ServerConnection) : Admission → ServerConnection
  | .reply m => { c with queue := c.queue ++ [m] }
  | .invoke i => { c with waiting := c.waiting ++ [i] }
  | .ignore => c

/-- What steps do to a connection and its log, with the services and the codec of its server. -/
inductive Turn (services : ServiceTable) (codec : FrameCodec) (c : ServerConnection) (log : ConnectionLog) :
    ServerStep → ServerConnection → ConnectionLog → Prop
  | arrived {n : Nat} {i : Inbound} : c.inflow = .more →
      Turn services codec c log (.arrived n i) { c with inbound := c.inbound ++ [i] }
        { log with arrived := log.arrived ++ [i] }
  | ended {n : Nat} {inflow : Inflow} : c.inflow = .more →
      Turn services codec c log (.ended n inflow) { c with inflow := inflow } log
  | saw {n : Nat} {now : Instant} {i : Inbound} {rest : List Inbound} {a : Admission} : c.inbound = i :: rest →
      c.reading = true → c.writing = true → a.promises = due i →
      Turn services codec c log (.read n now) (ServerConnection.takes { c with inbound := rest } a)
        { log with seen := log.seen ++ [(i, a)] }
  | endedReading {n : Nat} : c.reading = true → c.writing = false ∨ c.inbound = [] ∧ c.inflow = .ended →
      Turn services codec c log (.endReading n) { c with reading := false } log
  | broke {n : Nat} {e : StreamError} : c.reading = true → c.inflow = .broken e →
      Turn services codec c log (.endReading n) { c with reading := false, closed := true } log
  | started {n place : Nat} {i : Invocation} : c.waiting[place]? = some i →
      Turn services codec c log (.start n place)
        { c with waiting := c.waiting.eraseIdx place, running := c.running ++ [i] }
        { log with started := log.started ++ [i] }
  | finished {n place : Nat} {i : Invocation} : c.running[place]? = some i →
      Turn services codec c log (.finish n place)
        { c with running := c.running.eraseIdx place, owed := c.owed ++ [(i.run services).result] }
        { log with finished := log.finished ++ [i] }
  | enqueued {n : Nat} {m : Message} {rest : List Message} : c.owed = m :: rest → c.writing = true →
      Turn services codec c log (.enqueue n) { c with owed := rest, queue := c.queue ++ [m] } log
  | dropped {n : Nat} {m : Message} {rest : List Message} : c.owed = m :: rest → c.writing = false →
      Turn services codec c log (.enqueue n) { c with owed := rest } log
  | wrote {n : Nat} {m : Message} {rest : List Message} {w : Message × Bytes} : c.queue = m :: rest →
      c.writing = true → codec.encodeReply m = .ok w →
      Turn services codec c log (.write n) { c with queue := rest, written := c.written ++ [w] }
        { log with tried := log.tried ++ [m] }
  | failed {n : Nat} {m : Message} {rest : List Message} {e : EncodeError} : c.queue = m :: rest →
      codec.encodeReply m = .error e →
      Turn services codec c log (.write n) { c with queue := rest, writing := false }
        { log with tried := log.tried ++ [m] }
  | endedWriting {n : Nat} : c.writing = true → c.closed = true ∨ c.isDone = true →
      Turn services codec c log (.endWriting n) { c with writing := false } log

/-! ## Every step about a connection is a turn -/

namespace ServerRun

variable {σ : Type} {q r : ServerRun σ} {n : Nat} {c : ServerConnection}

theorem queued_some {m : Message} {c' : ServerConnection} (h : queued c (some m) = some c') :
    c' = { c with queue := c.queue ++ [m] } := by
  simp only [queued] at h
  split at h
  · exact (Option.some.inj h).symm
  · cases h

/-- The reader looks at a frame and takes its decision. -/
theorem readFrame_eq_some {i : Inbound} {now : Instant} (h : r.readFrame n c i now = some q) :
    q = { r with pipeline := (r.pipeline.look c.peer now i).1 }.put n
      (c.takes (r.pipeline.look c.peer now i).2) := by
  cases i with
  | error e =>
    simp only [readFrame] at h
    simp only [Pipeline.look]
    cases hr : r.pipeline.reject e with
    | none =>
      rw [hr] at h
      cases h
      rfl
    | some m =>
      rw [hr] at h
      obtain ⟨c', hc', hq⟩ := Option.map_eq_some_iff.mp h
      rw [queued_some hc'] at hq
      exact hq.symm
  | ok m =>
    simp only [readFrame] at h
    simp only [Pipeline.look]
    cases ha : (r.pipeline.receive c.peer now m).2 with
    | reply m' =>
      rw [ha] at h
      obtain ⟨c', hc', hq⟩ := Option.map_eq_some_iff.mp h
      rw [queued_some hc'] at hq
      exact hq.symm
    | invoke i =>
      rw [ha] at h
      exact (Option.some.inj h).symm
    | ignore =>
      rw [ha] at h
      exact (Option.some.inj h).symm

/-- The server after a step about a connection: the connection has changed, and the filters have learnt. -/
structure Changes (r q : ServerRun σ) (n : Nat) (c' : ServerConnection) : Prop where
  connections : q.connections = r.connections.set n c'
  services : q.pipeline.services = r.pipeline.services
  codec : q.codec = r.codec
  workers : q.workers = r.workers

theorem changes_put (r : ServerRun σ) (n : Nat) (c' : ServerConnection) : Changes r (r.put n c') n c' :=
  ⟨rfl, rfl, rfl, rfl⟩

/-- **A step about a connection is a turn of it.** -/
theorem turn_of_stepAt {s : ServerStep} (log : ConnectionLog) (h : r.stepAt n c s = some q) :
    ∃ c', Changes r q n c' ∧
      Turn r.pipeline.services r.codec c log s c' (noteAt r.pipeline c log s) := by
  cases s with
  | opened | shutdown => cases h
  | arrived _ i =>
    simp only [stepAt] at h
    split at h
    · rename_i hm
      cases h
      exact ⟨_, changes_put _ _ _, .arrived hm⟩
    · cases h
  | ended _ inflow =>
    simp only [stepAt] at h
    split at h
    · rename_i hm
      cases h
      exact ⟨_, changes_put _ _ _, .ended hm⟩
    · cases h
  | read _ now =>
    simp only [stepAt] at h
    split at h
    · rename_i i rest hi
      split at h
      · rename_i hrw
        rw [Bool.and_eq_true] at hrw
        rw [readFrame_eq_some h]
        refine ⟨_, ⟨rfl, Pipeline.look_services _ _ _ _, rfl, rfl⟩, ?_⟩
        simp only [noteAt, hi, List.head?_cons, Option.map_some, Option.toList_some]
        exact .saw hi hrw.1 hrw.2 (Pipeline.look_promises _ _ _ _)
      · cases h
    · cases h
  | endReading =>
    simp only [stepAt] at h
    split at h
    · rename_i hr
      split at h
      · rename_i hw
        cases h
        exact ⟨_, changes_put _ _ _, .endedReading hr (.inl (by simpa using hw))⟩
      · split at h
        · rename_i hi hf
          cases h
          exact ⟨_, changes_put _ _ _, .endedReading hr (.inr ⟨hi, hf⟩)⟩
        · rename_i e hi hf
          cases h
          exact ⟨_, changes_put _ _ _, .broke hr hf⟩
        · cases h
    · cases h
  | start _ place =>
    simp only [stepAt] at h
    split at h
    · rename_i i hi
      split at h
      · cases h
        refine ⟨_, changes_put _ _ _, ?_⟩
        simp only [noteAt, hi, Option.toList_some]
        exact .started hi
      · cases h
    · cases h
  | finish _ place =>
    simp only [stepAt] at h
    split at h
    · rename_i i hi
      cases h
      refine ⟨_, changes_put _ _ _, ?_⟩
      simp only [noteAt, hi, Option.toList_some]
      exact .finished hi
    · cases h
  | enqueue =>
    simp only [stepAt] at h
    split at h
    · rename_i m rest hm
      split at h
      · rename_i hw
        obtain ⟨c', hc', hq⟩ := Option.map_eq_some_iff.mp h
        rw [queued_some hc'] at hq
        subst hq
        exact ⟨_, changes_put _ _ _, .enqueued hm hw⟩
      · rename_i hw
        cases h
        exact ⟨_, changes_put _ _ _, .dropped hm (by simpa using hw)⟩
    · cases h
  | write =>
    simp only [stepAt] at h
    split at h
    · rename_i m rest hm
      simp only [noteAt, hm, List.head?_cons, Option.toList_some]
      split at h
      · rename_i hw
        split at h
        · rename_i w he
          cases h
          exact ⟨_, changes_put _ _ _, .wrote hm hw he⟩
        · rename_i e he
          cases h
          exact ⟨_, changes_put _ _ _, .failed hm he⟩
      · cases h
    · cases h
  | endWriting =>
    simp only [stepAt] at h
    split at h
    · rename_i hw
      rw [Bool.and_eq_true, Bool.or_eq_true] at hw
      cases h
      exact ⟨_, changes_put _ _ _, .endedWriting hw.1 hw.2⟩
    · cases h

/-- A step about a connection that is there. -/
theorem step_about {s : ServerStep} (hs : s.connection? = some n) :
    r.step? s = (r.connections.get? n).bind fun c => r.stepAt n c s := by
  cases s <;> cases hs <;> rfl

/-- **A step opens a connection, closes all connections down, or is a turn of one.** -/
theorem step_cases {s : ServerStep} (log : ConnectionLog) (h : r.step? s = some q) :
    (∃ n peer, s = .opened n peer ∧ r.connections.get? n = none ∧ q = r.put n (.opened peer)) ∨
    (s = .shutdown ∧ q = { r with connections := r.connections.map fun _ c => closedDown c }) ∨
    ∃ n c c', s.connection? = some n ∧ r.connections.get? n = some c ∧ r.stepAt n c s = some q ∧
      Changes r q n c' ∧ Turn r.pipeline.services r.codec c log s c' (noteAt r.pipeline c log s) := by
  cases hs : s.connection? with
  | none =>
    cases s with
    | opened n peer =>
      simp only [step?] at h
      split at h
      · cases h
      · rename_i hn
        cases h
        exact .inl ⟨n, peer, rfl, by simpa [Table.contains] using hn, rfl⟩
    | shutdown =>
      cases h
      exact .inr (.inl ⟨rfl, rfl⟩)
    | _ => cases hs
  | some n =>
    rw [step_about hs] at h
    obtain ⟨c, hc, h⟩ := Option.bind_eq_some_iff.mp h
    obtain ⟨c', hch, ht⟩ := turn_of_stepAt log h
    exact .inr (.inr ⟨n, c, c', rfl, hc, h, hch, ht⟩)

end ServerRun

end Rpc
