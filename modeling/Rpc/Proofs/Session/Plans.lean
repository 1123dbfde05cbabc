import Mathlib.Data.List.Nodup
import Mathlib.Data.List.Perm.Basic
import Rpc.Proofs.Client.History
import Rpc.Proofs.Server.Workers
import Rpc.Session

/-!
# Steps of sessions

- `Session.Planned`: where a step is possible and what is done in it (`plan_eq_some_iff`);
- `Session.Stepped`: what a step does to client, server and wires (`stepped_of_step`);
- `poolRun`, `serverRun`, `calls`: what a run of a session is to the client, to the server and to the filters;
  `Session.pool_of_reaches` and `Session.server_of_reaches`: the first two are runs of the client and of the server;
- `requests`: the requests that callers send on a run; the client sends them and no others
  (`Session.sentIds_poolRun`, `Session.started_of_request`);
- `Session.Reaches.induction`: what holds at the start and is kept by every step holds on every run.
-/

namespace Rpc

variable {σ : Type}

/-- What happened in a session, step by step. -/
abbrev SessionRun : Type := List (SessionStep × SessionNote)

namespace Session

variable {s t u : Session σ} {e : SessionStep} {note : SessionNote} {plan : Plan} {run : SessionRun}

/-! ## Plans -/

/-- Where a step is possible, and what is done in it. -/
inductive Planned (s : Session σ) : SessionStep → Plan → Prop
  | client {t : PoolStep} : t.isLocal = true →
      Planned s (.client t) { client := some t, outgoing := s.outgoing, wires := s.wires }
  | connect {n : Nat} {peer : SocketAddress} {now : Instant} :
      Planned s (.connect n peer now)
        { client := some (.dialed n now)
          server := some (.opened n peer)
          outgoing := s.outgoing
          wires := s.wires.set n .opened }
  | send {n : Nat} {x : RemoteCall} :
      Planned s (.send n x)
        { client := some (.startSend n x.requestId)
          outgoing := s.outgoing.set s.pool.nextSend x.message
          wires := s.wires }
  | put {k : Nat} {m : Message} {x : Send} {w : Wire} {frame : Bytes} : s.outgoing.get? k = some m →
      s.pool.sends.get? k = some x → s.wires.get? x.connection = some w → s.codec.encode m = .ok frame →
      x.phase = .started →
      Planned s (.put k)
        { outgoing := s.outgoing.erase k
          wires := s.wires.set x.connection { w with up := w.up.put frame } }
  | written {k : Nat} {now : Instant} : s.outgoing.get? k = none →
      Planned s (.written k now)
        { client := some (.endSend k .written now), outgoing := s.outgoing, wires := s.wires }
  | probed {n reclaimAfter : Nat} {now : Instant} {w : Wire} {frame : Bytes} : s.pool.isIdle n = true →
      s.wires.get? n = some w → s.codec.encode (.heartbeat s.pool.nextProbe) = .ok frame →
      Planned s (.probe n reclaimAfter now)
        { client := some (.checkConnection reclaimAfter now true n)
          outgoing := s.outgoing
          wires := s.wires.set n { w with up := w.up.put frame } }
  | looked {n reclaimAfter : Nat} {now : Instant} : s.pool.isIdle n = false →
      Planned s (.probe n reclaimAfter now)
        { client := some (.checkConnection reclaimAfter now true n), outgoing := s.outgoing, wires := s.wires }
  | carriedUp {n k : Nat} {w : Wire} : s.wires.get? n = some w → 0 < k → k ≤ w.up.sent.length →
      Planned s (.carryUp n k)
        { outgoing := s.outgoing, wires := s.wires.set n { w with up := w.up.carry k } }
  | carriedDown {n k : Nat} {w : Wire} : s.wires.get? n = some w → 0 < k → k ≤ w.down.sent.length →
      Planned s (.carryDown n k)
        { outgoing := s.outgoing, wires := s.wires.set n { w with down := w.down.carry k } }
  | arrived {n : Nat} {w : Wire} {i : Inbound} {up : Flow} : s.wires.get? n = some w →
      w.up.take? s.server.codec = some (i, up) →
      Planned s (.arrive n)
        { server := some (.arrived n i), outgoing := s.outgoing, wires := s.wires.set n { w with up := up } }
  | served {t : ServerStep} : t.isServing = true →
      Planned s (.serve t) { server := some t, call := s.callOf t, outgoing := s.outgoing, wires := s.wires }
  | replied {n : Nat} {w : Wire} {c : ServerConnection} {m reply : Message} {rest : List Message} {frame : Bytes} :
      s.wires.get? n = some w → s.server.connections.get? n = some c → c.queue = m :: rest →
      s.server.codec.encodeReply m = .ok (reply, frame) →
      Planned s (.reply n)
        { server := some (.write n)
          outgoing := s.outgoing
          wires := s.wires.set n { w with down := w.down.put frame } }
  | received {n : Nat} {now : Instant} {w : Wire} {i : Inbound} {down : Flow} : s.wires.get? n = some w →
      w.down.take? s.codec = some (i, down) →
      Planned s (.receive n now)
        { client := some (.receive n i now)
          outgoing := s.outgoing
          wires := s.wires.set n { w with down := down } }

theorem toOption_eq_some {ε α : Type} {x : Except ε α} {a : α} : x.toOption = some a ↔ x = .ok a := by
  cases x <;> simp [Except.toOption]

theorem plan_of_planned (h : Planned s e plan) : s.plan? e = some plan := by
  cases h with
  | client ht => simp [plan?, ht]
  | connect | send => rfl
  | put hm hx hw hf hp => simp [plan?, hm, hx, hw, hf, hp, Except.toOption]
  | written hk => simp [plan?, Table.contains, hk]
  | probed hi hw hf => simp [plan?, hi, hw, hf, Except.toOption]
  | looked hi => simp [plan?, hi]
  | carriedUp hw hk hl | carriedDown hw hk hl => simp [plan?, hw, hk, hl]
  | arrived hw hi | received hw hi => simp [plan?, hw, hi]
  | served ht => simp [plan?, ht]
  | replied hw hc hq hf => simp [plan?, hw, hc, hq, hf, Except.toOption]

theorem planned_of_plan (h : s.plan? e = some plan) : Planned s e plan := by
  cases e with
  | client t =>
    simp only [plan?] at h
    split at h
    · rename_i ht
      cases h
      exact .client ht
    · cases h
  | connect n peer now =>
    cases h
    exact .connect
  | send n x =>
    cases h
    exact .send
  | put k =>
    simp only [plan?, bind, Option.bind_eq_some_iff] at h
    obtain ⟨m, hm, x, hx, w, hw, frame, hf, h⟩ := h
    split at h
    · rename_i hp
      cases h
      exact .put hm hx hw (toOption_eq_some.mp hf) hp
    · cases h
  | written k now =>
    simp only [plan?] at h
    split at h
    · cases h
    · rename_i hk
      cases h
      exact .written (by simpa [Table.contains] using hk)
  | probe n reclaimAfter now =>
    simp only [plan?] at h
    split at h
    · rename_i hi
      simp only [bind, Option.bind_eq_some_iff] at h
      obtain ⟨w, hw, frame, hf, h⟩ := h
      cases h
      exact .probed hi hw (toOption_eq_some.mp hf)
    · rename_i hi
      cases h
      exact .looked (by simpa using hi)
  | carryUp n k =>
    simp only [plan?, bind, Option.bind_eq_some_iff] at h
    obtain ⟨w, hw, h⟩ := h
    split at h
    · rename_i hk
      cases h
      exact .carriedUp hw hk.1 hk.2
    · cases h
  | carryDown n k =>
    simp only [plan?, bind, Option.bind_eq_some_iff] at h
    obtain ⟨w, hw, h⟩ := h
    split at h
    · rename_i hk
      cases h
      exact .carriedDown hw hk.1 hk.2
    · cases h
  | arrive n =>
    simp only [plan?, bind, Option.bind_eq_some_iff] at h
    obtain ⟨w, hw, ⟨i, up⟩, hi, h⟩ := h
    cases h
    exact .arrived hw hi
  | serve t =>
    simp only [plan?] at h
    split at h
    · rename_i ht
      cases h
      exact .served ht
    · cases h
  | reply n =>
    simp only [plan?, bind, Option.bind_eq_some_iff] at h
    obtain ⟨w, hw, c, hc, m, hm, ⟨reply, frame⟩, hf, h⟩ := h
    cases h
    obtain ⟨rest, hq⟩ := List.head?_eq_some_iff.mp hm
    exact .replied hw hc hq (toOption_eq_some.mp hf)
  | receive n now =>
    simp only [plan?, bind, Option.bind_eq_some_iff] at h
    obtain ⟨w, hw, ⟨i, down⟩, hi, h⟩ := h
    cases h
    exact .received hw hi

theorem plan_eq_some_iff : s.plan? e = some plan ↔ Planned s e plan := ⟨planned_of_plan, plan_of_planned⟩

/-! ## Steps -/

/-- What is done in a step: client and server do their part of the plan, and the wires are those of the plan. -/
structure Stepped (s : Session σ) (e : SessionStep) (plan : Plan) (t : Session σ) (note : SessionNote) : Prop where
  planned : Planned s e plan
  client : ∀ p, plan.client = some p → ∃ a, s.pool.step? p = some (t.pool, a) ∧ note.client = some (p, a)
  idle : plan.client = none → t.pool = s.pool ∧ note.client = none
  server : ∀ r, plan.server = some r → s.server.step? r = some t.server
  resting : plan.server = none → t.server = s.server
  codec : t.codec = s.codec
  outgoing : t.outgoing = plan.outgoing
  wires : t.wires = plan.wires
  served : note.server = plan.server
  call : note.call = plan.call

theorem stepped_of_step (h : s.step? e = some (t, note)) : ∃ plan, Stepped s e plan t note := by
  simp only [step?, bind, Option.bind_eq_some_iff] at h
  obtain ⟨plan, hplan, ⟨pool, done⟩, hclient, server, hserver, h⟩ := h
  cases h
  refine ⟨plan, planned_of_plan hplan, ?_, ?_, ?_, ?_, rfl, rfl, rfl, rfl, rfl⟩
  · intro p hp
    rw [hp] at hclient
    obtain ⟨⟨pool', a⟩, ha, heq⟩ := Option.map_eq_some_iff.mp hclient
    cases heq
    exact ⟨a, ha, rfl⟩
  · intro hp
    rw [hp] at hclient
    cases hclient
    exact ⟨rfl, rfl⟩
  · intro r hr
    rw [hr] at hserver
    exact hserver
  · intro hr
    rw [hr] at hserver
    cases hserver
    rfl

/-- A step is possible where it has a plan and client and server can do their part. -/
theorem step_isSome (hp : Planned s e plan) (hc : ∀ p, plan.client = some p → (s.pool.step? p).isSome = true)
    (hs : ∀ r, plan.server = some r → (s.server.step? r).isSome = true) : (s.step? e).isSome = true := by
  have hclient : ∃ x, clientPart s.pool plan.client = some x := by
    cases h : plan.client with
    | none => exact ⟨_, rfl⟩
    | some p =>
      obtain ⟨x, hx⟩ := Option.isSome_iff_exists.mp (hc p h)
      exact ⟨(x.1, some (p, x.2)), by rw [clientPart, hx]; rfl⟩
  have hserver : ∃ x, serverPart s.server plan.server = some x := by
    cases h : plan.server with
    | none => exact ⟨_, rfl⟩
    | some r => exact Option.isSome_iff_exists.mp (hs r h)
  obtain ⟨x, hx⟩ := hclient
  obtain ⟨y, hy⟩ := hserver
  simp only [step?, plan_of_planned hp, bind, Option.bind_some, hx, hy]
  rfl

end Session

/-! ## Runs -/

/-- What the client does on a run, and what is learnt from it. -/
def poolRun (run : SessionRun) : Run := run.filterMap (·.2.client)

/-- What the server does on a run. -/
def serverRun (run : SessionRun) : List ServerStep := run.filterMap (·.2.server)

/-- The calls about which the filters of the server were asked on a run, in order. -/
def calls (run : SessionRun) : List Call := run.filterMap (·.2.call)

/-- The request that a caller begins to send in a step, and its connection. -/
def SessionStep.request? : SessionStep → Option (Nat × RemoteCall)
  | .send n x => some (n, x)
  | _ => none

/-- The requests that callers sent on a run, each with its connection, in order. -/
def requests (run : SessionRun) : List (Nat × RemoteCall) := run.filterMap (·.1.request?)

theorem poolRun_append (run run' : SessionRun) : poolRun (run ++ run') = poolRun run ++ poolRun run' :=
  List.filterMap_append

theorem calls_append (run run' : SessionRun) : calls (run ++ run') = calls run ++ calls run' := List.filterMap_append

theorem requests_append (run run' : SessionRun) : requests (run ++ run') = requests run ++ requests run' :=
  List.filterMap_append

theorem requests_snoc (run : SessionRun) (e : SessionStep) (note : SessionNote) :
    requests (run ++ [(e, note)]) = requests run ++ e.request?.toList := by
  rw [requests_append]
  cases h : e.request? <;> simp [requests, h]

theorem calls_snoc (run : SessionRun) (e : SessionStep) (note : SessionNote) :
    calls (run ++ [(e, note)]) = calls run ++ note.call.toList := by
  rw [calls_append]
  cases h : note.call <;> simp [calls, h]

theorem poolRun_snoc (run : SessionRun) (e : SessionStep) (note : SessionNote) :
    poolRun (run ++ [(e, note)]) = poolRun run ++ note.client.toList := by
  rw [poolRun_append]
  cases h : note.client <;> simp [poolRun, h]

namespace Session

variable {s t u : Session σ} {e : SessionStep} {note : SessionNote} {plan : Plan} {run run' : SessionRun}

theorem reaches_append (h : Reaches s run t) (h' : Reaches t run' u) : Reaches s (run ++ run') u := by
  induction h with
  | refl => exact h'
  | next hs _ ih => exact .next hs (ih h')

theorem pool_of_step (h : s.step? e = some (t, note)) : Pool.Reaches s.pool (poolRun [(e, note)]) t.pool := by
  obtain ⟨plan, hs⟩ := stepped_of_step h
  cases hp : plan.client with
  | none =>
    obtain ⟨hpool, hnote⟩ := hs.idle hp
    simp only [poolRun, List.filterMap_cons, hnote, List.filterMap_nil, hpool]
    exact .refl _
  | some p =>
    obtain ⟨a, ha, hnote⟩ := hs.client p hp
    simp only [poolRun, List.filterMap_cons, hnote, List.filterMap_nil]
    exact .next ha (.refl _)

/-- What the client does on a run of a session is a run of the client. -/
theorem pool_of_reaches (h : Reaches s run t) : Pool.Reaches s.pool (poolRun run) t.pool := by
  induction h with
  | refl => exact .refl _
  | @next s t u e note run hs _ ih =>
    have happ := Pool.reaches_append (pool_of_step hs) ih
    rw [← poolRun_append] at happ
    exact happ

/-- What the server does on a run of a session is a run of the server. -/
theorem server_of_reaches (h : Reaches s run t) : ServerRun.Reaches s.server (serverRun run) t.server := by
  induction h with
  | refl => exact .refl _
  | @next s t u e note run hs _ ih =>
    obtain ⟨plan, hs⟩ := stepped_of_step hs
    cases hp : plan.server with
    | none =>
      simp only [serverRun, List.filterMap_cons, hs.served, hp]
      exact hs.resting hp ▸ ih
    | some r =>
      simp only [serverRun, List.filterMap_cons, hs.served, hp]
      exact .next (hs.server r hp) ih

/-- What holds at the start and is kept by every step holds on every run. -/
theorem Reaches.induction {motive : SessionRun → Session σ → Prop} (h : Reaches s run t) (start : motive [] s)
    (step : ∀ {run t e u note}, Reaches s run t → motive run t → t.step? e = some (u, note) →
      motive (run ++ [(e, note)]) u) : motive run t := by
  suffices hall : ∀ past q, Reaches s past q → motive past q → Reaches q run t → motive (past ++ run) t from
    hall [] s (.refl s) start h
  clear h
  induction run with
  | nil =>
    intro past q _ hm h
    cases h
    rw [List.append_nil]
    exact hm
  | cons x run ih =>
    intro past q hq hm h
    obtain _ | ⟨hs, h⟩ := h
    rw [List.append_cons]
    exact ih _ _ (reaches_append hq (.next hs (.refl _))) (step hq hm hs) h

/-! ## Requests -/

/-- The client begins to send what a caller begins to send. -/
theorem Stepped.startedId (h : Stepped s e plan t note) :
    (plan.client.bind (·.startedId?)) = e.request?.map (·.2.requestId) := by
  cases h.planned with
  | @client p hp => cases p <;> first | rfl | cases hp
  | _ => rfl

/-- **The client sends the requests of its callers, and no others.** -/
theorem sentIds_poolRun (h : Reaches s run t) :
    sentIds (poolRun run) = (requests run).map (·.2.requestId) := by
  refine h.induction (motive := fun run _ => sentIds (poolRun run) = (requests run).map (·.2.requestId)) rfl ?_
  intro run t e u note _ ih hs
  obtain ⟨plan, hs⟩ := stepped_of_step hs
  have hid := hs.startedId
  rw [poolRun_snoc, requests_snoc, List.map_append, ← ih, sentIds, List.filterMap_append]
  congr 1
  cases hp : plan.client with
  | none =>
    rw [(hs.idle hp).2]
    rw [hp] at hid
    cases hr : e.request? with
    | none => rfl
    | some x =>
      rw [hr] at hid
      cases hid
  | some p =>
    obtain ⟨a, -, hnote⟩ := hs.client p hp
    rw [hnote]
    rw [hp, Option.bind_some] at hid
    cases hr : e.request? with
    | none =>
      rw [hr] at hid
      simp [show p.startedId? = none from hid]
    | some x =>
      rw [hr] at hid
      simp [show p.startedId? = some x.2.requestId from hid]

/-- What a caller sends is a send of the client. -/
theorem started_of_request (h : Reaches s run t) {n : Nat} {x : RemoteCall} :
    (n, x) ∈ requests run → ∃ k, Started (poolRun run) k n x.requestId := by
  refine h.induction
    (motive := fun run _ => (n, x) ∈ requests run → ∃ k, Started (poolRun run) k n x.requestId) nofun ?_
  intro run t e u note _ ih hs hx
  rw [requests_snoc] at hx
  rw [poolRun_snoc]
  rcases List.mem_append.mp hx with hx | hx
  · obtain ⟨k, hk⟩ := ih hx
    exact ⟨k, hk.mono _⟩
  · obtain ⟨plan, hs⟩ := stepped_of_step hs
    cases hs.planned with
    | send =>
      cases hx with
      | head =>
        obtain ⟨a, ha, hnote⟩ := hs.client _ rfl
        simp only [Pool.step?] at ha
        split at ha
        · have hsending : PoolAnswer.sending t.pool.nextSend = a := congrArg Prod.snd (Option.some.inj ha)
          refine ⟨t.pool.nextSend, List.mem_append_right _ ?_⟩
          rw [hnote, ← hsending]
          exact List.mem_singleton_self _
        · cases ha
      | tail _ hx => cases hx
    | _ => cases hx

/-- With no id used twice, a request is the only one with its id. -/
theorem request_unique (hd : ((requests run).map (·.2.requestId)).Nodup) {n m : Nat} {x y : RemoteCall}
    (hx : (n, x) ∈ requests run) (hy : (m, y) ∈ requests run) (h : x.requestId = y.requestId) : n = m ∧ x = y := by
  have heq : (n, x) = (m, y) := List.inj_on_of_nodup_map hd hx hy h
  cases heq
  exact ⟨rfl, rfl⟩

end Session

end Rpc
