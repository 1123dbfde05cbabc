import Mathlib
import Rpc.Proofs.Frame.Understood
import Rpc.Proofs.Server.Served
import Rpc.Proofs.Server.Serving
import Rpc.Proofs.Session.Plans

/-!
# The stages of a call

Where a call can be on a connection (`Stage`): its request is on the way to the server, it is being invoked, its reply
waits to be written, the reply is on the way back, or the reader of the client holds the response. All calls on a
connection are in `Session.stages`; a step of a session moves one of them on and leaves the others where they are
(`Moves`, and `Moving` for what moves in which step).

- `Session.moving_of_step`: every step moves one call or none on each connection, as long as connections are open and
  both sides understand what is written (`Session.Writable`).
-/

namespace Rpc

/-- A stage of a call, or of a heartbeat. -/
inductive Stage where
  /-- A frame on its way to the server, or not looked at there. -/
  | asked (i : Inbound)
  /-- An invocation that waits for a worker or runs. -/
  | invoked (i : Invocation)
  /-- A reply that has not been written. -/
  | replied (m : Message)
  /-- A frame on its way to the client. -/
  | answered (i : Inbound)
  /-- A response that the reader of the client holds. -/
  | held (id : UInt32) (r : Response)

/-- The stages at a connection of a server. -/
def ServerConnection.stages (c : ServerConnection) : Multiset Stage :=
  ↑(c.inbound.map Stage.asked) + ↑(c.waiting.map Stage.invoked) + ↑(c.running.map Stage.invoked) +
    ↑(c.owed.map Stage.replied) + ↑(c.queue.map Stage.replied)

/-- The stages on a wire, with the codecs of the client and the server. -/
def Wire.stages (a b : FrameCodec) (w : Wire) : Multiset Stage :=
  ↑((w.up.items b).map Stage.asked) + ↑((w.down.items a).map Stage.answered)

/-- The stage at a reader of a client. -/
def ReaderState.stage? : ReaderState → Option Stage
  | .holding id r => some (.held id r)
  | .reading | .finished => none

/-- The stage to which a decision of a reader of a server leads. -/
def Admission.stage? : Admission → Option Stage
  | .reply m => some (.replied m)
  | .invoke i => some (.invoked i)
  | .ignore => none

/-- The stage to which a frame leads that a reader of a client takes. -/
def Inbound.stage? (i : Inbound) : Option Stage := (Connection.responseOf i).map fun x => .held x.1 x.2

/-! ## One call moves -/

/-- One stage among others gives way to another one. -/
def Moves (l l' : Multiset Stage) (old new : Option Stage) : Prop :=
  ∃ rest : Multiset Stage, l = ↑old.toList + rest ∧ l' = ↑new.toList + rest

namespace Moves

variable {l l' k : Multiset Stage} {old new : Option Stage}

theorem refl (l : Multiset Stage) : Moves l l none none := ⟨l, by simp, by simp⟩

theorem swap (k : Multiset Stage) (old new : Option Stage) : Moves (k + ↑old.toList) (k + ↑new.toList) old new :=
  ⟨k, add_comm _ _, add_comm _ _⟩

theorem of_eq (h : l' = l) : Moves l l' none none := h ▸ refl l

theorem add_right (h : Moves l l' old new) (k : Multiset Stage) : Moves (l + k) (l' + k) old new := by
  obtain ⟨rest, rfl, rfl⟩ := h
  exact ⟨rest + k, add_assoc _ _ _, add_assoc _ _ _⟩

theorem add_left (h : Moves l l' old new) (k : Multiset Stage) : Moves (k + l) (k + l') old new := by
  rw [add_comm k, add_comm k]
  exact h.add_right k

/-- What is taken away on one side and added on the other. -/
theorem join {k' : Multiset Stage} (h : Moves l l' old none) (h' : Moves k k' none new) :
    Moves (l + k) (l' + k') old new := by
  obtain ⟨rest, rfl, rfl⟩ := h
  obtain ⟨rest', rfl, rfl⟩ := h'
  refine ⟨rest + rest', ?_, ?_⟩
  · simp only [Option.toList_none, Multiset.coe_nil, zero_add]
    abel
  · simp only [Option.toList_none, Multiset.coe_nil, zero_add]
    abel

/-- What is added again is there as before. -/
theorem cancel {k' : Multiset Stage} (h : Moves l l' none new) (h' : Moves k k' new none) : l' + k' = l + k := by
  obtain ⟨rest, rfl, rfl⟩ := h
  obtain ⟨rest', rfl, rfl⟩ := h'
  simp only [Option.toList_none, Multiset.coe_nil, zero_add]
  abel

theorem mem_old {x : Stage} (h : Moves l l' (some x) new) : x ∈ l := by
  obtain ⟨rest, rfl, -⟩ := h
  simp

theorem mem_new {x : Stage} (h : Moves l l' old new) (hx : x ∈ l') : new = some x ∨ x ∈ l := by
  obtain ⟨rest, rfl, rfl⟩ := h
  rcases Multiset.mem_add.mp hx with hx | hx
  · exact .inl (Option.mem_toList.mp hx)
  · exact .inr (Multiset.mem_add.mpr (.inr hx))

end Moves

/-! ## What moves at a server -/

namespace ServerConnection

variable {c : ServerConnection}

theorem stages_opened (peer : SocketAddress) : (opened peer).stages = 0 := by simp [stages, opened]

theorem moves_arrived (i : Inbound) :
    Moves c.stages { c with inbound := c.inbound ++ [i] }.stages none (some (.asked i)) := by
  refine ⟨c.stages, by simp, ?_⟩
  simp only [stages, List.map_append, ← Multiset.coe_add, List.map_singleton, Option.toList_some]
  abel

theorem moves_read {i : Inbound} {rest : List Inbound} (hi : c.inbound = i :: rest) (a : Admission) :
    Moves c.stages (takes { c with inbound := rest } a).stages (some (.asked i)) a.stage? := by
  refine ⟨{ c with inbound := rest }.stages, ?_, ?_⟩
  · simp only [stages, hi, List.map_cons, ← Multiset.cons_coe, Option.toList_some, ← Multiset.singleton_add]
    abel
  · cases a with
    | reply m =>
      simp only [takes, stages, Admission.stage?, List.map_append, ← Multiset.coe_add, List.map_singleton,
        Option.toList_some]
      abel
    | invoke j =>
      simp only [takes, stages, Admission.stage?, List.map_append, ← Multiset.coe_add, List.map_singleton,
        Option.toList_some]
      abel
    | ignore => simp [takes, Admission.stage?]

/-- Taking out the stage at a place. -/
theorem coe_map_eraseIdx {α : Type} {as : List α} {place : Nat} {x : α} (h : as[place]? = some x) (f : α → Stage) :
    (as.map f : Multiset Stage) = {f x} + ↑((as.eraseIdx place).map f) := by
  rw [Multiset.singleton_add, Multiset.cons_coe, ← List.map_cons]
  exact Multiset.coe_eq_coe.mpr ((perm_eraseIdx h).map f)

theorem stages_started {place : Nat} {i : Invocation} (hi : c.waiting[place]? = some i) :
    { c with waiting := c.waiting.eraseIdx place, running := c.running ++ [i] }.stages = c.stages := by
  simp only [stages, List.map_append, ← Multiset.coe_add, List.map_singleton, Multiset.coe_singleton,
    coe_map_eraseIdx hi]
  abel

theorem moves_finished {place : Nat} {i : Invocation} (hi : c.running[place]? = some i) (m : Message) :
    Moves c.stages { c with running := c.running.eraseIdx place, owed := c.owed ++ [m] }.stages
      (some (.invoked i)) (some (.replied m)) := by
  refine ⟨{ c with running := c.running.eraseIdx place }.stages, ?_, ?_⟩
  · simp only [stages, coe_map_eraseIdx hi, Option.toList_some, Multiset.coe_singleton]
    abel
  · simp only [stages, List.map_append, ← Multiset.coe_add, List.map_singleton, Option.toList_some]
    abel

theorem stages_enqueued {m : Message} {rest : List Message} (hm : c.owed = m :: rest) :
    { c with owed := rest, queue := c.queue ++ [m] }.stages = c.stages := by
  simp only [stages, hm, List.map_append, ← Multiset.coe_add, List.map_cons, List.map_nil, ← Multiset.cons_coe,
    ← Multiset.singleton_add]
  abel

theorem moves_written {m : Message} {rest : List Message} (hm : c.queue = m :: rest)
    (written : List (Message × Bytes)) :
    Moves c.stages { c with queue := rest, written := written }.stages (some (.replied m)) none := by
  refine ⟨{ c with queue := rest }.stages, ?_, by simp [stages]⟩
  simp only [stages, hm, List.map_cons, ← Multiset.cons_coe, Option.toList_some, ← Multiset.singleton_add]
  abel

end ServerConnection

/-! ## What moves on a wire -/

namespace Wire

variable {a b : FrameCodec} {w : Wire} {i : Inbound}

theorem stages_new (a b : FrameCodec) : Wire.opened.stages a b = 0 := by
  simp [stages, opened, Flow.items_empty]

theorem moves_putUp (hw : w.up.Whole b) {frame : Bytes} (hd : b.decode frame = .item i []) :
    Moves (w.stages a b) ({ w with up := w.up.put frame }.stages a b) none (some (.asked i)) := by
  refine ⟨w.stages a b, by simp, ?_⟩
  simp only [stages, (Flow.whole_put hw hd).1, List.map_append, ← Multiset.coe_add, List.map_singleton,
    Option.toList_some]
  abel

theorem moves_putDown (hw : w.down.Whole a) {frame : Bytes} (hd : a.decode frame = .item i []) :
    Moves (w.stages a b) ({ w with down := w.down.put frame }.stages a b) none (some (.answered i)) := by
  refine ⟨w.stages a b, by simp, ?_⟩
  simp only [stages, (Flow.whole_put hw hd).1, List.map_append, ← Multiset.coe_add, List.map_singleton,
    Option.toList_some]
  abel

theorem stages_carryUp (w : Wire) (k : Nat) : { w with up := w.up.carry k }.stages a b = w.stages a b := by
  simp only [stages, Flow.items_carry]

theorem stages_carryDown (w : Wire) (k : Nat) : { w with down := w.down.carry k }.stages a b = w.stages a b := by
  simp only [stages, Flow.items_carry]

theorem moves_takeUp {up : Flow} (h : w.up.take? b = some (i, up)) :
    Moves (w.stages a b) ({ w with up := up }.stages a b) (some (.asked i)) none := by
  refine ⟨{ w with up := up }.stages a b, ?_, by simp⟩
  simp only [stages, Flow.items_take h, List.map_cons, ← Multiset.cons_coe, Option.toList_some,
    ← Multiset.singleton_add]
  abel

theorem moves_takeDown {down : Flow} (h : w.down.take? a = some (i, down)) :
    Moves (w.stages a b) ({ w with down := down }.stages a b) (some (.answered i)) none := by
  refine ⟨{ w with down := down }.stages a b, ?_, by simp⟩
  simp only [stages, Flow.items_take h, List.map_cons, ← Multiset.cons_coe, Option.toList_some,
    ← Multiset.singleton_add]
  abel

end Wire

/-! ## What moves at a reader of the client -/

/-- The stage at the reader of a connection. -/
def View.held (v : View) (n : Nat) : Option Stage := (v.reader n).bind (·.stage?)

/-- What a step does to the stage at the reader of a connection: the reader takes a frame, hands on its response, or
goes on as it was. -/
inductive Holds (v : View) (n : Nat) : PoolStep → View → Prop
  | took {w : View} {i : Inbound} {now : Instant} : v.held n = none → w.held n = i.stage? →
      Holds v n (.receive n i now) w
  | handed {w : View} {id : UInt32} {r : Response} : v.held n = some (.held id r) → w.held n = none →
      Holds v n (.handOver n) w
  | same {w : View} {t : PoolStep} : w.held n = v.held n → t ≠ .handOver n → (∀ i now, t ≠ .receive n i now) →
      Holds v n t w

theorem held_update_of_ne (v : View) {n m : Nat} (h : n ≠ m) (x : Option ReaderState) :
    { v with reader := Function.update v.reader m x }.held n = v.held n := by
  simp only [View.held, Function.update_of_ne h]

theorem Pool.held_receive {p : Pool} {n : Nat} (i : Inbound) (now : Instant) (h : p.isReading n = true) :
    p.view.held n = none ∧ (p.receive n i now).view.held n = i.stage? := by
  obtain ⟨c, hc, hr⟩ := reading_of_isReading h
  have hget : (p.receive n i now).connections.get? n = some (c.receive i now) := get_update hc _
  have hbefore := view_reader hc
  have hafter := view_reader hget
  refine ⟨by simp [View.held, hbefore, hr, ReaderState.stage?], ?_⟩
  simp only [View.held, hafter, Option.bind_some, Connection.receive, Inbound.stage?]
  cases Connection.responseOf i with
  | none => simp [Connection.touch, hr, ReaderState.stage?]
  | some x => simp [ReaderState.stage?]

theorem Effect.holds {v w : View} {t : PoolStep} {a : PoolAnswer} (he : Effect v t a w) (n : Nat)
    (ht : ∀ i now, t ≠ .receive n i now) : Holds v n t w := by
  cases he with
  | @dialed m _ hm =>
    refine .same ?_ (by simp) (by simp)
    by_cases hn : n = m
    · subst hn
      simp [View.held, hm, ReaderState.stage?]
    · exact held_update_of_ne v hn _
  | @finished m hm =>
    refine .same ?_ (by simp) (by simp)
    by_cases hn : n = m
    · subst hn
      simp [View.held, hm, ReaderState.stage?]
    · simp only [View.held, Function.update_of_ne hn]
  | @took m i now id r hm hc =>
    have hn : n ≠ m := by
      rintro rfl
      exact ht i now rfl
    exact .same (held_update_of_ne v hn _) (by simp) ht
  | @handed m id r hm hw ho =>
    by_cases hn : n = m
    · subst hn
      have hheld : v.held n = some (.held id r) := by rw [View.held, hm]; rfl
      exact .handed hheld (by simp [View.held, View.handOn, ReaderState.stage?])
    · refine .same ?_ (fun h => hn (PoolStep.handOver.inj h).symm) (by simp)
      simp only [View.held, View.handOn, Function.update_of_ne hn]
  | @discarded m id r hm hw ho =>
    by_cases hn : n = m
    · subst hn
      have hheld : v.held n = some (.held id r) := by rw [View.held, hm]; rfl
      exact .handed hheld (by simp [View.held, ReaderState.stage?])
    · exact .same (held_update_of_ne v hn _) (fun h => hn (PoolStep.handOver.inj h).symm) (by simp)
  | quiet hq =>
    refine .same rfl ?_ ht
    rintro rfl
    cases hq
  | failed hf =>
    refine .same rfl ?_ ht
    rintro rfl
    cases hf
  | read hr =>
    refine .same rfl ?_ ht
    rintro rfl
    cases hr
  | started | written | expired | dropped | cleared => exact .same rfl (by simp) (by simp)

theorem Pool.holds_of_step {p q : Pool} {t : PoolStep} {a : PoolAnswer} (hp : p.Numbered)
    (h : p.step? t = some (q, a)) (n : Nat) : Holds p.view n t q.view := by
  by_cases ht : ∃ i now, t = .receive n i now
  · obtain ⟨i, now, rfl⟩ := ht
    obtain ⟨hb, hx⟩ := silently_eq_some h
    cases hx
    obtain ⟨hbefore, hafter⟩ := held_receive i now hb
    exact .took hbefore hafter
  · exact (effect_of_step hp h).holds n fun i now he => ht ⟨i, now, he⟩

/-! ## What moves in a session -/

namespace Session

variable {σ : Type} {s t : Session σ} {e : SessionStep} {plan : Plan} {note : SessionNote} {n : Nat}

/-- The stages at the server's side of a connection. -/
def serverStages (r : ServerRun σ) (n : Nat) : Multiset Stage := (r.connections.get? n).elim 0 (·.stages)

/-- The stages on the wire of a connection. -/
def wireStages (a b : FrameCodec) (wires : Table Nat Wire) (n : Nat) : Multiset Stage :=
  (wires.get? n).elim 0 (·.stages a b)

/-- The stages of all calls on a connection. -/
def stages (s : Session σ) (n : Nat) : Multiset Stage :=
  serverStages s.server n + wireStages s.codec s.server.codec s.wires n + ↑(s.pool.view.held n).toList

/-- What moves on a connection in which step. -/
inductive Moving (s : Session σ) (n : Nat) : SessionStep → Option Stage → Option Stage → Prop
  | still {e : SessionStep} : (∀ k x, e = .put k → s.pool.sends.get? k = some x → x.connection ≠ n) →
      e ≠ .client (.handOver n) → (∀ now, e ≠ .serve (.read n now)) → Moving s n e none none
  | put {k : Nat} {m : Message} {x : Send} : s.outgoing.get? k = some m → s.pool.sends.get? k = some x →
      x.connection = n → Moving s n (.put k) none (some (.asked (.ok m)))
  | probed {reclaimAfter : Nat} {now : Instant} :
      Moving s n (.probe n reclaimAfter now) none (some (.asked (.ok (.heartbeat s.pool.nextProbe))))
  | looked {now : Instant} {c : ServerConnection} {i : Inbound} : s.server.connections.get? n = some c →
      c.inbound.head? = some i →
      Moving s n (.serve (.read n now)) (some (.asked i)) (s.server.pipeline.look c.peer now i).2.stage?
  | finished {place : Nat} {i : Invocation} :
      Moving s n (.serve (.finish n place)) (some (.invoked i))
        (some (.replied (i.run s.server.pipeline.services).result))
  | replied {m : Message} : Moving s n (.reply n) (some (.replied m)) (some (.answered (.ok m)))
  | received {now : Instant} {i : Inbound} : Moving s n (.receive n now) (some (.answered i)) i.stage?
  | handed {id : UInt32} {r : Response} : s.pool.view.held n = some (.held id r) →
      Moving s n (.client (.handOver n)) (some (.held id r)) none

/-- Steps that put no frame on a wire, and in which no response is handed on, move no call, unless they say so. -/
theorem Moving.of_not (hp : ∀ k, e ≠ .put k) (hh : e ≠ .client (.handOver n)) (hr : ∀ now, e ≠ .serve (.read n now)) :
    Moving s n e none none :=
  .still (fun k _ he => absurd he (hp k)) hh hr

/-- Steps in which no frame is put on a wire or looked at and no response is handed on. -/
def isQuiet : SessionStep → Bool
  | .put _ | .client (.handOver _) | .serve (.read ..) => false
  | _ => true

theorem Moving.of_quiet (he : isQuiet e = true) : Moving s n e none none := by
  refine .of_not ?_ ?_ ?_
  · rintro k rfl
    cases he
  · rintro rfl
    cases he
  · rintro now rfl
    cases he

/-- All connections are open and have wires, and both sides understand what is written and what is to be written. -/
structure Writable (s : Session σ) : Prop where
  live : ∀ n c, s.server.connections.get? n = some c → c.Live
  linked : ∀ n, (s.wires.get? n).isSome = (s.server.connections.get? n).isSome
  short : s.codec.maxFrameLength < 2 ^ 32 ∧ s.server.codec.maxFrameLength < 2 ^ 32
  whole : ∀ n w, s.wires.get? n = some w → w.up.Whole s.server.codec ∧ w.down.Whole s.codec
  outgoing : ∀ k m, s.outgoing.get? k = some m → FrameCodec.Understood s.codec s.server.codec m
  probes : ∀ id, FrameCodec.Understood s.codec s.server.codec (.heartbeat id)
  replies : ∀ n m, .replied m ∈ s.stages n → FrameCodec.Understood s.server.codec s.codec m

/-! ### One side at a time -/

theorem wireStages_set (a b : FrameCodec) (wires : Table Nat Wire) (k n : Nat) (w : Wire) :
    wireStages a b (wires.set k w) n = if k = n then w.stages a b else wireStages a b wires n := by
  unfold wireStages
  rw [Table.get?_set]
  split <;> rfl

theorem wireStages_of_get {a b : FrameCodec} {wires : Table Nat Wire} {w : Wire} (h : wires.get? n = some w) :
    wireStages a b wires n = w.stages a b := by
  rw [wireStages, h]
  rfl

theorem serverStages_of_get {r : ServerRun σ} {c : ServerConnection} (h : r.connections.get? n = some c) :
    serverStages r n = c.stages := by
  rw [serverStages, h]
  rfl

theorem serverStages_put (r : ServerRun σ) (k n : Nat) (c : ServerConnection) :
    serverStages (r.put k c) n = if k = n then c.stages else serverStages r n := by
  unfold serverStages
  rw [ServerRun.get_put]
  split <;> rfl

/-- A change of one connection. -/
theorem serverStages_moves (r' : ServerRun σ) {r : ServerRun σ} {c c' : ServerConnection} {old new : Option Stage}
    (h : r.connections.get? n = some c) (hm : Moves c.stages c'.stages old new) :
    Moves (serverStages r n) (serverStages (r'.put n c') n) old new := by
  rw [serverStages_put, if_pos rfl, serverStages_of_get h]
  exact hm

theorem serverStages_of_ne {r r' : ServerRun σ} {c' : ServerConnection} {k : Nat}
    (hr : r'.connections = r.connections) (h : k ≠ n) : serverStages (r'.put k c') n = serverStages r n := by
  rw [serverStages_put, if_neg h]
  unfold serverStages
  rw [hr]

/-- A change of one wire. -/
theorem wireStages_moves {a b : FrameCodec} {wires : Table Nat Wire} {w w' : Wire} {old new : Option Stage}
    (h : wires.get? n = some w) (hm : Moves (w.stages a b) (w'.stages a b) old new) :
    Moves (wireStages a b wires n) (wireStages a b (wires.set n w') n) old new := by
  rw [wireStages_set, if_pos rfl, wireStages_of_get h]
  exact hm

theorem wireStages_of_ne {a b : FrameCodec} {wires : Table Nat Wire} {w' : Wire} {k : Nat} (h : k ≠ n) :
    wireStages a b (wires.set k w') n = wireStages a b wires n := by
  rw [wireStages_set, if_neg h]

/-- A change of one wire that leaves what is on it. -/
theorem wireStages_same {a b : FrameCodec} {wires : Table Nat Wire} {w w' : Wire} {k : Nat}
    (h : wires.get? k = some w) (hs : w'.stages a b = w.stages a b) :
    wireStages a b (wires.set k w') n = wireStages a b wires n := by
  by_cases hk : k = n
  · subst hk
    rw [wireStages_set, if_pos rfl, wireStages_of_get h, hs]
  · exact wireStages_of_ne hk

/-- A frame that the client writes, and that the server will understand. -/
theorem Writable.moves_up (hw : Writable s) {m : Message} {w : Wire} {frame : Bytes} (hget : s.wires.get? n = some w)
    (hu : FrameCodec.Understood s.codec s.server.codec m) (he : s.codec.encode m = .ok frame) :
    Moves (wireStages s.codec s.server.codec s.wires n)
      (wireStages s.codec s.server.codec (s.wires.set n { w with up := w.up.put frame }) n)
      none (some (.asked (.ok m))) := by
  have hd := FrameCodec.decode_of_understood hw.short.2 hu he []
  rw [List.append_nil] at hd
  exact wireStages_moves hget (Wire.moves_putUp (hw.whole n w hget).1 hd)

/-- A frame that the server writes, and that the client will understand. -/
theorem Writable.moves_down (hw : Writable s) {m : Message} {w : Wire} {frame : Bytes}
    (hget : s.wires.get? n = some w) (hu : FrameCodec.Understood s.server.codec s.codec m)
    (he : s.server.codec.encode m = .ok frame) :
    Moves (wireStages s.codec s.server.codec s.wires n)
      (wireStages s.codec s.server.codec (s.wires.set n { w with down := w.down.put frame }) n)
      none (some (.answered (.ok m))) := by
  have hd := FrameCodec.decode_of_understood hw.short.1 hu he []
  rw [List.append_nil] at hd
  exact wireStages_moves hget (Wire.moves_putDown (hw.whole n w hget).2 hd)

/-- A reply in the queue of a connection is at a stage. -/
theorem replied_mem_stages {c : ServerConnection} {m : Message} {rest : List Message}
    (hc : s.server.connections.get? n = some c) (hq : c.queue = m :: rest) : .replied m ∈ s.stages n := by
  have hout := (ServerConnection.moves_written hq c.written).mem_old
  unfold stages
  rw [add_assoc, serverStages_of_get hc]
  exact Multiset.mem_add.mpr (.inl hout)

/-- A frame that the reader of the server has not looked at is at a stage. -/
theorem asked_mem_stages {c : ServerConnection} {i : Inbound} {rest : List Inbound}
    (hc : s.server.connections.get? n = some c) (hi : c.inbound = i :: rest) : .asked i ∈ s.stages n := by
  have hin := (ServerConnection.moves_read hi .ignore).mem_old
  unfold stages
  rw [add_assoc, serverStages_of_get hc]
  exact Multiset.mem_add.mpr (.inl hin)

/-! ### Steps of the server -/

/-- What moves at the server where its readers and workers do something. -/
theorem moving_of_serves {r : ServerStep} (h : ServerRun.Serves s.server r t.server) (hr : r.isServing = true)
    (n : Nat) :
    ∃ old new, Moving s n (.serve r) old new ∧ Moves (serverStages s.server n) (serverStages t.server n) old new := by
  have still : ∀ k c', t.server = s.server.put k c' → k ≠ n → (∀ now, r ≠ .read n now) →
      ∃ old new, Moving s n (.serve r) old new ∧
        Moves (serverStages s.server n) (serverStages t.server n) old new := by
    intro k c' ht hk hread
    rw [ht]
    exact ⟨none, none, .of_not (by simp) (by simp) (by simpa using hread), .of_eq (serverStages_of_ne rfl hk)⟩
  generalize ht : t.server = q at h still ⊢
  cases h with
  | opened | arrived | wrote => cases hr
  | @looked k c now i rest hc hi =>
    by_cases hk : k = n
    · subst hk
      exact ⟨_, _, .looked hc (by rw [hi]; rfl), serverStages_moves _ hc (ServerConnection.moves_read hi _)⟩
    · exact ⟨none, none, .of_not (by simp) (by simp) (by simp [hk]), .of_eq (serverStages_of_ne rfl hk)⟩
  | @started k place c i hc hi =>
    by_cases hk : k = n
    · subst hk
      refine ⟨none, none, .of_quiet rfl, serverStages_moves _ hc (.of_eq ?_)⟩
      exact ServerConnection.stages_started hi
    · exact still k _ rfl hk (by simp)
  | @finished k place c i hc hi =>
    by_cases hk : k = n
    · subst hk
      exact ⟨_, _, .finished, serverStages_moves _ hc (ServerConnection.moves_finished hi _)⟩
    · exact still k _ rfl hk (by simp)
  | @enqueued k c m rest hc hm =>
    by_cases hk : k = n
    · subst hk
      refine ⟨none, none, .of_quiet rfl, serverStages_moves _ hc (.of_eq ?_)⟩
      exact ServerConnection.stages_enqueued hm
    · exact still k _ rfl hk (by simp)

/-! ### Steps of the session -/

/-- The server's part of a step, on live connections. -/
theorem Stepped.serves (h : Stepped s e plan t note) (hw : Writable s) {r : ServerStep} (hr : plan.server = some r) :
    ServerRun.Serves s.server r t.server := by
  have hstep := h.server r hr
  have hplanned := h.planned
  refine ServerRun.serves_of_step ?_ hw.live ?_ hstep
  · cases hplanned with
    | connect | arrived | replied =>
      cases hr
      rfl
    | served ht =>
      cases hr
      cases r <;> first | rfl | cases ht
    | _ => cases hr
  · intro n c m rest hwrite hc hq
    subst hwrite
    cases hplanned with
    | replied _ hc' hq' he =>
      cases hr
      rw [hc] at hc'
      cases hc'
      rw [hq] at hq'
      cases hq'
      rw [he]
      rfl
    | served ht =>
      cases hr
      cases ht
    | connect | arrived => cases hr
    | _ => cases hr

/-- The codecs stay. -/
theorem Stepped.codecs (h : Stepped s e plan t note) (hw : Writable s) :
    t.codec = s.codec ∧ t.server.codec = s.server.codec := by
  refine ⟨h.codec, ?_⟩
  cases hr : plan.server with
  | none => rw [h.resting hr]
  | some r => exact (h.serves hw hr).same.1

/-- The stage at a reader of the client, where the client does nothing about it. -/
theorem Stepped.held (h : Stepped s e plan t note) (hp : s.pool.Numbered)
    (hr : ∀ p, plan.client = some p → p ≠ .handOver n ∧ ∀ i now, p ≠ .receive n i now) :
    t.pool.view.held n = s.pool.view.held n := by
  cases hc : plan.client with
  | none => rw [(h.idle hc).1]
  | some p =>
    obtain ⟨a, ha, -⟩ := h.client p hc
    obtain ⟨hhand, hrec⟩ := hr p hc
    cases Pool.holds_of_step hp ha n with
    | took => exact absurd rfl (hrec _ _)
    | handed => exact absurd rfl hhand
    | same hs => exact hs

/-- **A step moves one call on a connection, or none.** -/
theorem moving_of_step (h : Stepped s e plan t note) (hw : Writable s) (hp : s.pool.Numbered) (n : Nat) :
    ∃ old new, Moving s n e old new ∧ Moves (s.stages n) (t.stages n) old new := by
  obtain ⟨hcodec, hserver⟩ := h.codecs hw
  have hwires := h.wires
  have hplanned := h.planned
  have hheld := h.held hp (n := n)
  -- the stages after the step, side by side
  have hstages : t.stages n = serverStages t.server n + wireStages s.codec s.server.codec plan.wires n +
      ↑(t.pool.view.held n).toList := by
    rw [stages, hcodec, hserver, hwires]
  rw [hstages]
  unfold stages
  cases hplanned with
  | @client p hlocal =>
    rw [h.resting rfl]
    obtain ⟨a, ha, -⟩ := h.client p rfl
    cases Pool.holds_of_step hp ha n with
    | took => cases hlocal
    | @handed _ id r hold hnew =>
      rw [hold, hnew]
      exact ⟨some (.held id r), none, .handed hold, .swap _ _ _⟩
    | same hs hne =>
      rw [hs]
      exact ⟨none, none, .of_not (by simp) (by simpa using hne) (by simp), .refl _⟩
  | @connect k peer now =>
    rw [hheld (by simp)]
    have hserves := h.serves hw rfl
    generalize t.server = q at hserves ⊢
    obtain ⟨hk⟩ := hserves
    have hwire : s.wires.get? k = none := by
      have hlinked := hw.linked k
      rw [hk] at hlinked
      simpa using hlinked
    refine ⟨none, none, .of_quiet rfl, .of_eq ?_⟩
    rw [serverStages_put, wireStages_set]
    by_cases hkn : k = n
    · subst hkn
      simp [serverStages, wireStages, hk, hwire, ServerConnection.stages_opened, Wire.stages_new]
    · simp [hkn]
  | send =>
    rw [h.resting rfl, hheld (by simp)]
    exact ⟨none, none, .of_quiet rfl, .refl _⟩
  | @put k m x w frame hm hx hget he hph =>
    rw [h.resting rfl, hheld (by simp)]
    by_cases hk : x.connection = n
    · subst hk
      have hup := hw.moves_up hget (hw.outgoing k m hm) he
      exact ⟨none, some (.asked (.ok m)), .put hm hx rfl, Moves.add_right (Moves.add_left hup _) _⟩
    · refine ⟨none, none, .still ?_ (by simp) (by simp), .of_eq ?_⟩
      · intro k' x' hk' hx'
        cases hk'
        rw [hx] at hx'
        cases hx'
        exact hk
      · rw [wireStages_of_ne hk]
  | written =>
    rw [h.resting rfl, hheld (by simp)]
    exact ⟨none, none, .of_quiet rfl, .refl _⟩
  | @probed k reclaimAfter now w frame hi hget he =>
    rw [h.resting rfl, hheld (by simp)]
    by_cases hk : k = n
    · subst hk
      have hup := hw.moves_up hget (hw.probes s.pool.nextProbe) he
      exact ⟨none, _, .probed, Moves.add_right (Moves.add_left hup _) _⟩
    · refine ⟨none, none, .of_quiet rfl, .of_eq ?_⟩
      rw [wireStages_of_ne hk]
  | looked =>
    rw [h.resting rfl, hheld (by simp)]
    exact ⟨none, none, .of_quiet rfl, .refl _⟩
  | @carriedUp k b w hget =>
    rw [h.resting rfl, hheld (by simp), wireStages_same hget (Wire.stages_carryUp ..)]
    exact ⟨none, none, .of_quiet rfl, .refl _⟩
  | @carriedDown k b w hget =>
    rw [h.resting rfl, hheld (by simp), wireStages_same hget (Wire.stages_carryDown ..)]
    exact ⟨none, none, .of_quiet rfl, .refl _⟩
  | @arrived k w i up hget htake =>
    rw [hheld (by simp)]
    have hserves := h.serves hw rfl
    generalize t.server = q at hserves ⊢
    cases hserves with
    | @arrived _ c _ hc =>
      refine ⟨none, none, .of_quiet rfl, .of_eq ?_⟩
      by_cases hk : k = n
      · subst hk
        have hup := wireStages_moves hget (Wire.moves_takeUp (a := s.codec) htake)
        have hin := serverStages_moves s.server hc (ServerConnection.moves_arrived i)
        rw [Moves.cancel hin hup]
      · rw [serverStages_of_ne rfl hk, wireStages_of_ne hk]
  | @served r hr =>
    rw [hheld (by simp)]
    obtain ⟨old, new, hmoving, hmoves⟩ := moving_of_serves (h.serves hw rfl) hr n
    exact ⟨old, new, hmoving, Moves.add_right (Moves.add_right hmoves _) _⟩
  | @replied k w c m reply rest frame hget hc hq he =>
    rw [hheld (by simp)]
    have hserves := h.serves hw rfl
    generalize t.server = q at hserves ⊢
    cases hserves with
    | @wrote _ c' m' rest' written hc' hq' he' =>
      rw [hc] at hc'
      cases hc'
      rw [hq] at hq'
      cases hq'
      by_cases hk : k = n
      · subst hk
        have hout := serverStages_moves s.server hc
          (ServerConnection.moves_written hq (c.written ++ [written]))
        -- a reply that the client understands is written as it is
        have hu := hw.replies k m (replied_mem_stages hc hq)
        obtain ⟨frame', hframe, he''⟩ := FrameCodec.encodeReply_of_understood hu
        rw [he] at he''
        cases he''
        exact ⟨_, _, .replied, Moves.add_right (Moves.join hout (hw.moves_down hget hu hframe)) _⟩
      · refine ⟨none, none, .of_quiet rfl, .of_eq ?_⟩
        rw [serverStages_of_ne rfl hk, wireStages_of_ne hk]
  | @received k now w i down hget htake =>
    rw [h.resting rfl]
    obtain ⟨a, ha, -⟩ := h.client _ rfl
    cases Pool.holds_of_step hp ha n with
    | took hold hnew =>
      rw [hold, hnew]
      refine ⟨some (.answered i), i.stage?, .received, Moves.join (Moves.add_left ?_ _) ?_⟩
      · exact wireStages_moves hget (Wire.moves_takeDown htake)
      · have hin := Moves.swap 0 none i.stage?
        rwa [zero_add, zero_add] at hin
    | same hs hne hrec =>
      have hk : k ≠ n := by
        rintro rfl
        exact hrec i now rfl
      refine ⟨none, none, .of_quiet rfl, .of_eq ?_⟩
      rw [hs, wireStages_of_ne hk]

end Session

end Rpc
