import Rpc.Proofs.Session.Progress

/-!
# Work comes to an end

- `Session.effort`: how much is left to do for the calls under way: how often sends, bytes, frames, replies and
  responses go on until nobody but callers has anything to do with them;
- `Session.effort_lt`: every step of work leaves less to do;
- `Session.length_le_effort`: so as long as callers begin nothing, there are so many steps of work at most, and no more
  can be done in the end (`Session.exists_idle`).
-/

namespace Rpc

variable {σ : Type}

/-! ## At the client -/

/-- How often a send goes on: it gets the writer, and it is over. -/
def Send.effort (x : Send) : Nat :=
  match x.phase with
  | .queued => 2
  | .started => 1

/-- How often the reader of a connection goes on with what it holds. -/
def Connection.effort (c : Connection) : Nat :=
  match c.reader with
  | .holding _ _ => 1
  | .reading | .finished => 0

namespace Pool

variable {p q : Pool} {x : PoolAnswer}

/-- How often the client goes on with sends and responses. -/
def effort (p : Pool) : Nat := p.sends.total (·.effort) + p.connections.total (·.effort)

theorem effort_connection (c : Connection) (f : Connection → Connection) (h : (f c).reader = c.reader) :
    (f c).effort = c.effort := by
  unfold Connection.effort
  rw [h]

/-- Changes that are nothing to readers. -/
theorem total_update (p : Pool) (n : Nat) (f : Connection → Connection) (h : ∀ c, (f c).reader = c.reader) :
    (p.update n f).connections.total (·.effort) = p.connections.total (·.effort) :=
  Table.total_modify_eq p.connections n fun c => effort_connection c f (h c)

theorem effort_beginWrite {k : Nat} (h : p.step? (.beginWrite k) = some (q, x)) : q.effort < p.effort := by
  simp only [step?] at h
  split at h
  · rename_i y hk
    obtain ⟨hb, hx⟩ := silently_eq_some h
    cases hx
    have hphase : y.phase = .queued := by
      rw [Bool.and_eq_true, decide_eq_true_eq] at hb
      exact hb.1
    have hconn := total_update p y.connection (fun c => { c with writerTaken := true }) fun _ => rfl
    have hsends := p.sends.total_set (·.effort) k { y with phase := .started }
    have hold : y.effort = 2 := by unfold Send.effort; rw [hphase]
    have hnew : Send.effort { y with phase := .started } = 1 := rfl
    rw [hk, Option.map_some, Option.getD_some] at hsends
    unfold beginWrite
    rw [hk]
    show (p.sends.set k { y with phase := .started }).total (·.effort) + _ < _
    unfold effort
    rw [hconn]
    omega
  · cases h

/-- A send that is over is nothing to go on with. -/
theorem effort_forget {k : Nat} {y : Send} (hk : p.sends.get? k = some y) : (p.forget k y).effort < p.effort := by
  have hconn := total_update p y.connection
    (fun c =>
      let c := c.stopWriting y.requestId
      if y.phase = .started then { c with writerTaken := false } else c)
    (fun c => by dsimp only; split <;> rfl)
  have hsends := Table.total_erase hk (·.effort)
  have hpos : 0 < y.effort := by
    unfold Send.effort
    split <;> decide
  show (p.sends.erase k).total (·.effort) + _ < _
  unfold effort
  rw [← hconn]
  exact Nat.add_lt_add_right (by omega) _

theorem effort_written {k : Nat} {now : Instant} (h : p.step? (.endSend k .written now) = some (q, x)) :
    q.effort < p.effort := by
  simp only [step?] at h
  split at h
  · cases h
  · rename_i y hk
    split at h
    · simp only [endSend, hk] at h
      cases h
      have htouch := total_update p y.connection (·.touch now) fun _ => rfl
      let r := p.update y.connection (·.touch now)
      have hexpect := total_update r y.connection (·.expect y.requestId) fun _ => rfl
      refine Nat.lt_of_lt_of_le (effort_forget hk) (Nat.le_of_eq ?_)
      show _ + (r.update y.connection (·.expect y.requestId)).connections.total _ = _
      rw [hexpect, htouch]
      rfl
    · cases h

theorem effort_handOver {n : Nat} (h : p.step? (.handOver n) = some (q, x)) : q.effort < p.effort := by
  obtain ⟨hb, hx⟩ := silently_eq_some h
  cases hx
  obtain ⟨c, id, r, hc, hr, -⟩ := holding_of_canHandOver hb
  have hread : (p.update n fun c => { c with reader := .reading }).connections.total (·.effort) + 1 =
      p.connections.total (·.effort) := by
    have hsum := Table.total_modify hc (·.effort) fun c => { c with reader := .reading }
    have hold : c.effort = 1 := by unfold Connection.effort; rw [hr]
    have hnew : Connection.effort { c with reader := .reading } = 0 := rfl
    rw [hold, hnew] at hsum
    exact hsum
  unfold handOver
  rw [hc]
  simp only [hr]
  split
  · have hanswered := total_update (p.update n fun c => { c with reader := .reading }) n (·.answered id)
      fun c => (answered_fields c id).2.2
    show _ + (((p.update n fun c => { c with reader := .reading }).update n (·.answered id)).connections.total _) < _
    unfold effort
    rw [hanswered]
    show p.sends.total _ + _ < _
    omega
  · show p.sends.total _ + _ < _
    unfold effort
    omega

theorem effort_receive {n : Nat} {i : Inbound} {now : Instant} (h : p.step? (.receive n i now) = some (q, x)) :
    q.effort ≤ p.effort + 1 := by
  obtain ⟨hb, hx⟩ := silently_eq_some h
  cases hx
  obtain ⟨c, hc, hr⟩ := reading_of_isReading hb
  have hconn := Table.total_modify hc (·.effort) (·.receive i now)
  have hle : (c.receive i now).effort ≤ 1 := by
    unfold Connection.effort
    split <;> omega
  show p.sends.total _ + (p.connections.modify n (·.receive i now)).total _ ≤ _
  unfold effort
  omega

end Pool

/-! ## At the server -/

namespace ServerRun

variable {q r : ServerRun σ}

theorem codec_of_step {s : ServerStep} (h : r.step? s = some q) : q.codec = r.codec := by
  rcases step_cases .empty h with ⟨_, _, -, -, rfl⟩ | ⟨-, rfl⟩ | ⟨_, _, _, -, -, -, hch, -⟩
  · rfl
  · rfl
  · exact hch.codec

/-- A step of work leaves less to do. -/
theorem effort_lt_of_step {s : ServerStep} (hs : s.isWork = true) (h : r.step? s = some q) : q.effort < r.effort := by
  have hlen := length_le_effort (.next h (.refl q)) (by simpa using hs)
  rw [List.length_singleton] at hlen
  omega

/-- A frame that comes in is so much to do. -/
theorem effort_arrived {n : Nat} {i : Inbound} (h : r.step? (.arrived n i) = some q) : q.effort = r.effort + 6 := by
  obtain ⟨c, hc, h⟩ := Option.bind_eq_some_iff.mp h
  simp only [stepAt] at h
  split at h
  · cases h
    have hsum := r.connections.total_set (·.effort) n { c with inbound := c.inbound ++ [i] }
    rw [hc, Option.map_some, Option.getD_some] at hsum
    have hmore : ServerConnection.effort { c with inbound := c.inbound ++ [i] } = c.effort + 6 := by
      simp only [ServerConnection.effort, List.length_append, List.length_singleton]
      omega
    unfold effort put
    dsimp only
    omega
  · cases h

end ServerRun

/-! ## On the wires -/

/-- How much one step of a reply on the server is worth, for replies whose frames are no longer than a codec allows:
more than the frame when it is on its way, each byte of which is carried, and taken off. -/
def replyCost (b : FrameCodec) : Nat := 3 * b.maxFrameLength + 1

/-- How much a byte that has arrived at the server is worth: as much as a frame that comes in there. -/
def byteCost (b : FrameCodec) : Nat := 6 * replyCost b + 1

/-- How much a request is worth that is still to be put on a wire. -/
def requestCost (a b : FrameCodec) : Nat := (byteCost b + 1) * a.maxFrameLength + 1

namespace Wire

variable {b c : FrameCodec} {w : Wire}

/-- How much is left to do for the bytes on a wire. -/
def effort (b : FrameCodec) (w : Wire) : Nat :=
  (byteCost b + 1) * w.up.sent.length + byteCost b * w.up.arrived.length + 3 * w.down.sent.length +
    2 * w.down.arrived.length

theorem effort_putUp (b : FrameCodec) (w : Wire) (frame : Bytes) :
    { w with up := w.up.put frame }.effort b = w.effort b + (byteCost b + 1) * frame.length := by
  simp only [effort, Flow.put, List.length_append]
  ring

theorem effort_putDown (b : FrameCodec) (w : Wire) (frame : Bytes) :
    { w with down := w.down.put frame }.effort b = w.effort b + 3 * frame.length := by
  simp only [effort, Flow.put, List.length_append]
  ring

theorem effort_carryUp {k : Nat} (h : k ≤ w.up.sent.length) :
    { w with up := w.up.carry k }.effort b + k = w.effort b := by
  obtain ⟨d, hd⟩ := Nat.exists_eq_add_of_le h
  simp only [effort, Flow.carry, List.length_append, List.length_drop, List.length_take, hd, Nat.add_sub_cancel_left,
    Nat.min_eq_left (Nat.le_add_right k d)]
  ring

theorem effort_carryDown {k : Nat} (h : k ≤ w.down.sent.length) :
    { w with down := w.down.carry k }.effort b + k = w.effort b := by
  obtain ⟨d, hd⟩ := Nat.exists_eq_add_of_le h
  simp only [effort, Flow.carry, List.length_append, List.length_drop, List.length_take, hd, Nat.add_sub_cancel_left,
    Nat.min_eq_left (Nat.le_add_right k d)]
  ring

/-- A frame that is taken off is at least one byte long. -/
theorem length_of_take {f g : Flow} {i : Inbound} (h : f.take? c = some (i, g)) :
    g.sent = f.sent ∧ g.arrived.length + 1 ≤ f.arrived.length := by
  obtain ⟨rest, hd, rfl⟩ := Flow.take_eq_some h
  have hlen := FrameCodec.length_of_decode_item hd
  have hpos : 0 < headerLength := by decide
  exact ⟨rfl, by dsimp only; omega⟩

theorem effort_takeUp {i : Inbound} {up : Flow} (h : w.up.take? c = some (i, up)) :
    { w with up := up }.effort b + byteCost b ≤ w.effort b := by
  obtain ⟨hsent, hlen⟩ := length_of_take h
  have hmul := Nat.mul_le_mul_left (byteCost b) hlen
  rw [Nat.mul_add, Nat.mul_one] at hmul
  simp only [effort, hsent]
  omega

theorem effort_takeDown {i : Inbound} {down : Flow} (h : w.down.take? c = some (i, down)) :
    { w with down := down }.effort b + 2 ≤ w.effort b := by
  obtain ⟨hsent, hlen⟩ := length_of_take h
  simp only [effort, hsent]
  omega

end Wire

/-! ## Everywhere -/

namespace Session

variable {s t : Session σ} {e : SessionStep} {plan : Plan} {note : SessionNote}

/-- How much is left to do for the calls under way. -/
def effort (s : Session σ) : Nat :=
  s.pool.effort + s.outgoing.total (fun _ => requestCost s.codec s.server.codec) +
    s.wires.total (·.effort s.server.codec) + replyCost s.server.codec * s.server.effort

/-- **Work leaves less to do.** -/
theorem effort_lt (he : e.isWork = true) (h : s.step? e = some (t, note)) : t.effort < s.effort := by
  obtain ⟨plan, h⟩ := stepped_of_step h
  have hserver : t.server.codec = s.server.codec := by
    cases hr : plan.server with
    | none => rw [h.resting hr]
    | some r => exact ServerRun.codec_of_step (h.server r hr)
  unfold effort
  rw [h.codec, hserver, h.outgoing, h.wires]
  -- a change of one wire
  have hset : ∀ {k : Nat} {w : Wire} (w' : Wire), s.wires.get? k = some w →
      (s.wires.set k w').total (·.effort s.server.codec) + w.effort s.server.codec =
        s.wires.total (·.effort s.server.codec) + w'.effort s.server.codec := by
    intro k w w' hw
    have hsum := s.wires.total_set (·.effort s.server.codec) k w'
    rwa [hw, Option.map_some, Option.getD_some] at hsum
  -- a change at the server
  have hwork : ∀ r, r.isWork = true → s.server.step? r = some t.server →
      replyCost s.server.codec * t.server.effort + replyCost s.server.codec ≤
        replyCost s.server.codec * s.server.effort := by
    intro r hr hstep
    have hlt := ServerRun.effort_lt_of_step hr hstep
    have hmul := Nat.mul_le_mul_left (replyCost s.server.codec) (Nat.succ_le_of_lt hlt)
    rwa [Nat.succ_eq_add_one, Nat.mul_add, Nat.mul_one] at hmul
  have hcost : 0 < replyCost s.server.codec := Nat.succ_pos _
  cases h.planned with
  | connect | send | probed | looked => cases he
  | @client q hl =>
    rw [h.resting rfl]
    obtain ⟨x, hx, -⟩ := h.client q rfl
    have hlt : t.pool.effort < s.pool.effort := by
      cases q with
      | beginWrite k => exact Pool.effort_beginWrite hx
      | handOver n => exact Pool.effort_handOver hx
      | _ => cases he
    dsimp only
    omega
  | @put k m x w frame hm hx hw hf =>
    rw [h.resting rfl, (h.idle rfl).1]
    have hout := Table.total_erase hm (fun _ => requestCost s.codec s.server.codec)
    have hwire := hset { w with up := w.up.put frame } hw
    have hlen := Nat.mul_le_mul_left (byteCost s.server.codec + 1) (FrameCodec.length_of_encode hf)
    rw [Wire.effort_putUp] at hwire
    have hrequest : requestCost s.codec s.server.codec =
        (byteCost s.server.codec + 1) * s.codec.maxFrameLength + 1 := rfl
    dsimp only
    omega
  | written =>
    rw [h.resting rfl]
    obtain ⟨x, hx, -⟩ := h.client _ rfl
    have hlt := Pool.effort_written hx
    dsimp only
    omega
  | @carriedUp n k w hw hk hlen =>
    rw [h.resting rfl, (h.idle rfl).1]
    have hwire := hset { w with up := w.up.carry k } hw
    have hcarry := Wire.effort_carryUp (b := s.server.codec) hlen
    dsimp only
    omega
  | @carriedDown n k w hw hk hlen =>
    rw [h.resting rfl, (h.idle rfl).1]
    have hwire := hset { w with down := w.down.carry k } hw
    have hcarry := Wire.effort_carryDown (b := s.server.codec) hlen
    dsimp only
    omega
  | @arrived n w i up hw htake =>
    rw [(h.idle rfl).1]
    have hwire := hset { w with up := up } hw
    have htaken := Wire.effort_takeUp (b := s.server.codec) htake
    have hmore := ServerRun.effort_arrived (h.server _ rfl)
    rw [hmore, Nat.mul_add]
    have hbyte : byteCost s.server.codec = 6 * replyCost s.server.codec + 1 := rfl
    dsimp only
    omega
  | @served r hr =>
    rw [(h.idle rfl).1]
    have hserve := hwork r (by cases r <;> first | rfl | cases hr) (h.server r rfl)
    dsimp only
    omega
  | @replied n w c m reply rest frame hw hc hq hf =>
    rw [(h.idle rfl).1]
    have hwire := hset { w with down := w.down.put frame } hw
    rw [Wire.effort_putDown] at hwire
    have hreply := hwork (.write n) rfl (h.server _ rfl)
    have hlen := FrameCodec.length_of_encodeReply hf
    have hbytes : replyCost s.server.codec = 3 * s.server.codec.maxFrameLength + 1 := rfl
    dsimp only
    omega
  | @received n now w i down hw htake =>
    rw [h.resting rfl]
    obtain ⟨x, hx, -⟩ := h.client _ rfl
    have hle := Pool.effort_receive hx
    have hwire := hset { w with down := down } hw
    have htaken := Wire.effort_takeDown (b := s.server.codec) htake
    dsimp only
    omega

/-- **Work comes to an end**: a run of work has so many steps at most. -/
theorem length_le_effort {run : SessionRun} (h : Reaches s run t) (hw : ∀ x ∈ run, x.1.isWork = true) :
    run.length + t.effort ≤ s.effort := by
  induction h with
  | refl => simp
  | @next s t u e note run hs _ ih =>
    have hlt := effort_lt (hw (e, note) List.mem_cons_self) hs
    have hrest := ih fun x hx => hw x (List.mem_cons_of_mem _ hx)
    rw [List.length_cons]
    omega

/-- Work can be gone on with until there is no more to do. -/
theorem exists_idle (s : Session σ) :
    ∃ run t, Reaches s run t ∧ (∀ x ∈ run, x.1.isWork = true) ∧ ¬ t.CanWork := by
  by_cases hs : s.CanWork
  · obtain ⟨e, he, hstep⟩ := hs
    obtain ⟨⟨t, note⟩, hstep⟩ := Option.isSome_iff_exists.mp hstep
    have hlt := effort_lt he hstep
    obtain ⟨run, u, hrun, hwork, hidle⟩ := exists_idle t
    exact ⟨(e, note) :: run, u, .next hstep hrun, List.forall_mem_cons.mpr ⟨he, hwork⟩, hidle⟩
  · exact ⟨[], s, .refl s, List.forall_mem_nil _, hs⟩
termination_by s.effort

end Session

end Rpc
