import Rpc.Proofs.Client.Writers
import Rpc.Proofs.Server.Closing
import Rpc.Proofs.Session.Asked

/-!
# No session is stuck

- `SessionStep.isWork`: steps of those who carry calls on: readers, workers, writers and wires, as opposed to callers;
- `Session.CanWork`: such a step is possible;
- `Session.Accounted.can_work_of_send`, `can_work_of_connection`, `can_work_of_holding`, `can_work_of_wire`: it is,
  where anything is under way, at the client, at the server, or in between;
- `Session.Accounted.can_work`: so it is where a call is at some stage.
-/

namespace Rpc

variable {σ : Type}

/-- Steps of readers, workers, writers and wires. -/
def SessionStep.isWork : SessionStep → Bool
  | .client (.beginWrite _) | .client (.handOver _) | .put _ | .written .. | .carryUp .. | .carryDown .. | .arrive _
  | .serve _ | .reply _ | .receive .. => true
  | _ => false

/-- Those who carry calls on send no requests of their own. -/
theorem requests_of_work {run : SessionRun} (h : ∀ y ∈ run, y.1.isWork = true) : requests run = [] := by
  refine List.filterMap_eq_nil_iff.mpr fun y hy => ?_
  have hwork := h y hy
  obtain ⟨e, note⟩ := y
  cases e <;> first | rfl | cases hwork

namespace Session

variable {p : Pipeline σ} {a b : FrameCodec} {run : SessionRun} {s : Session σ} {n : Nat}

/-- Somebody can carry a call on. -/
def CanWork (s : Session σ) : Prop := ∃ e, SessionStep.isWork e = true ∧ (s.step? e).isSome = true

/-! ## Sends -/

/-- A send that has the writer can be put on the wire, or is over. -/
theorem Accounted.can_work_of_started (h : Accounted p a b run s) {k : Nat} {x : Send}
    (hk : s.pool.sends.get? k = some x) (hx : x.phase = .started) : s.CanWork := by
  cases hout : s.outgoing.get? k with
  | none =>
    refine ⟨.written k 0, rfl, step_isSome (.written hout) ?_ (by simp)⟩
    intro q hq
    cases hq
    simp [Pool.step?, hk, Pool.canEnd, hx, Pool.endSend]
  | some m =>
    have hreader := h.sound.numbered.sends k _ _ (Pool.view_sends hk)
    obtain ⟨w, hw⟩ := Option.isSome_iff_exists.mp ((h.sound.joined x.connection).mpr hreader)
    obtain ⟨frame, he, -⟩ := (h.writable.outgoing k m hout).frame
    exact ⟨.put k, rfl, step_isSome (.put hout hk hw he hx) (by simp) (by simp)⟩

/-- A send can get the writer, or another send has it. -/
theorem Accounted.can_work_of_send (h : Accounted p a b run s) (hm : s.pool.Manned) {k : Nat} {x : Send}
    (hk : s.pool.sends.get? k = some x) : s.CanWork := by
  cases hx : x.phase with
  | started => exact h.can_work_of_started hk hx
  | queued =>
    obtain ⟨c, hc⟩ := Pool.get_of_reader (h.sound.numbered.sends k _ _ (Pool.view_sends hk))
    cases ht : c.writerTaken with
    | true =>
      obtain ⟨j, y, hj, -, hy⟩ := hm.writer x.connection c hc ht
      exact h.can_work_of_started hj hy
    | false =>
      refine ⟨.client (.beginWrite k), rfl, step_isSome (.client rfl) ?_ nofun⟩
      intro q hq
      cases hq
      simp [Pool.step?, hk, hx, Pool.writerFree, hc, ht, Pool.silently]

/-! ## The server -/

/-- A step of the server is one of the session. -/
theorem can_work_of_serves {r : ServerStep} (hr : r.isServing = true) (h : (s.server.step? r).isSome = true) :
    s.CanWork := by
  refine ⟨.serve r, rfl, step_isSome (.served hr) nofun ?_⟩
  intro q hq
  cases hq
  exact h

/-- Whatever is on a connection of the server can be carried on, or a worker is busy elsewhere. -/
theorem Accounted.can_work_of_connection (h : Accounted p a b run s) {c : ServerConnection}
    (hc : s.server.connections.get? n = some c) (hk : 0 < s.server.workers)
    (hkeys : s.server.connections.keys.Nodup) (hs : c.stages ≠ 0) : s.CanWork := by
  have hlive := h.sound.live n c hc
  have hat : ∀ r : ServerStep, r.connection? = some n → (s.server.stepAt n c r).isSome = true →
      (s.server.step? r).isSome = true := by
    intro r hn hr
    rw [ServerRun.step_about hn, hc]
    exact hr
  cases hq : c.queue with
  | cons m rest =>
    obtain ⟨w, hw⟩ := Option.isSome_iff_exists.mp ((h.sound.linked n).mpr (by rw [hc]; rfl))
    obtain ⟨frame, -, he⟩ := FrameCodec.encodeReply_of_understood (h.writable.replies n m (replied_mem_stages hc hq))
    refine ⟨.reply n, rfl, step_isSome (.replied hw hc hq he) nofun ?_⟩
    intro r hr
    cases hr
    refine hat (.write n) rfl ?_
    simp [ServerRun.stepAt, hq, hlive.writing, he]
  | nil =>
    cases ho : c.owed with
    | cons m rest =>
      refine can_work_of_serves (r := .enqueue n) rfl (hat _ rfl ?_)
      simp only [ServerRun.stepAt, ho]
      rw [if_pos hlive.writing, Option.isSome_map]
      exact ServerRun.queued_isSome (c := { c with owed := rest }) hq _
    | nil =>
      cases hin : c.inbound with
      | cons i rest =>
        refine can_work_of_serves (r := .read n 0) rfl (hat _ rfl ?_)
        simp only [ServerRun.stepAt, hin]
        rw [if_pos (by rw [hlive.reading, hlive.writing]; rfl)]
        exact ServerRun.readFrame_isSome (c := { c with inbound := rest }) hq i 0
      | nil =>
        cases hrun : c.running with
        | cons i rest =>
          refine can_work_of_serves (r := .finish n 0) rfl (hat _ rfl ?_)
          simp [ServerRun.stepAt, hrun]
        | nil =>
          cases hwait : c.waiting with
          | nil => exact absurd (by simp [ServerConnection.stages, hq, ho, hin, hrun, hwait]) hs
          | cons i rest =>
            by_cases hfree : s.server.running < s.server.workers
            · refine can_work_of_serves (r := .start n 0) rfl (hat _ rfl ?_)
              simp [ServerRun.stepAt, hwait, hfree]
            · -- some other connection has the workers
              have hpos : 0 < s.server.running := Nat.lt_of_lt_of_le hk (Nat.le_of_not_lt hfree)
              obtain ⟨j, d, hd, hlen⟩ := ServerRun.exists_running hkeys hpos
              refine can_work_of_serves (r := .finish j 0) rfl ?_
              rw [ServerRun.step_about (n := j) rfl, hd]
              simp [ServerRun.stepAt, List.getElem?_eq_getElem hlen]

/-! ## The client -/

/-- A response that a reader of the client holds can be handed on, or its request is being written. -/
theorem Accounted.can_work_of_holding (h : Accounted p a b run s) (hm : s.pool.Manned) {id : UInt32} {r : Response}
    (hr : s.pool.view.reader n = some (.holding id r)) : s.CanWork := by
  by_cases hid : id ∈ s.pool.view.writing n
  · obtain ⟨k, hk⟩ := (h.delivers.writes n id).mp hid
    obtain ⟨x, hx, -⟩ := Option.map_eq_some_iff.mp hk
    exact h.can_work_of_send hm hx
  · refine ⟨.client (.handOver n), rfl, step_isSome (.client rfl) ?_ nofun⟩
    intro q hq
    cases hq
    exact (Pool.handOver_isSome_iff hr).mpr hid

/-! ## Wires -/

/-- A frame that is on a wire can come nearer to its end. -/
theorem Accounted.can_work_of_wire (h : Accounted p a b run s) (hm : s.pool.Manned)
    (hreading : s.pool.view.reader n ≠ some .finished) {w : Wire} (hw : s.wires.get? n = some w)
    (hs : w.stages s.codec s.server.codec ≠ 0) : s.CanWork := by
  obtain ⟨c, hc⟩ := Option.isSome_iff_exists.mp ((h.sound.linked n).mp (by rw [hw]; rfl))
  have hlive := h.sound.live n c hc
  by_cases hup : w.up.items s.server.codec = []
  · have hdown : w.down.items s.codec ≠ [] := by
      intro hdown
      simp [Wire.stages, hup, hdown] at hs
    cases hsent : w.down.sent with
    | cons x rest =>
      have hlen : 0 < w.down.sent.length := by simp [hsent]
      have hplan := Planned.carriedDown hw hlen (Nat.le_refl _)
      exact ⟨.carryDown n w.down.sent.length, rfl, step_isSome hplan (by simp) (by simp)⟩
    | nil =>
      obtain ⟨⟨i, down⟩, htake⟩ := Option.isSome_iff_exists.mp (Flow.take_isSome hsent hdown)
      have hreader := (h.sound.joined n).mp (by rw [hw]; rfl)
      obtain ⟨d, hd⟩ := Pool.get_of_reader hreader
      have hview := Pool.view_reader hd
      cases hstate : d.reader with
      | reading =>
        refine ⟨.receive n 0, rfl, step_isSome (.received hw htake) ?_ (by simp)⟩
        intro q hq
        cases hq
        simp [Pool.step?, Pool.silently, Pool.isReading, hd, hstate]
      | holding id r => exact h.can_work_of_holding hm (by rw [hview, hstate])
      | finished => exact absurd (by rw [hview, hstate]) hreading
  · cases hsent : w.up.sent with
    | cons x rest =>
      have hlen : 0 < w.up.sent.length := by simp [hsent]
      have hplan := Planned.carriedUp hw hlen (Nat.le_refl _)
      exact ⟨.carryUp n w.up.sent.length, rfl, step_isSome hplan (by simp) (by simp)⟩
    | nil =>
      obtain ⟨⟨i, up⟩, htake⟩ := Option.isSome_iff_exists.mp (Flow.take_isSome hsent hup)
      refine ⟨.arrive n, rfl, step_isSome (.arrived hw htake) (by simp) ?_⟩
      intro r hr
      cases hr
      rw [ServerRun.step_about (n := n) rfl, hc]
      simp [ServerRun.stepAt, hlive.inflow]

/-! ## Everything -/

/-- **No session is stuck.** Where a call is at some stage, it can be carried on, or another one. -/
theorem Accounted.can_work (h : Accounted p a b run s) (hm : s.pool.Manned)
    (hreading : s.pool.view.reader n ≠ some .finished) (hk : 0 < s.server.workers)
    (hkeys : s.server.connections.keys.Nodup) (hs : s.stages n ≠ 0) : s.CanWork := by
  by_cases hserver : serverStages s.server n = 0
  · by_cases hwire : wireStages s.codec s.server.codec s.wires n = 0
    · cases hheld : s.pool.view.held n with
      | none => exact absurd (by simp [stages, hserver, hwire, hheld]) hs
      | some y =>
        obtain ⟨st, hst, hy⟩ := Option.bind_eq_some_iff.mp hheld
        cases st with
        | holding id r => exact h.can_work_of_holding hm hst
        | reading | finished => cases hy
    · cases hw : s.wires.get? n with
      | none => exact absurd (by simp [wireStages, hw]) hwire
      | some w => exact h.can_work_of_wire hm hreading hw (by rwa [wireStages_of_get hw] at hwire)
  · cases hc : s.server.connections.get? n with
    | none => exact absurd (by simp [serverStages, hc]) hserver
    | some c => exact h.can_work_of_connection hc hk hkeys (by rwa [serverStages_of_get hc] at hserver)

end Session

end Rpc
