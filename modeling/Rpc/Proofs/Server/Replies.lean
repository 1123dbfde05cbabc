import Mathlib
import Rpc.Codec.Builtin
import Rpc.Proofs.Server.Closing
import Rpc.Proofs.Server.Served

/-!
# One reply for each request

- `ServerRun.Keeps`: a connection of a server and its log belong together; every step keeps this (`Keeps.step`), so it
  is so on every run (`keeps_of_reaches`);
- `ServerRun.one_reply_each`: the main statement.
-/

namespace Rpc

namespace ServerRun

variable {σ : Type} {q r : ServerRun σ} {n : Nat} {log : ConnectionLog} {services : ServiceTable} {codec : FrameCodec}

/-- A connection and its log belong together; before the connection is there nothing has happened on it. -/
structure Keeps (services : ServiceTable) (codec : FrameCodec) (n : Nat) (r : ServerRun σ) (log : ConnectionLog) :
    Prop where
  same : r.pipeline.services = services ∧ r.codec = codec
  served : ∀ c, r.connections.get? n = some c → Served services codec log c
  absent : r.connections.get? n = none → log = .empty

theorem keeps_idle (pipeline : Pipeline σ) (codec : FrameCodec) (workers n : Nat) :
    Keeps pipeline.services codec n (idle pipeline codec workers) .empty :=
  ⟨⟨rfl, rfl⟩, fun _ h => (nomatch h), fun _ => rfl⟩

theorem note_of_ne {s : ServerStep} (hs : s.connection? ≠ some n) : r.note n log s = log := if_neg hs

theorem note_of_eq {s : ServerStep} (hs : s.connection? = some n) {c : ServerConnection}
    (hc : r.connections.get? n = some c) : r.note n log s = noteAt r.pipeline c log s := by
  unfold note
  rw [if_pos hs, hc]
  rfl

/-- A connection that is opened has no log yet. -/
theorem Keeps.opened (h : Keeps services codec n r log) {k : Nat} {peer : SocketAddress}
    (hk : r.connections.get? k = none) : Keeps services codec n (r.put k (.opened peer)) log := by
  have hget : ∀ m, (r.put k (.opened peer)).connections.get? m =
      if k = m then some (.opened peer) else r.connections.get? m := fun m => Table.get?_set _ _ m _
  refine ⟨h.same, fun c hc => ?_, fun hnone => ?_⟩
  · rw [hget] at hc
    split at hc
    · rename_i hkn
      subst hkn
      cases hc
      rw [h.absent hk]
      exact served_opened services codec peer
    · exact h.served c hc
  · rw [hget] at hnone
    split at hnone
    · cases hnone
    · exact h.absent hnone

/-- Every step keeps a connection and its log together, unless the server shuts down, the peer breaks the protocol or
a reply has no frame. -/
theorem Keeps.step {s : ServerStep} (h : Keeps services codec n r log) (hs : r.step? s = some q)
    (hd : s ≠ .shutdown) (hb : ∀ e, s ≠ .ended n (.broken e))
    (he : ∀ m ∈ (r.note n log s).tried, (codec.encodeReply m).isOk = true) :
    Keeps services codec n q (r.note n log s) := by
  rcases step_cases log hs with ⟨k, peer, rfl, hk, rfl⟩ | ⟨rfl, -⟩ | ⟨k, c, c', hk, hc, -, hch, ht⟩
  · rw [note_of_ne (by simp [ServerStep.connection?])]
    exact h.opened hk
  · exact absurd rfl hd
  · have hget : ∀ m, q.connections.get? m = if k = m then some c' else r.connections.get? m := by
      intro m
      rw [hch.connections]
      exact Table.get?_set _ _ _ _
    have hsame := h.same
    rw [← hch.services, ← hch.codec] at hsame
    by_cases hkn : k = n
    · subst hkn
      rw [note_of_eq hk hc] at he ⊢
      rw [h.same.1, h.same.2] at ht
      refine ⟨hsame, fun d hd => ?_, fun hnone => ?_⟩
      · rw [hget, if_pos rfl] at hd
        cases hd
        refine (h.served c hc).turn ht (fun m e heq => ?_) he
        subst heq
        cases hk
        exact hb e rfl
      · rw [hget, if_pos rfl] at hnone
        cases hnone
    · rw [note_of_ne (by rw [hk]; simpa using hkn)]
      refine ⟨hsame, fun d hd => ?_, fun hnone => ?_⟩
      · rw [hget, if_neg hkn] at hd
        exact h.served d hd
      · rw [hget, if_neg hkn] at hnone
        exact h.absent hnone

/-! ## Runs -/

theorem tried_note {m : Message} (hm : m ∈ log.tried) (s : ServerStep) : m ∈ (r.note n log s).tried := by
  unfold note
  split
  · cases r.connections.get? n with
    | none => exact hm
    | some c => cases s <;> first | exact hm | exact List.mem_append_left _ hm
  · exact hm

theorem logFrom_cons {s : ServerStep} {run : List ServerStep} (hs : r.step? s = some q) :
    logFrom n r (s :: run) log = logFrom n q run (r.note n log s) := by
  simp only [logFrom, hs]

theorem tried_logFrom {m : Message} {run : List ServerStep} (h : Reaches r run q) (hm : m ∈ log.tried) :
    m ∈ (logFrom n r run log).tried := by
  induction h generalizing log with
  | refl => exact hm
  | next hs _ ih =>
    rw [logFrom_cons hs]
    exact ih (tried_note hm _)

theorem keeps_of_reaches {run : List ServerStep} (hr : Reaches r run q) (h : Keeps services codec n r log)
    (hd : .shutdown ∉ run) (hb : ∀ e, .ended n (.broken e) ∉ run)
    (he : ∀ m ∈ (logFrom n r run log).tried, (codec.encodeReply m).isOk = true) :
    Keeps services codec n q (logFrom n r run log) := by
  induction hr generalizing log with
  | refl => exact h
  | @next q r t s run hs hr ih =>
    rw [logFrom_cons hs] at he ⊢
    have hs' : s ≠ .shutdown := fun heq => hd (heq ▸ List.mem_cons_self)
    have hb' : ∀ e, s ≠ .ended n (.broken e) := fun e heq => hb e (heq ▸ List.mem_cons_self)
    exact ih (h.step hs hs' hb' fun m hm => he m (tried_logFrom hr hm)) (fun hm => hd (List.mem_cons_of_mem _ hm))
      (fun e hm => hb e (List.mem_cons_of_mem _ hm)) he

/-- **One reply for each request.** On every run of a server no more invocations run at once than there are workers,
and a connection on which nothing more comes in can be led to its end. Where a connection is closed, without a
shutdown, a broken stream or a reply without a frame: what was written is, as a multiset, what was due for the frames
that came in; the reader looked at them in the order in which they came, and its replies were written in this order,
among those of the workers; and the invocations that were started, and that are over, are those that were admitted,
each as often. -/
theorem one_reply_each {pipeline : Pipeline σ} {codec : FrameCodec} {workers : Nat} {run : List ServerStep}
    (hr : Reaches (idle pipeline codec workers) run r) :
    (∀ past rest q, run = past ++ rest → Reaches (idle pipeline codec workers) past q → q.running ≤ workers) ∧
    (∀ n c, r.connections.get? n = some c → c.inflow = .ended → 0 < workers →
      ∃ more q c', Reaches r more q ∧ (∀ s ∈ more, s.isWork = true) ∧ q.connections.get? n = some c' ∧
        c'.writing = false) ∧
    ∀ n c log, r.connections.get? n = some c → c.writing = false → .shutdown ∉ run →
      (∀ e, .ended n (.broken e) ∉ run) → log = (idle pipeline codec workers).log n run →
      (∀ m ∈ log.tried, (codec.encodeReply m).isOk = true) →
      (c.written.map (·.1.key)).Perm (log.arrived.filterMap due) ∧
      (∀ w ∈ c.written, codec.encode w.1 = .ok w.2) ∧
      log.seen.map (·.1) = log.arrived ∧
      Interleaved log.readerReplies (log.finished.map fun i => (i.run pipeline.services).result) log.tried ∧
      log.tried.map codec.encodeReply = c.written.map .ok ∧
      log.started.Perm log.admitted ∧ log.finished.Perm log.admitted := by
  refine ⟨fun past rest q _ hq => running_le_workers hq (Nat.zero_le _), fun n c hc hf hn => ?_, ?_⟩
  · exact can_close hc (nodup_of_reaches hr List.Pairwise.nil) ((workers_of_reaches hr).symm ▸ hn) hf
  · rintro n c log hc hw hd hb rfl he
    have hserved := (keeps_of_reaches hr (keeps_idle pipeline codec workers n) hd hb he).served c hc
    have hclosed := hserved.closed hw
    exact ⟨hserved.replies_perm hw, (keys_of_written hclosed.written).2, hclosed.arrived.symm, hclosed.replied,
      hclosed.written, hclosed.started, hclosed.finished⟩

/-! ### A heartbeat, a request and a request that is denied -/

/-- A server with one method that denies requests with odd ids. -/
def evenServer : Pipeline Unit where
  filters := [.custom "even" () fun call s => (if call.requestId % 2 = 0 then .allow else .deny, s)]
  services := .ofList [(Service.new "Echo").addMethod "say" ⟨[], fun _ => .now (.returned (.bool true))⟩]
  codecs := .builtin

/-- The built-in codecs, for short frames. -/
def shortCodec : FrameCodec := ⟨.builtin, 256⟩

/-- The frames of a peer. -/
def threeFrames : List Inbound :=
  [.ok (.heartbeat 1), .ok (.request 2 (.new "Echo" "say")), .ok (.request 3 (.new "Echo" "say"))]

/-- The denial is written before the reply of the method. -/
def threeRun : List ServerStep :=
  .opened 0 (.v4 0 80) :: threeFrames.map (.arrived 0) ++
    [.read 0 0, .read 0 0, .start 0 0, .finish 0 0, .ended 0 .ended, .read 0 0, .endReading 0, .write 0, .enqueue 0,
      .write 0, .write 0, .endWriting 0]

theorem one_reply_each_three :
    ∃ r c, Reaches (idle evenServer shortCodec 1) threeRun r ∧ r.connections.get? 0 = some c ∧ c.writing = false ∧
      (c.written.map (·.1.key)).Perm [(.heartbeatResponse, 1), (.response, 2), (.response, 3)] := by
  have hclosed : (((idle evenServer shortCodec 1).run? threeRun).bind fun r =>
      (r.connections.get? 0).map (·.writing)) = some false := by cbv
  have hdue : ((idle evenServer shortCodec 1).log 0 threeRun).arrived.filterMap due =
      [(.heartbeatResponse, 1), (.response, 2), (.response, 3)] := by cbv
  have henc : (((idle evenServer shortCodec 1).log 0 threeRun).tried.all fun m =>
      (shortCodec.encodeReply m).isOk) = true := by cbv
  obtain ⟨r, hr, hc⟩ := Option.bind_eq_some_iff.mp hclosed
  obtain ⟨c, hc, hw⟩ := Option.map_eq_some_iff.mp hc
  obtain ⟨-, -, hall⟩ := one_reply_each (reaches_iff.mpr hr)
  have h := hall 0 c _ hc hw (by simp [threeRun, threeFrames]) (by simp [threeRun, threeFrames]) rfl
    (List.all_eq_true.mp henc)
  exact ⟨r, c, reaches_iff.mpr hr, hc, hw, hdue ▸ h.1⟩

end ServerRun

end Rpc
