import Mathlib.Data.List.Perm.Basic
import Rpc.Proofs.Server.Turn

/-!
# A connection and what happened on it

- `Interleaved`: two lists one among the other, each in its order;
- `Served`: where the frames of a connection are, its invocations and its replies; every turn keeps it
  (`Served.turn`), as long as the peer does not break the protocol and replies can be encoded;
- `Served.replies_perm`: on a connection that is closed, what was written is what was due.
-/

namespace Rpc

variable {α : Type}

/-- A list of the elements of two lists, each in its order. -/
inductive Interleaved : List α → List α → List α → Prop
  | nil : Interleaved [] [] []
  | left {as bs cs : List α} (a : α) : Interleaved as bs cs → Interleaved (as ++ [a]) bs (cs ++ [a])
  | right {as bs cs : List α} (b : α) : Interleaved as bs cs → Interleaved as (bs ++ [b]) (cs ++ [b])

theorem Interleaved.left? {as bs cs : List α} (h : Interleaved as bs cs) (o : Option α) :
    Interleaved (as ++ o.toList) bs (cs ++ o.toList) := by
  cases o with
  | none => simpa using h
  | some a => exact h.left a

theorem Interleaved.perm {as bs cs : List α} (h : Interleaved as bs cs) : cs.Perm (as ++ bs) := by
  induction h with
  | nil => exact .refl _
  | @left as bs cs a _ ih =>
    calc (cs ++ [a]).Perm (as ++ bs ++ [a]) := ih.append_right [a]
      _ = as ++ (bs ++ [a]) := List.append_assoc ..
      List.Perm _ (as ++ ([a] ++ bs)) := List.perm_append_comm.append_left as
      _ = as ++ [a] ++ bs := (List.append_assoc ..).symm
  | @right as bs cs b _ ih =>
    rw [← List.append_assoc]
    exact ih.append_right [b]

/-- Taking out the element at a place. -/
theorem perm_eraseIdx {l : List α} {place : Nat} {a : α} (h : l[place]? = some a) :
    l.Perm (a :: l.eraseIdx place) := by
  obtain ⟨hlt, rfl⟩ := List.getElem?_eq_some_iff.mp h
  exact (List.getElem_cons_eraseIdx_perm hlt).symm

theorem ServerConnection.isDone_iff {c : ServerConnection} :
    c.isDone = true ↔ c.reading = false ∧ c.waiting = [] ∧ c.running = [] ∧ c.owed = [] ∧ c.queue = [] := by
  simp [ServerConnection.isDone, and_assoc]

/-- A decision puts a reply into the queue, or an invocation among those that wait. -/
theorem ServerConnection.takes_eq (c : ServerConnection) (a : Admission) :
    c.takes a = { c with waiting := c.waiting ++ a.invocation?.toList, queue := c.queue ++ a.reply?.toList } := by
  cases a <;> simp [ServerConnection.takes, Admission.invocation?, Admission.reply?]

/-- What has come in was looked at or is there; what was admitted waits, runs or is over; the replies that are made
are owed, in the queue or taken up by the writer, those of the reader and those of workers in their order; and what
was taken up is written. Reading ends when nothing more comes in, and writing when nothing is left to do. -/
structure Served (services : ServiceTable) (codec : FrameCodec) (log : ConnectionLog) (c : ServerConnection) :
    Prop where
  inbound : log.arrived = log.seen.map (·.1) ++ c.inbound
  promised : ∀ s ∈ log.seen, s.2.promises = due s.1
  started : log.admitted.Perm (log.started ++ c.waiting)
  finished : log.started.Perm (log.finished ++ c.running)
  replied : ∃ made, log.finished.map (fun i => (i.run services).result) = made ++ c.owed ∧
    Interleaved log.readerReplies made (log.tried ++ c.queue)
  written : log.tried.map codec.encodeReply = c.written.map .ok
  unclosed : c.closed = false
  unbroken : ∀ e, c.inflow ≠ .broken e
  read : c.reading = false → c.inbound = [] ∧ c.inflow = .ended
  ended : c.writing = false → c.isDone = true

variable {services : ServiceTable} {codec : FrameCodec} {log log' : ConnectionLog} {c c' : ServerConnection}

theorem served_opened (services : ServiceTable) (codec : FrameCodec) (peer : SocketAddress) :
    Served services codec .empty (.opened peer) where
  inbound := rfl
  promised _ h := nomatch h
  started := .refl _
  finished := .refl _
  replied := ⟨[], rfl, .nil⟩
  written := rfl
  unclosed := rfl
  unbroken _ h := nomatch h
  read h := nomatch h
  ended h := nomatch h

/-- A connection on which something is left to do is open. -/
theorem Served.writing_of_reading (h : Served services codec log c) (hr : c.reading = true) : c.writing = true := by
  cases hw : c.writing with
  | true => rfl
  | false =>
    obtain ⟨hr', -⟩ := ServerConnection.isDone_iff.mp (h.ended hw)
    rw [hr] at hr'
    cases hr'

theorem Served.reading_of_more (h : Served services codec log c) (hm : c.inflow = .more) : c.reading = true := by
  cases hr : c.reading with
  | true => rfl
  | false =>
    rw [(h.read hr).2] at hm
    cases hm

/-! ## Every turn keeps it -/

theorem Served.arrive (h : Served services codec log c) (hm : c.inflow = .more) (i : Inbound) :
    Served services codec { log with arrived := log.arrived ++ [i] } { c with inbound := c.inbound ++ [i] } :=
  { h with
    inbound := by rw [h.inbound, List.append_assoc]
    read := fun hr => absurd (h.reading_of_more hm) (by simp [show c.reading = false from hr]) }

theorem Served.see (h : Served services codec log c) {i : Inbound} {rest : List Inbound} {a : Admission}
    (hi : c.inbound = i :: rest) (hr : c.reading = true) (ha : a.promises = due i) :
    Served services codec { log with seen := log.seen ++ [(i, a)] }
      (ServerConnection.takes { c with inbound := rest } a) := by
  have hw := h.writing_of_reading hr
  have hin : log.arrived = (log.seen ++ [(i, a)]).map (·.1) ++ rest := by
    rw [h.inbound, hi]
    simp
  have hp : ∀ s ∈ log.seen ++ [(i, a)], s.2.promises = due s.1 := by
    intro s hs
    rcases List.mem_append.mp hs with hs | hs
    · exact h.promised s hs
    · rw [List.mem_singleton.mp hs]
      exact ha
  have hadm : ({ log with seen := log.seen ++ [(i, a)] } : ConnectionLog).admitted =
      log.admitted ++ a.invocation?.toList := by
    simp only [ConnectionLog.admitted, List.filterMap_append]
    cases a <;> rfl
  have hrep : ({ log with seen := log.seen ++ [(i, a)] } : ConnectionLog).readerReplies =
      log.readerReplies ++ a.reply?.toList := by
    simp only [ConnectionLog.readerReplies, List.filterMap_append]
    cases a <;> rfl
  rw [ServerConnection.takes_eq]
  refine { h with inbound := hin, promised := hp, started := ?_, replied := ?_, read := ?_, ended := ?_ }
  · rw [hadm]
    show (log.admitted ++ a.invocation?.toList).Perm (log.started ++ (c.waiting ++ a.invocation?.toList))
    rw [← List.append_assoc]
    exact h.started.append_right _
  · obtain ⟨made, hmade, hint⟩ := h.replied
    refine ⟨made, hmade, ?_⟩
    rw [hrep, ← List.append_assoc]
    exact hint.left? _
  · exact fun hr' => absurd hr (by simp [show c.reading = false from hr'])
  · exact fun hw' => absurd hw (by simp [show c.writing = false from hw'])

/-- An invocation that waits gets a worker. -/
theorem Served.start (h : Served services codec log c) {place : Nat} {i : Invocation}
    (hi : c.waiting[place]? = some i) :
    Served services codec { log with started := log.started ++ [i] }
      { c with waiting := c.waiting.eraseIdx place, running := c.running ++ [i] } :=
  { h with
    started := by
      calc log.admitted.Perm (log.started ++ c.waiting) := h.started
        List.Perm _ (log.started ++ i :: c.waiting.eraseIdx place) := (perm_eraseIdx hi).append_left _
        _ = log.started ++ [i] ++ c.waiting.eraseIdx place := by simp
    finished := by
      show (log.started ++ [i]).Perm (log.finished ++ (c.running ++ [i]))
      rw [← List.append_assoc]
      exact h.finished.append_right [i]
    ended := fun hw => by
      obtain ⟨-, hnil, -⟩ := ServerConnection.isDone_iff.mp (h.ended hw)
      simp [hnil] at hi }

/-- An invocation that runs is over, and its reply is owed. -/
theorem Served.finish (h : Served services codec log c) {place : Nat} {i : Invocation}
    (hi : c.running[place]? = some i) :
    Served services codec { log with finished := log.finished ++ [i] }
      { c with running := c.running.eraseIdx place, owed := c.owed ++ [(i.run services).result] } :=
  { h with
    finished := by
      calc log.started.Perm (log.finished ++ c.running) := h.finished
        List.Perm _ (log.finished ++ i :: c.running.eraseIdx place) := (perm_eraseIdx hi).append_left _
        _ = log.finished ++ [i] ++ c.running.eraseIdx place := by simp
    replied := by
      obtain ⟨made, hmade, hint⟩ := h.replied
      exact ⟨made, by rw [List.map_append, hmade, List.append_assoc]; rfl, hint⟩
    ended := fun hw => by
      obtain ⟨-, -, hnil, -⟩ := ServerConnection.isDone_iff.mp (h.ended hw)
      simp [hnil] at hi }

theorem Served.enqueue (h : Served services codec log c) {m : Message} {rest : List Message}
    (hm : c.owed = m :: rest) (hw : c.writing = true) :
    Served services codec log { c with owed := rest, queue := c.queue ++ [m] } :=
  { h with
    replied := by
      obtain ⟨made, hmade, hint⟩ := h.replied
      refine ⟨made ++ [m], by rw [hmade, hm]; simp, ?_⟩
      rw [← List.append_assoc]
      exact hint.right m
    ended := fun hw' => absurd hw (by simp [show c.writing = false from hw']) }

theorem Served.write (h : Served services codec log c) {m : Message} {rest : List Message} {w : Message × Bytes}
    (hm : c.queue = m :: rest) (hw : c.writing = true) (he : codec.encodeReply m = .ok w) :
    Served services codec { log with tried := log.tried ++ [m] }
      { c with queue := rest, written := c.written ++ [w] } :=
  { h with
    replied := by
      obtain ⟨made, hmade, hint⟩ := h.replied
      refine ⟨made, hmade, ?_⟩
      rw [hm, List.append_cons] at hint
      exact hint
    written := by rw [List.map_append, List.map_append, h.written, List.map_singleton, he]; rfl
    ended := fun hw' => absurd hw (by simp [show c.writing = false from hw']) }

/-- **A turn keeps everything in its place**, unless the peer breaks the protocol or a reply has no frame. -/
theorem Served.turn {s : ServerStep} (h : Served services codec log c) (ht : Turn services codec c log s c' log')
    (hb : ∀ n e, s ≠ .ended n (.broken e)) (he : ∀ m ∈ log'.tried, (codec.encodeReply m).isOk = true) :
    Served services codec log' c' := by
  cases ht with
  | arrived hm => exact h.arrive hm _
  | saw hi hr _ ha => exact h.see hi hr ha
  | started hi => exact h.start hi
  | finished hi => exact h.finish hi
  | enqueued hm hw => exact h.enqueue hm hw
  | wrote hm hw henc => exact h.write hm hw henc
  | @ended n inflow hm =>
    have hr := h.reading_of_more hm
    exact { h with
      unbroken := fun e hi => hb n e (by rw [show inflow = .broken e from hi])
      read := fun hr' => absurd hr (by simp [show c.reading = false from hr'])
      ended := fun hw => h.ended hw }
  | endedReading hr hcase =>
    have hw := h.writing_of_reading hr
    rcases hcase with hw' | ⟨hi, hf⟩
    · rw [hw] at hw'
      cases hw'
    · exact { h with
        read := fun _ => ⟨hi, hf⟩
        ended := fun hw' => absurd hw (by simp [show c.writing = false from hw']) }
  | broke _ hf => exact absurd hf (h.unbroken _)
  | dropped hm hw =>
    obtain ⟨-, -, -, hnil, -⟩ := ServerConnection.isDone_iff.mp (h.ended hw)
    rw [hnil] at hm
    cases hm
  | @failed n m rest e hm henc =>
    have hok := he m (List.mem_append_right _ (List.mem_singleton_self m))
    rw [henc] at hok
    cases hok
  | endedWriting _ hd =>
    rcases hd with hc | hd
    · rw [h.unclosed] at hc
      cases hc
    · exact { h with ended := fun _ => hd }

/-! ## A connection that is closed -/

/-- What is told of a reply: its type and its id. -/
def Message.key (m : Message) : MessageType × UInt32 := (m.type, m.requestId)

/-- A reply is written under its type and its id, whatever takes its place. -/
theorem FrameCodec.encodeReply_eq_ok {m : Message} {w : Message × Bytes} (h : codec.encodeReply m = .ok w) :
    w.1.key = m.key ∧ codec.encode w.1 = .ok w.2 := by
  unfold FrameCodec.encodeReply at h
  split at h
  · rename_i frame hf
    cases h
    exact ⟨rfl, hf⟩
  · rename_i e he
    split at h
    · rename_i ht
      cases hf : codec.encode (encodingFailure m e) with
      | error e' =>
        rw [hf] at h
        cases h
      | ok frame =>
        rw [hf] at h
        cases h
        exact ⟨by simp [Message.key, encodingFailure, ht], hf⟩
    · cases h

/-- What decisions promise is what the reader's replies and the admitted requests come to. -/
theorem promises_perm (seen : List (Inbound × Admission)) :
    (seen.filterMap (·.2.promises)).Perm
      ((seen.filterMap (·.2.reply?)).map Message.key ++
        (seen.filterMap (·.2.invocation?)).map fun i => (.response, i.message.requestId)) := by
  induction seen with
  | nil => exact .refl _
  | cons s seen ih =>
    obtain ⟨i, a⟩ := s
    cases a with
    | reply m => exact ih.cons _
    | invoke j => exact (ih.cons _).trans List.perm_middle.symm
    | ignore => exact ih

/-- On a connection that is closed everything was looked at, every admitted request was started and is over, and
every reply was taken up. -/
structure Served.Closed (services : ServiceTable) (codec : FrameCodec) (log : ConnectionLog) (c : ServerConnection) :
    Prop where
  arrived : log.arrived = log.seen.map (·.1)
  started : log.started.Perm log.admitted
  finished : log.finished.Perm log.admitted
  replied : Interleaved log.readerReplies (log.finished.map fun i => (i.run services).result) log.tried
  written : log.tried.map codec.encodeReply = c.written.map .ok

theorem Served.closed (h : Served services codec log c) (hw : c.writing = false) :
    Served.Closed services codec log c := by
  obtain ⟨hr, hwait, hrun, howed, hqueue⟩ := ServerConnection.isDone_iff.mp (h.ended hw)
  have hstarted := h.started
  have hfinished := h.finished
  obtain ⟨made, hmade, hint⟩ := h.replied
  rw [hwait, List.append_nil] at hstarted
  rw [hrun, List.append_nil] at hfinished
  rw [howed, List.append_nil] at hmade
  rw [hqueue, List.append_nil] at hint
  refine ⟨?_, hstarted.symm, (hstarted.trans hfinished).symm, hmade ▸ hint, h.written⟩
  rw [h.inbound, (h.read hr).1, List.append_nil]

/-- What was written has the types and the ids of what the writer took up. -/
theorem keys_of_written {tried : List Message} {written : List (Message × Bytes)}
    (h : tried.map codec.encodeReply = written.map .ok) :
    written.map (·.1.key) = tried.map Message.key ∧ ∀ w ∈ written, codec.encode w.1 = .ok w.2 := by
  induction tried generalizing written with
  | nil =>
    obtain rfl : written = [] := List.map_eq_nil_iff.mp h.symm
    exact ⟨rfl, fun w hw => nomatch hw⟩
  | cons m tried ih =>
    cases written with
    | nil => cases h
    | cons w written =>
      simp only [List.map_cons, List.cons.injEq] at h
      obtain ⟨hkeys, henc⟩ := ih h.2
      obtain ⟨hkey, hw⟩ := FrameCodec.encodeReply_eq_ok h.1
      refine ⟨by rw [List.map_cons, List.map_cons, hkeys, hkey], fun x hx => ?_⟩
      rcases List.mem_cons.mp hx with rfl | hx
      · exact hw
      · exact henc x hx

/-- **On a connection that is closed, what was written is what was due.** -/
theorem Served.replies_perm (h : Served services codec log c) (hw : c.writing = false) :
    (c.written.map (·.1.key)).Perm (log.arrived.filterMap due) := by
  have hc := h.closed hw
  have hdue : log.arrived.filterMap due = log.seen.filterMap (·.2.promises) := by
    rw [hc.arrived, List.filterMap_map]
    exact List.filterMap_congr fun s hs => (h.promised s hs).symm
  have hmade : ((log.finished.map fun i => (i.run services).result).map Message.key).Perm
      (log.admitted.map fun i => (.response, i.message.requestId)) := by
    rw [List.map_map]
    exact hc.finished.map _
  have hsplit : (log.seen.filterMap (·.2.promises)).Perm
      (log.readerReplies.map Message.key ++ log.admitted.map fun i => (.response, i.message.requestId)) :=
    promises_perm log.seen
  rw [hdue, (keys_of_written hc.written).1]
  refine .trans ?_ hsplit.symm
  calc (log.tried.map Message.key).Perm
        ((log.readerReplies ++ log.finished.map fun i => (i.run services).result).map Message.key) :=
      hc.replied.perm.map _
    _ = log.readerReplies.map Message.key ++ (log.finished.map fun i => (i.run services).result).map Message.key :=
      List.map_append
    List.Perm _ (log.readerReplies.map Message.key ++ log.admitted.map fun i => (.response, i.message.requestId)) :=
      hmade.append_left _

end Rpc
