import Rpc.Proofs.Client.Naming
import Rpc.Proofs.Frame.Cuts

/-!
# Which frames complete requests

A reader goes by the type of a frame that can be decoded, and by the header alone where it cannot.

- `FrameCodec.Stray`: a frame that cannot be decoded and is no response by its type byte; `FrameCodec.Heeded`: those and
  the responses;
- `Pool.exists_lastFrame`: what a reader holds comes from the last frame that it took;
- `Pool.only_responses_complete_unless_stray`: nothing but these frames completes requests, and stray ones do.

Frames come off a stream as `FrameCodec.decode` takes them: delimited, and each for itself
(`FrameCodec.decode_delimited`).
-/

namespace Rpc

/-! ## Frames -/

theorem MessageType.toByte_of_ofByte? {b : UInt8} {t : MessageType} (h : ofByte? b = some t) : b = t.toByte := by
  unfold ofByte? at h
  repeat' split at h
  all_goals cases h
  all_goals assumption

namespace FrameCodec

variable {c : FrameCodec} {frame : Bytes} {id : UInt32} {r : Response}

/-- A frame that cannot be decoded, and that is no response by its type byte. -/
structure Stray (c : FrameCodec) (frame : Bytes) : Prop where
  undecodable : ∃ e, c.itemOf frame = .error e
  type : (FrameHeader.ofFrame frame).type ≠ MessageType.response.toByte

/-- A frame under an id that is a response by its type byte, or a stray one. -/
structure Heeded (c : FrameCodec) (frame : Bytes) (id : UInt32) : Prop where
  delimited : Delimited c.maxFrameLength frame
  requestId : (FrameHeader.ofFrame frame).requestId = id
  type : (FrameHeader.ofFrame frame).type = MessageType.response.toByte ∨ c.Stray frame

/-- A stray frame is of no type, or a request. -/
theorem Stray.no_type_or_request (h : c.Stray frame) :
    MessageType.ofByte? (FrameHeader.ofFrame frame).type = none ∨
      MessageType.ofByte? (FrameHeader.ofFrame frame).type = some .request := by
  obtain ⟨e, he⟩ := h.undecodable
  cases ht : MessageType.ofByte? (FrameHeader.ofFrame frame).type with
  | none => exact .inl rfl
  | some t =>
    by_cases hb : t.isHeartbeat = true
    · rw [itemOf, decodeBody_heartbeat c ht hb] at he
      cases he
    · cases t with
      | request => exact .inr rfl
      | response => exact absurd (MessageType.toByte_of_ofByte? ht) h.type
      | _ => exact absurd rfl hb

/-- What a frame carries is for the id in its header, and the frame is a response or a stray one. -/
theorem heeded_of_conveys (hd : Delimited c.maxFrameLength frame) (h : Conveys (c.itemOf frame) id r) :
    c.Heeded frame id := by
  generalize hi : c.itemOf frame = i at h
  cases h with
  | @response m _ htype hbody =>
    obtain ⟨ht, hid⟩ := header_of_message hi
    rw [htype] at ht
    exact ⟨hd, hid.symm, .inl (MessageType.toByte_of_ofByte? ht)⟩
  | undecodable e =>
    have hid : (FrameHeader.ofFrame frame).requestId = e.header.requestId := by rw [header_of_itemOf hi]
    refine ⟨hd, hid, ?_⟩
    by_cases ht : (FrameHeader.ofFrame frame).type = MessageType.response.toByte
    · exact .inl ht
    · exact .inr ⟨⟨e, hi⟩, ht⟩

/-- A frame that is neither a response nor a stray one carries nothing. -/
theorem responseOf_itemOf (ht : (FrameHeader.ofFrame frame).type ≠ MessageType.response.toByte)
    (hs : ¬ c.Stray frame) : Connection.responseOf (c.itemOf frame) = none := by
  cases hi : c.itemOf frame with
  | error e => exact absurd ⟨⟨e, hi⟩, ht⟩ hs
  | ok m =>
    have hm : m.type ≠ .response := fun he => ht (MessageType.toByte_of_ofByte? (he ▸ (header_of_message hi).1))
    unfold Connection.responseOf
    split
    · rename_i m' hm'
      cases hm'
      split
      · rename_i htype _
        exact absurd htype hm
      · rfl
    · rename_i he
      cases he

end FrameCodec

/-! ## Readers -/

/-- The connection whose reader takes a step. -/
def PoolStep.reader? : PoolStep → Option Nat
  | .receive n .. | .handOver n | .endReading n => some n
  | _ => none

/-- What readers take on a run are frames. -/
def FromFrames (c : FrameCodec) (run : Run) : Prop :=
  ∀ n i now a, (.receive n i now, a) ∈ run → ∃ frame, Delimited c.maxFrameLength frame ∧ i = c.itemOf frame

/-- The reader of a connection took a frame and has done nothing since. -/
def LastFrame (c : FrameCodec) (run : Run) (n : Nat) (frame : Bytes) : Prop :=
  ∃ before now a after, run = before ++ (.receive n (c.itemOf frame) now, a) :: after ∧
    ∀ e ∈ after, e.1.reader? ≠ some n

/-- The last frame that the reader of a connection took is one under an id that it heeds. -/
def Heeds (c : FrameCodec) (run : Run) (n : Nat) (id : UInt32) : Prop :=
  ∃ frame, LastFrame c run n frame ∧ c.Heeded frame id

variable {c : FrameCodec} {run : Run} {n : Nat} {id : UInt32} {r : Response} {frame : Bytes}

theorem LastFrame.snoc (h : LastFrame c run n frame) {e : PoolStep × PoolAnswer} (he : e.1.reader? ≠ some n) :
    LastFrame c (run ++ [e]) n frame := by
  obtain ⟨before, now, a, after, rfl, hafter⟩ := h
  refine ⟨before, now, a, after ++ [e], by simp, fun x hx => ?_⟩
  rcases List.mem_append.mp hx with hx | hx
  · exact hafter x hx
  · exact List.mem_singleton.mp hx ▸ he

namespace Pool

variable {p q : Pool} {s : PoolStep} {a : PoolAnswer}

theorem view_of_isReading (h : p.isReading n = true) : p.view.reader n = some .reading := by
  obtain ⟨c, hc, hr⟩ := reading_of_isReading h
  rw [view_reader hc, hr]

/-- A reader that goes on holding a response has done nothing. -/
theorem reader?_ne_of_holding (hp : p.Numbered) (hstep : p.step? s = some (q, a))
    (hbefore : p.view.reader n = some (.holding id r)) (hafter : q.view.reader n = some (.holding id r)) :
    s.reader? ≠ some n := by
  intro hs
  cases s with
  | receive m i now =>
    obtain rfl : m = n := Option.some.inj hs
    obtain ⟨hread, -⟩ := silently_eq_some hstep
    cases hbefore.symm.trans (view_of_isReading hread)
  | endReading m =>
    obtain rfl : m = n := Option.some.inj hs
    obtain ⟨hread, -⟩ := silently_eq_some hstep
    cases hbefore.symm.trans (view_of_isReading hread)
  | handOver m =>
    obtain rfl : m = n := Option.some.inj hs
    have he := effect_of_step hp hstep
    generalize q.view = w at he hafter
    cases he with
    | quiet hq => cases hq
    | failed hf => cases hf
    | read hr => cases hr
    | handed | discarded => simp [View.handOn] at hafter
  | _ => cases hs

/-- **What a reader holds comes from the last frame that it took.** -/
theorem exists_lastFrame (hr : Reaches empty run p) (hf : FromFrames c run)
    (hheld : p.view.reader n = some (.holding id r)) :
    ∃ frame, Delimited c.maxFrameLength frame ∧ LastFrame c run n frame ∧ Conveys (c.itemOf frame) id r := by
  induction run using List.reverseRecOn generalizing p with
  | nil =>
    cases hr
    cases hheld
  | append_singleton run e ih =>
    obtain ⟨q, hq, hlast⟩ := reaches_append_inv hr
    obtain _ | ⟨hstep, _ | _⟩ := hlast
    rename_i s a
    obtain ⟨-, hnumbered⟩ := leads_of_reaches numbered_empty hq
    rcases (effect_of_step hnumbered hstep).holding hheld with hbefore | ⟨i, now, rfl, hc⟩
    · -- A reader that holds something takes nothing, so the frame stays the last one.
      obtain ⟨frame, hd, hframe, hc⟩ := ih hq (fun n i now a hmem => hf n i now a (List.mem_append_left _ hmem)) hbefore
      exact ⟨frame, hd, hframe.snoc (reader?_ne_of_holding hnumbered hstep hbefore hheld), hc⟩
    · obtain ⟨frame, hd, rfl⟩ := hf n i now a (by simp)
      exact ⟨frame, hd, ⟨run, now, a, [], rfl, fun _ h => absurd h List.not_mem_nil⟩, hc⟩

/-- An id leaves those that wait on a connection when its reader hands on what it holds for it. -/
theorem handOver_of_leaves {v w : View} (he : Effect v s a w) (hin : id ∈ v.outstanding n)
    (hout : id ∉ w.outstanding n) : s = .handOver n ∧ ∃ r, v.reader n = some (.holding id r) := by
  rcases he.plain_or with hplain | ⟨k, m, j, now, -, -, -, rfl⟩ | ⟨m, j, r, rfl, hr, -, -, rfl⟩
  · exact absurd (hplain.outstanding ▸ hin) hout
  · exfalso
    refine hout ?_
    simp only [View.register, Function.update_apply]
    split
    · rename_i hm
      exact List.mem_insert_of_mem (hm ▸ hin)
    · exact hin
  · by_cases hm : n = m
    · subst hm
      obtain rfl : id = j := by
        by_contra hj
        refine hout ?_
        simp only [View.handOn, Function.update_self]
        exact List.mem_filter.mpr ⟨hin, decide_eq_true hj⟩
      exact ⟨rfl, r, hr⟩
    · exfalso
      refine hout ?_
      simp only [View.handOn, Function.update_of_ne hm]
      exact hin

/-! ## Giving connections back -/

theorem busy_receive {m : Nat} {d d' : Connection} {i : Inbound} {now : Instant} (hd : p.connections.get? m = some d)
    (hd' : (p.receive n i now).connections.get? m = some d') : d'.busy = d.busy := by
  unfold receive at hd'
  rw [connections_update, hd] at hd'
  split at hd'
  · cases hd'
    unfold Connection.receive
    dsimp only
    split <;> rfl
  · cases hd'
    rfl

/-- A reader gives its own connection back, when it hands on what it holds for a request that waits. -/
theorem waits_of_busy_handOver {m : Nat} {d d' : Connection} (h : p.canHandOver n = true)
    (hd : p.connections.get? m = some d) (hd' : (p.handOver n).connections.get? m = some d')
    (hbusy : d'.busy ≠ d.busy) :
    m = n ∧ ∃ id r, p.view.reader n = some (.holding id r) ∧ id ∈ p.view.outstanding n := by
  obtain ⟨c, id, r, hc, hr, -⟩ := holding_of_canHandOver h
  unfold handOver at hd'
  rw [hc] at hd'
  simp only [hr] at hd'
  split at hd'
  · rename_i ho
    rw [update_update] at hd'
    -- Completing the request changes no connection.
    change (p.update n _).connections.get? m = some d' at hd'
    rw [connections_update, hd] at hd'
    split at hd'
    · rename_i hm
      exact ⟨hm.symm, id, r, by rw [view_reader hc, hr], by rw [view_outstanding hc]; exact ho⟩
    · cases hd'
      exact absurd rfl hbusy
  · rw [connections_update, hd] at hd'
    split at hd' <;> cases hd' <;> exact absurd rfl hbusy

/-! ## The main statement -/

theorem heeds_of_holding (hr : Reaches empty run p) (hf : FromFrames c run)
    (hheld : p.view.reader n = some (.holding id r)) : Heeds c run n id := by
  obtain ⟨frame, hd, hframe, hc⟩ := exists_lastFrame hr hf hheld
  exact ⟨frame, hframe, FrameCodec.heeded_of_conveys hd hc⟩

/-- **Only responses complete requests, and stray frames.** On every run on which readers take frames, whatever peers
send: an id stops waiting on a connection, a handle gets a response, and a reader gives its connection back only when
the reader hands on what the last frame carried that it took, and that frame is under this id, and a response by its
type byte or stray. A frame that is neither only counts as a sign of life. But a stray frame, which is of no type or a
request, is not told from a response: under the id of a request that waits it completes this request with an error. -/
theorem only_responses_complete_unless_stray (hr : Reaches empty run p) (hf : FromFrames c run) :
    (∀ s a q, p.step? s = some (q, a) →
      (∀ n id, id ∈ p.view.outstanding n → id ∉ q.view.outstanding n → s = .handOver n ∧ Heeds c run n id) ∧
      (∀ h id r, q.pending.requestId? h = some id → q.pending.outcome? h = some (.ok r) →
        p.pending.outcome? h ≠ some (.ok r) → ∃ n, s = .handOver n ∧ Heeds c run n id) ∧
      (∀ m, (∃ i now, s = .receive m i now) ∨ s = .handOver m → ∀ n d d', p.connections.get? n = some d →
        q.connections.get? n = some d' → d'.busy ≠ d.busy →
        s = .handOver n ∧ ∃ id ∈ p.view.outstanding n, Heeds c run n id)) ∧
    (∀ n frame now, p.isReading n = true →
      (FrameHeader.ofFrame frame).type ≠ MessageType.response.toByte → ¬ c.Stray frame →
      p.step? (.receive n (c.itemOf frame) now) = some (p.update n (·.touch now), .nothing)) ∧
    (∀ frame, c.Stray frame → MessageType.ofByte? (FrameHeader.ofFrame frame).type = none ∨
      MessageType.ofByte? (FrameHeader.ofFrame frame).type = some .request) ∧
    ∀ n frame id h o now, c.Stray frame → (FrameHeader.ofFrame frame).requestId = id → p.isReading n = true →
      id ∈ p.view.outstanding n → id ∉ p.view.writing n → p.pending.entries.get? id = some ⟨h, o⟩ →
      ∃ q q' reason, p.step? (.receive n (c.itemOf frame) now) = some (q, .nothing) ∧
        q.step? (.handOver n) = some (q', .nothing) ∧ q'.pending.requestId? h = some id ∧
        q'.pending.outcome? h = some (.ok (.err id ⟨.badRequest, reason, none⟩)) ∧ id ∉ q'.view.outstanding n := by
  obtain ⟨hl, hp⟩ := leads_of_reaches numbered_empty hr
  refine ⟨fun s a q hstep => ⟨fun n id hin hout => ?_, fun h id r hid ho hnew => ?_, ?_⟩, ?_,
    fun frame hs => hs.no_type_or_request, ?_⟩
  · obtain ⟨hs, r, hheld⟩ := handOver_of_leaves (effect_of_step hp hstep) hin hout
    exact ⟨hs, heeds_of_holding hr hf hheld⟩
  · obtain ⟨id', hh⟩ := Pending.outcome_eq_ok_iff.mp ho
    obtain rfl : id' = id := by simpa [Pending.requestId?, hh] using hid
    rcases (effect_of_step hp hstep).told hl.sound hh with hh | ⟨n, hs, hheld, -⟩
    · exact absurd (Pending.outcome_eq_ok_iff.mpr ⟨_, hh⟩) hnew
    · exact ⟨n, hs, heeds_of_holding hr hf hheld⟩
  · rintro m (⟨i, now, rfl⟩ | rfl) n d d' hd hd' hbusy
    · obtain ⟨-, hq⟩ := silently_eq_some hstep
      cases hq
      exact absurd (busy_receive hd hd') hbusy
    · obtain ⟨hcan, hq⟩ := silently_eq_some hstep
      cases hq
      obtain ⟨rfl, id, r, hheld, hout⟩ := waits_of_busy_handOver hcan hd hd' hbusy
      exact ⟨rfl, id, hout, heeds_of_holding hr hf hheld⟩
  · intro n frame now hread htype hs
    have htouch (d : Connection) : d.receive (c.itemOf frame) now = d.touch now := by
      unfold Connection.receive
      rw [FrameCodec.responseOf_itemOf htype hs]
    have hreceive : p.receive n (c.itemOf frame) now = p.update n (·.touch now) :=
      congrArg (p.update n) (funext htouch)
    rw [← hreceive]
    exact if_pos hread
  · rintro n frame id h o now hs rfl hread hout hwrite hentry
    obtain ⟨e, he⟩ := hs.undecodable
    have hc : Conveys (c.itemOf frame) (FrameHeader.ofFrame frame).requestId
        (.err (FrameHeader.ofFrame frame).requestId ⟨.badRequest, e.message, none⟩) := by
      rw [he, ← FrameCodec.header_of_itemOf he]
      exact .undecodable e
    obtain ⟨q, q', hreceive, hhand, hview⟩ := exists_answer hp hread hc hout hwrite now
    obtain ⟨hid, ho⟩ := told_of_handOn hl.sound hentry hview
    refine ⟨q, q', e.message, hreceive, hhand, hid, ho, ?_⟩
    rw [hview]
    simp [View.handOn]

/-! ### A frame of no type under the id of a request -/

/-- A frame of type 9 without a body, under id 7. -/
def typeNine : Bytes := magic ++ [1, 0, 0, 0, 16, 9, 0, 0, 0, 0, 0, 7]

/-- The codecs and the limit that a client has by default. -/
def defaultCodec : FrameCodec := ⟨.builtin, defaultMaxFrameLength⟩

/-- What it gives. -/
def typeNineError : FrameError := ⟨⟨16, 9, 0, 0, 7⟩, .unknownMessageType 9⟩

theorem delimited_typeNine : Delimited defaultCodec.maxFrameLength typeNine :=
  ⟨by decide, by decide, by decide, by decide⟩

theorem itemOf_typeNine : defaultCodec.itemOf typeNine = .error typeNineError := rfl

theorem stray_typeNine : defaultCodec.Stray typeNine := ⟨⟨typeNineError, itemOf_typeNine⟩, by decide⟩

/-- It comes under the id of request 7. -/
def strayRun : Run := sentSeven ++ [(.receive 0 (.error typeNineError) 2, .nothing)]

/-- **Request 7 is completed by a frame that is no response.** -/
theorem stray_frame_completes :
    defaultCodec.decode typeNine = .item (.error typeNineError) [] ∧
    typeNineError.header.type ≠ MessageType.response.toByte ∧
    ∃ p q, Reaches empty strayRun p ∧ p.view.outstanding 0 = [7] ∧ p.isIdle 0 = false ∧ p.pending.outcome? 0 = none ∧
      p.step? (.handOver 0) = some (q, .nothing) ∧ q.view.outstanding 0 = [] ∧ q.isIdle 0 = true ∧
      q.pending.requestId? 0 = some 7 ∧
      q.pending.outcome? 0 = some (.ok (.err 7 ⟨.badRequest, typeNineError.message, none⟩)) :=
  ⟨FrameCodec.decode_of_delimited delimited_typeNine, by decide, _, _,
    .next rfl (.next rfl (.next rfl (.next rfl (.next rfl (.next rfl (.refl _)))))), rfl, rfl, rfl, rfl, rfl, rfl, rfl,
    rfl⟩

theorem only_responses_complete_unless_stray_seven :
    FromFrames defaultCodec strayRun ∧ ∃ p q q', Reaches empty sentSeven p ∧
      p.step? (.receive 0 (defaultCodec.itemOf typeNine) 2) = some (q, .nothing) ∧ Reaches empty strayRun q ∧
      q.step? (.handOver 0) = some (q', .nothing) ∧ 7 ∉ q'.view.outstanding 0 ∧ Heeds defaultCodec strayRun 0 7 ∧
      ∃ reason, q'.pending.outcome? 0 = some (.ok (.err 7 ⟨.badRequest, reason, none⟩)) := by
  have hnone : FromFrames defaultCodec sentSeven := by
    intro n i now a h
    simp [sentSeven] at h
  have hframes : FromFrames defaultCodec strayRun := by
    intro n i now a h
    rcases List.mem_append.mp h with h | h
    · exact hnone n i now a h
    · obtain ⟨⟨⟩, -⟩ := Prod.mk.inj (List.mem_singleton.mp h)
      exact ⟨typeNine, delimited_typeNine, itemOf_typeNine.symm⟩
  have hsent : ∃ p, Reaches empty sentSeven p ∧ p.isReading 0 = true ∧ p.view.outstanding 0 = [7] ∧
      p.view.writing 0 = [] ∧ p.pending.entries.get? 7 = some ⟨0, 0⟩ :=
    ⟨_, .next rfl (.next rfl (.next rfl (.next rfl (.next rfl (.refl _))))), rfl, rfl, rfl, rfl⟩
  obtain ⟨p, hp, hread, hout, hwrite, hentry⟩ := hsent
  obtain ⟨q, q', reason, hreceive, hhand, -, ho, hleft⟩ := (only_responses_complete_unless_stray hp hnone).2.2.2 0
    typeNine 7 0 0 2 stray_typeNine rfl hread (by simp [hout]) (by simp [hwrite]) hentry
  have hq : Reaches empty strayRun q := reaches_append hp (.next (itemOf_typeNine ▸ hreceive) (.refl _))
  have htaken : ∃ q, Reaches empty strayRun q ∧ q.view.outstanding 0 = [7] :=
    ⟨_, .next rfl (.next rfl (.next rfl (.next rfl (.next rfl (.next rfl (.refl _)))))), rfl⟩
  have hin : 7 ∈ q.view.outstanding 0 := by
    obtain ⟨q₁, hq₁, hout₁⟩ := htaken
    rw [reaches_unique hq hq₁, hout₁]
    exact List.mem_cons_self
  obtain ⟨-, hheeds⟩ := ((only_responses_complete_unless_stray hq hframes).1 _ _ _ hhand).1 0 7 hin hleft
  exact ⟨hframes, p, q, q', hp, hreceive, hq, hhand, hleft, hheeds, reason, ho⟩

end Pool

end Rpc
