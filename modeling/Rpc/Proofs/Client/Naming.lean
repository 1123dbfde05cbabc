import Mathlib
import Rpc.Codec.Builtin
import Rpc.Proofs.Client.Ended

/-!
# The ids in responses

An id comes twice with a response, in the header of its frame and in its body. The pool goes by the header alone.

- `Named`: what readers and handles hold names the request that it is for, unless a peer put another id into the body
  (`Misnamed`);
- `Pool.names_its_request_unless_misnamed`: so does what callers get, and a response that names another request is
  given to the caller like any other.

Ids may be used again here, so nothing is assumed of a run.
-/

namespace Rpc

variable {run : Run} {v w : View} {id : UInt32} {r : Response}

/-! ## One frame -/

/-- A message is a response to the request of an id that names another request. -/
structure Misnames (m : Message) (id : UInt32) (r : Response) : Prop where
  type : m.type = .response
  header : m.requestId = id
  body : m.payload = .response r
  differs : r.requestId ≠ id

/-- A reader has taken a response that names another request than its frame. -/
def Misnamed (run : Run) (id : UInt32) (r : Response) : Prop :=
  ∃ n m now a, (.receive n (.ok m) now, a) ∈ run ∧ Misnames m id r

/-- A response names its request, or was taken so. -/
def NamesOrMisnamed (run : Run) (id : UInt32) (r : Response) : Prop := r.requestId = id ∨ Misnamed run id r

theorem NamesOrMisnamed.mono (h : NamesOrMisnamed run id r) (l : Run) : NamesOrMisnamed (run ++ l) id r :=
  h.imp_right fun ⟨n, m, now, a, hm, hmis⟩ => ⟨n, m, now, a, List.mem_append_left l hm, hmis⟩

/-- A frame that cannot be decoded stands for a response that names its request; any other carries the name that the
peer gave. -/
theorem Conveys.names {i : Inbound} (h : Conveys i id r) : r.requestId = id ∨ ∃ m, i = .ok m ∧ Misnames m id r := by
  cases h with
  | @response m _ htype hbody =>
    by_cases hr : r.requestId = m.requestId
    · exact .inl hr
    · exact .inr ⟨m, rfl, htype, rfl, hbody, hr⟩
  | undecodable => exact .inl rfl

/-! ## Every run -/

/-- What readers hold, and what handles were told, names the request that it is for, unless a peer misnamed it. -/
structure Named (run : Run) (v : View) : Prop where
  held : ∀ n id r, v.reader n = some (.holding id r) → NamesOrMisnamed run id r
  told : ∀ h id r, v.pending.handles.get? h = some ⟨id, .response r⟩ → NamesOrMisnamed run id r

/-- A handle is told what a reader held for its request. -/
theorem Effect.told {s : PoolStep} {a : PoolAnswer} (he : Effect v s a w) (hp : v.pending.Sound) {h : Nat}
    (hh : w.pending.handles.get? h = some ⟨id, .response r⟩) :
    v.pending.handles.get? h = some ⟨id, .response r⟩ ∨
      ∃ n, s = .handOver n ∧ v.reader n = some (.holding id r) ∧ id ∈ v.outstanding n := by
  rcases he.plain_or with hplain | ⟨k, n, j, now, -, -, -, rfl⟩ | ⟨n, j, r', hs, hr, -, ho, rfl⟩
  · exact .inl (hplain.loses.response hh)
  · simp only [View.register, Pending.handles_insert] at hh
    split at hh
    · cases hh
    · exact .inl ((Pending.loses_remove v.pending j).response hh)
  · simp only [View.handOn, Pending.complete, Pending.handles_settle] at hh
    split at hh
    next hentry =>
      -- The response goes to the handle of the entry, which has the id of the entry.
      obtain ⟨e, he', rfl⟩ := Option.map_eq_some_iff.mp hentry
      rw [hp.waits j e he'] at hh
      cases hh
      exact .inr ⟨n, hs, hr, ho⟩
    next => exact .inl hh

theorem Named.step {s : PoolStep} {a : PoolAnswer} (hn : Named run v) (hp : v.pending.Sound) (he : Effect v s a w) :
    Named (run ++ [(s, a)]) w := by
  refine ⟨fun n id r hr => ?_, fun h id r hh => ?_⟩
  · rcases he.holding hr with hr | ⟨i, now, rfl, hc⟩
    · exact (hn.held n id r hr).mono _
    · refine hc.names.imp_right ?_
      rintro ⟨m, rfl, hmis⟩
      exact ⟨n, m, now, a, by simp, hmis⟩
  · rcases he.told hp hh with hh | ⟨n, -, hr, -⟩
    · exact (hn.told h id r hh).mono _
    · exact (hn.held n id r hr).mono _

theorem named_of_leads (hl : Leads Pool.empty.view run v) : Named run v := by
  induction hl with
  | refl => exact ⟨nofun, nofun⟩
  | snoc hl he ih => exact ih.step hl.sound he

namespace Pool

variable {p q : Pool} {m : Message} {n h : Nat}

/-- A reader that takes a response, or what stands for one, holds it. -/
theorem view_receive {i : Inbound} (hread : p.isReading n = true) (hc : Conveys i id r) (now : Instant) :
    (p.receive n i now).view =
      { p.view with reader := Function.update p.view.reader n (some (.holding id r)) } := by
  have he := effect_receive i now hread
  rw [conveys_iff] at hc
  generalize (p.receive n i now).view = w at he
  cases he with
  | quiet hq => simp [PoolStep.isQuiet, hc] at hq
  | failed hf => cases hf
  | took _ hc' =>
    cases hc.symm.trans (conveys_iff.mp hc')
    rfl

/-- A reader that holds a response to an outstanding request hands it on. -/
theorem exists_handOver (hp : p.Numbered) (hreader : p.view.reader n = some (.holding id r))
    (hout : id ∈ p.view.outstanding n) (hwrite : id ∉ p.view.writing n) :
    ∃ q, p.step? (.handOver n) = some (q, .nothing) ∧ q.view = p.view.handOn n id r := by
  obtain ⟨⟨q, a⟩, hstep⟩ := Option.isSome_iff_exists.mp ((handOver_isSome_iff hreader).mpr hwrite)
  have he := effect_of_step hp hstep
  generalize hw : q.view = w at he
  cases he with
  | quiet hq => cases hq
  | failed hf => cases hf
  | read hs => cases hs
  | handed hreader' =>
    cases hreader.symm.trans hreader'
    exact ⟨q, hstep, hw⟩
  | discarded hreader' _ hnot =>
    cases hreader.symm.trans hreader'
    exact absurd hout hnot

/-- What a frame carries for an outstanding request is handed on. -/
theorem exists_answer {i : Inbound} (hp : p.Numbered) (hread : p.isReading n = true) (hc : Conveys i id r)
    (hout : id ∈ p.view.outstanding n) (hwrite : id ∉ p.view.writing n) (now : Instant) :
    ∃ q q', p.step? (.receive n i now) = some (q, .nothing) ∧ q.step? (.handOver n) = some (q', .nothing) ∧
      q'.view = p.view.handOn n id r := by
  have hreceive : p.step? (.receive n i now) = some (p.receive n i now, .nothing) := if_pos hread
  have hview := view_receive hread hc now
  have hholding : (p.receive n i now).view.reader n = some (.holding id r) := by
    rw [hview]
    exact Function.update_self ..
  obtain ⟨q', hstep, hq'⟩ := exists_handOver (hp.step hreceive) hholding (by rw [hview]; exact hout)
    (by rw [hview]; exact hwrite)
  refine ⟨_, q', hreceive, hstep, ?_⟩
  rw [hq', hview]
  simp only [View.handOn, Function.update_idem]

/-- What is handed on to a request that waits is told to its handle. -/
theorem told_of_handOn {w : View} (hs : v.pending.Sound) {o : Nat} (hentry : v.pending.entries.get? id = some ⟨h, o⟩)
    (hw : w = v.handOn n id r) : w.pending.requestId? h = some id ∧ w.pending.outcome? h = some (.ok r) := by
  have hhandle : w.pending.handles.get? h = some ⟨id, .response r⟩ := by
    have hwaits := hs.waits _ _ hentry
    rw [hw, View.handOn, Pending.complete, Pending.handles_settle, hentry, hwaits]
    simp [Handle.told]
  exact ⟨by simp [Pending.requestId?, hhandle], Pending.outcome_eq_ok_iff.mpr ⟨_, hhandle⟩⟩

/-- A response to a request that waits is told to its handle, whatever request it names. -/
theorem tells_response (hp : p.Numbered) (hs : p.pending.Sound) (hread : p.isReading n = true)
    (htype : m.type = .response) (hbody : m.payload = .response r) (hout : m.requestId ∈ p.view.outstanding n)
    (hwrite : m.requestId ∉ p.view.writing n) {o : Nat} (hentry : p.pending.entries.get? m.requestId = some ⟨h, o⟩)
    (now : Instant) : ∃ q q', p.step? (.receive n (.ok m) now) = some (q, .nothing) ∧
      q.step? (.handOver n) = some (q', .nothing) ∧ q'.pending.requestId? h = some m.requestId ∧
      q'.pending.outcome? h = some (.ok r) := by
  obtain ⟨q, q', hreceive, hstep, hview⟩ := exists_answer hp hread (.response htype hbody) hout hwrite now
  exact ⟨q, q', hreceive, hstep, told_of_handOn hs hentry hview⟩

/-- **What callers get names their requests, unless peers name others.** On every run, with ids used at will, a
response that a handle gives has the id of the handle, or a reader has taken it in a frame whose header has the id of
the handle. The name in it is not looked at: a response to a request that waits is told to its handle, whatever request
it names. -/
theorem names_its_request_unless_misnamed (hr : Reaches empty run p) :
    (∀ past s a rest h r, run = past ++ (s, a) :: rest → outcomeOf h (s, a) = some (.ok r) →
      ∃ q id, Reaches empty past q ∧ q.pending.requestId? h = some id ∧ (r.requestId = id ∨ Misnamed past id r)) ∧
    (∀ h id r, p.pending.requestId? h = some id → p.pending.outcome? h = some (.ok r) →
      r.requestId = id ∨ Misnamed run id r) ∧
    ∀ n m r h o now, p.isReading n = true → m.type = .response → m.payload = .response r →
      m.requestId ∈ p.view.outstanding n → m.requestId ∉ p.view.writing n →
      p.pending.entries.get? m.requestId = some ⟨h, o⟩ →
      ∃ q q', p.step? (.receive n (.ok m) now) = some (q, .nothing) ∧ q.step? (.handOver n) = some (q', .nothing) ∧
        q'.pending.requestId? h = some m.requestId ∧ q'.pending.outcome? h = some (.ok r) := by
  have htold {past : Run} {q : Pool} {h : Nat} {r : Response} (hq : Reaches empty past q)
      (ho : q.pending.outcome? h = some (.ok r)) :
      ∃ id, q.pending.requestId? h = some id ∧ NamesOrMisnamed past id r := by
    obtain ⟨id, hh⟩ := Pending.outcome_eq_ok_iff.mp ho
    exact ⟨id, by simp [Pending.requestId?, hh], (named_of_leads (leads_of_reaches numbered_empty hq).1).told h id r hh⟩
  obtain ⟨hl, hp⟩ := leads_of_reaches numbered_empty hr
  refine ⟨?_, fun h id r hid ho => ?_, fun n m r h o now hread htype hbody hout hwrite hentry =>
    tells_response hp hl.sound hread htype hbody hout hwrite hentry now⟩
  · rintro past s a rest h r rfl ho
    obtain ⟨q, hq, hrest⟩ := reaches_append_inv hr
    obtain _ | ⟨hstep, -⟩ := hrest
    obtain ⟨hlq, hnq⟩ := leads_of_reaches numbered_empty hq
    obtain ⟨-, -, hheld | ⟨-, after, herr⟩⟩ := (effect_of_step hnq hstep).reads ho
    · obtain ⟨id, hid, hnames⟩ := htold hq hheld
      exact ⟨q, id, hq, hid, hnames⟩
    · cases herr
  · obtain ⟨id', hid', hnames⟩ := htold hr ho
    obtain rfl : id' = id := Option.some.inj (hid'.symm.trans hid)
    exact hnames

/-! ### A response under one id that names another -/

/-- An answer to request 8 in a frame for request 7. -/
def misnamedAnswer : Message := ⟨.response, serializerCbor, compressorOff, 7, .response (.ok 8 .null)⟩

/-- Its frame: the body is a map of `request_id`, `result` and `error`. -/
def misnamedFrame : Bytes :=
  [0x73, 0x72, 0x70, 0x63, 1, 0, 0, 0, 44, 2, 1, 0, 0, 0, 0, 7,
    0xa3, 0x6a, 0x72, 0x65, 0x71, 0x75, 0x65, 0x73, 0x74, 0x5f, 0x69, 0x64, 8,
    0x66, 0x72, 0x65, 0x73, 0x75, 0x6c, 0x74, 0xf6, 0x65, 0x65, 0x72, 0x72, 0x6f, 0x72, 0xf6]

/-- Request 7 is sent. -/
def sentSeven : Run :=
  [(.acquire (.v4 0 80), .acquired (.dialing 0)), (.dialed 0 0, .nothing), (.startSend 0 7, .sending 0),
    (.beginWrite 0, .nothing), (.endSend 0 .written 1, .sent (.ok 0))]

/-- It is answered under its id, with a response that names request 8. -/
def misnamedRun : Run :=
  sentSeven ++ [(.receive 0 (.ok misnamedAnswer) 2, .nothing), (.handOver 0, .nothing)]

/-- **The caller of request 7 gets the response that names request 8.** -/
theorem misnamed_answer_given :
    FrameCodec.decode ⟨.builtin, defaultMaxFrameLength⟩ misnamedFrame = .item (.ok misnamedAnswer) [] ∧
    ∃ q p, Reaches empty misnamedRun q ∧ q.pending.requestId? 0 = some 7 ∧
      q.step? (.poll 0) = some (p, .outcome (.ok (.ok 8 .null))) ∧ (Response.ok 8 .null).requestId ≠ 7 :=
  ⟨by cbv, _, _, .next rfl (.next rfl (.next rfl (.next rfl (.next rfl (.next rfl (.next rfl (.refl _))))))), rfl, rfl,
    by decide⟩

theorem names_its_request_unless_misnamed_seven :
    ∃ q p, Reaches empty sentSeven q ∧ q.isReading 0 = true ∧ q.view.outstanding 0 = [7] ∧ q.view.writing 0 = [] ∧
      q.pending.entries.get? 7 = some ⟨0, 0⟩ ∧ q.step? (.receive 0 (.ok misnamedAnswer) 2) = some (p, .nothing) ∧
      Misnamed misnamedRun 7 (.ok 8 .null) := by
  have hsent : ∃ q, Reaches empty sentSeven q ∧ q.isReading 0 = true ∧ q.view.outstanding 0 = [7] ∧
      q.view.writing 0 = [] ∧ q.pending.entries.get? 7 = some ⟨0, 0⟩ :=
    ⟨_, .next rfl (.next rfl (.next rfl (.next rfl (.next rfl (.refl _))))), rfl, rfl, rfl, rfl⟩
  obtain ⟨q, hq, hread, hout, hwrite, hentry⟩ := hsent
  obtain ⟨p, p', hreceive, hhand, hid, hgives⟩ := (names_its_request_unless_misnamed hq).2.2 0 misnamedAnswer
    (.ok 8 .null) 0 0 2 hread rfl rfl (by simp [hout, misnamedAnswer]) (by simp [hwrite]) hentry
  refine ⟨q, p, hq, hread, hout, hwrite, hentry, hreceive, ?_⟩
  have hp : Reaches empty misnamedRun p' := reaches_append hq (.next hreceive (.next hhand (.refl _)))
  exact ((names_its_request_unless_misnamed hp).2.1 0 7 _ hid hgives).resolve_left (by decide)

end Pool

end Rpc
