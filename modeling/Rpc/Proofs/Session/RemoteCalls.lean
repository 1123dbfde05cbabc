import Rpc.Proofs.Server.Replies
import Rpc.Proofs.Session.Effort

/-!
# A remote call is a local one

- `Session.answered_of_idle`: where no work can be done, every caller has one response;
- `Session.remote_call_is_local`: the main statement.
-/

namespace Rpc

namespace Session

variable {σ : Type} {p : Pipeline σ} {a b : FrameCodec} {workers : Nat} {run : SessionRun} {s : Session σ} {n : Nat}
  {x : RemoteCall}

/-- The client's part of a run of a session, as a run of views. -/
theorem leads_of_reaches (hr : Reaches (start a p b workers) run s) :
    Leads Pool.empty.view (poolRun run) s.pool.view :=
  (Pool.leads_of_reaches Pool.numbered_empty (pool_of_reaches hr)).1

/-- A response that a caller has is that of the local call. -/
theorem Accounted.local_of_response (h : Accounted p a b run s) (hids : ((requests run).map (·.2.requestId)).Nodup)
    (hx : (n, x) ∈ requests run) {k : Nat} (hk : Issued (poolRun run) k n x.requestId) {r : Response}
    (hm : .ok r ∈ resolutions (poolRun run) s.pool.pending k) :
    ∃ past call, Placed run n x past call ∧ r = p.responseTo x.requestId x.request (p.verdictAfter past call) := by
  obtain ⟨-, htook⟩ := h.delivers.resolutions_took hm
  obtain ⟨y, past, call, hy, hid, rfl⟩ := h.sound.took (htook n x.requestId hk)
  obtain ⟨-, rfl⟩ := request_unique hids hx hy.sent hid
  refine ⟨past, call, hy, ?_⟩
  rw [Pipeline.respondAfter_eq, hy.requestId, hy.request]

/-- Whatever a caller has been given, or is ready for it, is the response of the local call. -/
theorem Accounted.local_of_resolution (h : Accounted p a b run s) (hr : Reaches (start a p b workers) run s)
    (hids : ((requests run).map (·.2.requestId)).Nodup) (hx : (n, x) ∈ requests run) {k : Nat}
    (hk : Issued (poolRun run) k n x.requestId) {o : Outcome}
    (ho : o ∈ resolutions (poolRun run) s.pool.pending k) :
    ∃ past call, Placed run n x past call ∧
      o = .ok (p.responseTo x.requestId x.request (p.verdictAfter past call)) := by
  have hsent : (sentIds (poolRun run)).Nodup := (sentIds_poolRun hr).symm ▸ hids
  rcases (leads_of_reaches hr).answered hsent (patient_of_reaches hr) hk with ⟨-, hnone⟩ | ⟨r, hone⟩
  · have hempty : resolutions (poolRun run) s.pool.pending k = [] := hnone
    rw [hempty] at ho
    cases ho
  · have hsingle : resolutions (poolRun run) s.pool.pending k = [.ok r] := hone
    rw [hsingle] at ho
    obtain rfl := List.mem_singleton.mp ho
    obtain ⟨past, call, hplaced, rfl⟩ := h.local_of_response hids hx hk (r := r) (by rw [hsingle]; simp)
    exact ⟨past, call, hplaced, rfl⟩

/-- **Where no work can be done, every caller has one response.** -/
theorem Accounted.answered_of_idle (h : Accounted p a b run s) (hr : Reaches (start a p b workers) run s)
    (hids : ((requests run).map (·.2.requestId)).Nodup) (hw : 0 < workers) (hidle : ¬ s.CanWork)
    (hx : (n, x) ∈ requests run) :
    ∃ k r, Issued (poolRun run) k n x.requestId ∧ resolutions (poolRun run) s.pool.pending k = [.ok r] := by
  have hsent : (sentIds (poolRun run)).Nodup := (sentIds_poolRun hr).symm ▸ hids
  have hl := leads_of_reaches hr
  have hpatient := patient_of_reaches hr
  have hmanned := Pool.manned_of_reaches Pool.manned_empty (pool_of_reaches hr)
  have hworkers : 0 < s.server.workers := (ServerRun.workers_of_reaches (server_of_reaches hr)).symm ▸ hw
  have hkeys := ServerRun.nodup_of_reaches (server_of_reaches hr) List.Pairwise.nil
  obtain ⟨j, hj⟩ := started_of_request hr hx
  -- the request was written, as its send would be work
  rcases hl.written hsent hpatient hj with hsend | ⟨k, hk⟩
  · obtain ⟨y, hy, -⟩ := Option.map_eq_some_iff.mp hsend
    exact absurd (h.can_work_of_send hmanned hy) hidle
  · -- it is not outstanding, as it would be at some stage
    refine ⟨k, ?_⟩
    have hissued : Issued (poolRun run) k n x.requestId := ⟨j, hj, hk⟩
    rcases hl.answered hsent hpatient hissued with ⟨hout, -⟩ | ⟨r, hone⟩
    · have hunder := (h.tallied.mem n x.requestId).mpr (.inr hout)
      have hstages : s.stages n ≠ 0 := by
        intro hzero
        rw [underWay, hzero] at hunder
        exact Multiset.notMem_zero _ hunder
      exact absurd (h.can_work hmanned (hl.unfinished hpatient n) hworkers hkeys hstages) hidle
    · exact ⟨r, hissued, hone⟩

/-- **A remote call is a local one.** On every run of a client and a server, with any filters and methods and with
requests under distinct ids over any connections, on which both sides understand what is said: whatever the caller of a
request is given, or is ready for it, is what the same call gives without a network, after the calls about which the
filters were asked before it; among these calls it has one place. Filters that remember nothing say the same at any
place. Where no work can be done every caller has this response and no other, if the server has workers; and work comes
to an end. -/
theorem remote_call_is_local (hr : Reaches (start a p b workers) run s)
    (hids : ((requests run).map (·.2.requestId)).Nodup) (hi : Intelligible p a b run) :
    (∀ n x k o, (n, x) ∈ requests run → Issued (poolRun run) k n x.requestId →
      o ∈ resolutions (poolRun run) s.pool.pending k → ∃ past call, Placed run n x past call ∧
        o = .ok (p.responseTo x.requestId x.request (p.verdictAfter past call))) ∧
    (∀ n x past past' call call', Placed run n x past call → Placed run n x past' call' →
      past = past' ∧ call = call') ∧
    ((∀ f ∈ p.filters, ∀ call, (f.ask call).1 = f) →
      ∀ past call, p.verdictAfter past call = (p.filters.run call).2) ∧
    (0 < workers → ¬ s.CanWork → ∀ n x, (n, x) ∈ requests run → ∃ k past call,
      Issued (poolRun run) k n x.requestId ∧ Placed run n x past call ∧
        resolutions (poolRun run) s.pool.pending k =
          [.ok (p.responseTo x.requestId x.request (p.verdictAfter past call))]) ∧
    ∀ more t, Reaches s more t → (∀ y ∈ more, y.1.isWork = true) → more.length ≤ s.effort := by
  have haccounted : ∀ {n x}, (n, x) ∈ requests run → Accounted p a b run s :=
    fun hx => accounted_of_reaches hr (hi.headers hx) hi hids
  refine ⟨?_, ?_, p.verdictAfter_of_forgetful, ?_, ?_⟩
  · intro n x k o hx hk ho
    exact (haccounted hx).local_of_resolution hr hids hx hk ho
  · intro n x past past' call call' hx hx'
    exact (haccounted hx.sent).place_unique hx hx'
  · intro hw hidle n x hx
    have h := haccounted hx
    obtain ⟨k, r, hk, hone⟩ := h.answered_of_idle hr hids hw hidle hx
    obtain ⟨past, call, hplaced, rfl⟩ := h.local_of_response hids hx hk (r := r) (by rw [hone]; simp)
    exact ⟨k, past, call, hk, hplaced, hone⟩
  · intro more t hmore hwork
    have hlen := length_le_effort hmore hwork
    omega

/-! ### Two calls, one of which is denied -/

/-- A request that the server lets pass, and one that it denies; they differ in serializers and compressors. -/
def twoRequests : List (Nat × RemoteCall) :=
  [(0, ⟨2, .new "Echo" "say", serializerCbor, compressorOff⟩), (0, ⟨3, .new "Echo" "say", serializerJson, compressorGzip⟩)]

/-- Their callers send them on a connection. -/
def twoSent : SessionRun :=
  [(.client (.acquire (.v4 0 80)), ⟨some (.acquire (.v4 0 80), .acquired (.dialing 0)), none, none⟩),
    (.connect 0 (.v4 0 80) 0, ⟨some (.dialed 0 0, .nothing), some (.opened 0 (.v4 0 80)), none⟩)] ++
  twoRequests.zipIdx.map fun ((n, x), k) =>
    (.send n x, ⟨some (.startSend n x.requestId, .sending k), none, none⟩)

/-- What the server says to a request of the two. -/
def twoResponses (x : RemoteCall) : Response :=
  if x.requestId = 2 then .ok 2 (.bool true) else .err 3 (.filtered "even")

theorem two_faithful {n : Nat} {x : RemoteCall} (hx : (n, x) ∈ twoRequests) :
    FrameCodec.modest.Faithful x.message ∧ FrameCodec.modest.Faithful (x.message.reply (twoResponses x)) := by
  simp only [twoRequests, List.mem_cons, Prod.mk.injEq, List.not_mem_nil, or_false] at hx
  rcases hx with ⟨rfl, rfl⟩ | ⟨rfl, rfl⟩
  all_goals
    exact ⟨FrameCodec.faithful_of_builtin rfl (by decide) rfl rfl (by cbv) (by cbv),
      FrameCodec.faithful_of_builtin rfl (by decide) rfl rfl (by cbv) (by cbv)⟩

theorem two_hasFrame {n : Nat} {x : RemoteCall} (hx : (n, x) ∈ twoRequests) :
    FrameCodec.modest.HasFrame x.message ∧ FrameCodec.modest.HasFrame (x.message.reply (twoResponses x)) := by
  simp only [twoRequests, List.mem_cons, Prod.mk.injEq, List.not_mem_nil, or_false] at hx
  rcases hx with ⟨rfl, rfl⟩ | ⟨rfl, rfl⟩
  · exact ⟨⟨_, rfl, by cbv⟩, ⟨_, rfl, by cbv⟩⟩
  · exact ⟨FrameCodec.hasFrame_of_gzip rfl (by cbv), FrameCodec.hasFrame_of_gzip rfl (by cbv)⟩

/-- What the server says to a call with the id and the value of one of the requests. -/
theorem two_respondAfter {n : Nat} {x : RemoteCall} (hx : (n, x) ∈ twoRequests) {call : Call}
    (hid : call.requestId = x.requestId) (hrequest : call.request = x.request) (past : List Call) :
    ServerRun.evenServer.respondAfter past call = twoResponses x := by
  have hforgetful : ∀ f ∈ ServerRun.evenServer.filters, ∀ call, (f.ask call).1 = f := by
    intro f hf
    cases List.mem_singleton.mp hf
    exact fun _ => rfl
  rw [Pipeline.respondAfter_eq, Pipeline.verdictAfter_of_forgetful _ hforgetful]
  obtain ⟨peer, id, request, now⟩ := call
  simp only [twoRequests, List.mem_cons, Prod.mk.injEq, List.not_mem_nil, or_false] at hx
  rcases hx with ⟨rfl, rfl⟩ | ⟨rfl, rfl⟩
  all_goals
    cases hid
    cases hrequest
    cbv

theorem two_intelligible {run : SessionRun} (h : requests run = twoRequests) :
    Intelligible ServerRun.evenServer FrameCodec.modest FrameCodec.modest run := by
  refine ⟨by decide, fun n x hx => ?_, fun n x past call hx => ?_⟩
  · rw [h] at hx
    exact FrameCodec.understood_of_faithful (two_faithful hx).1 (two_hasFrame hx).1
  · have hsent := h ▸ hx.sent
    rw [two_respondAfter hsent hx.requestId hx.request]
    exact FrameCodec.understood_of_faithful (two_faithful hsent).2 (two_hasFrame hsent).2

theorem remote_call_is_local_two :
    ∃ run s, Reaches (start FrameCodec.modest ServerRun.evenServer FrameCodec.modest 1) run s ∧
      ((requests run).map (·.2.requestId)).Nodup ∧
      Intelligible ServerRun.evenServer FrameCodec.modest FrameCodec.modest run ∧
      ∀ n x, (n, x) ∈ twoRequests → ∃ k, Issued (poolRun run) k n x.requestId ∧
        resolutions (poolRun run) s.pool.pending k = [.ok (twoResponses x)] := by
  have hsent : ∃ s, Reaches (start FrameCodec.modest ServerRun.evenServer FrameCodec.modest 1) twoSent s :=
    ⟨_, .next rfl (.next rfl (.next rfl (.next rfl (.refl _))))⟩
  obtain ⟨s, hs⟩ := hsent
  -- the two callers wait until there is no more to do
  obtain ⟨more, t, hmore, hwork, hidle⟩ := exists_idle s
  have hr := reaches_append hs hmore
  have hrequests : requests (twoSent ++ more) = twoRequests := by
    rw [requests_append, requests_of_work hwork]
    rfl
  have hids : ((requests (twoSent ++ more)).map (·.2.requestId)).Nodup := by
    rw [hrequests]
    decide
  have hi := two_intelligible hrequests
  obtain ⟨-, -, -, hanswered, -⟩ := remote_call_is_local hr hids hi
  refine ⟨_, t, hr, hids, hi, fun n x hx => ?_⟩
  obtain ⟨k, past, call, hk, hplaced, hone⟩ := hanswered Nat.one_pos hidle n x (hrequests ▸ hx)
  refine ⟨k, hk, ?_⟩
  rw [hone, ← two_respondAfter hx hplaced.requestId hplaced.request past, Pipeline.respondAfter_eq,
    hplaced.requestId, hplaced.request]

end Session

end Rpc
