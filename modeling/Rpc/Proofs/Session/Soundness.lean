import Rpc.Proofs.Client.Patience
import Rpc.Proofs.Session.Content

/-!
# All that is under way was said

- `Session.Sound`: what holds of a session on every run on which both sides understand what is said: connections stay
  open, on the wires are whole frames, and what is at a stage was said; `Session.Sound.step`: every step keeps it;
- `Session.sound_of_reaches`, `Session.Sound.took`: so a response that the client takes is that of a local call.
-/

namespace Rpc

variable {σ : Type}

namespace Session

variable {p : Pipeline σ} {a b : FrameCodec} {run : SessionRun} {s t : Session σ} {e : SessionStep} {plan : Plan}
  {note : SessionNote} {n : Nat}

/-- In a session nobody gives up. -/
theorem Stepped.patient (h : Stepped s e plan t note) {q : PoolStep} (hq : plan.client = some q) :
    q.isPatient = true := by
  cases h.planned with
  | client hl =>
    cases hq
    cases q <;> first | rfl | cases hl
  | connect | send | written | probed | looked | received =>
    cases hq
    rfl
  | _ => cases hq

theorem patient_of_reaches (h : Reaches s run t) : ∀ x ∈ poolRun run, x.1.isPatient = true := by
  refine h.induction (motive := fun run _ => ∀ x ∈ poolRun run, x.1.isPatient = true) (fun _ hx => nomatch hx) ?_
  intro run t e u note _ ih hs x hx
  obtain ⟨plan, hs⟩ := stepped_of_step hs
  rw [poolRun_snoc] at hx
  rcases List.mem_append.mp hx with hx | hx
  · exact ih x hx
  · cases hq : plan.client with
    | none =>
      rw [(hs.idle hq).2] at hx
      cases hx
    | some q =>
      obtain ⟨c, -, hnote⟩ := hs.client q hq
      rw [hnote] at hx
      rw [List.mem_singleton.mp hx]
      exact hs.patient hq

/-- What holds of a session on every run from a client without connections and a server with the pipeline `p`. -/
structure Sound (p : Pipeline σ) (a b : FrameCodec) (run : SessionRun) (s : Session σ) : Prop where
  codecs : s.codec = a ∧ s.server.codec = b
  numbered : s.pool.Numbered
  pipeline : s.server.pipeline = p.after (calls run)
  live : ∀ n c, s.server.connections.get? n = some c → c.Live
  peers : ∀ n c, s.server.connections.get? n = some c → Connected run n c.peer
  linked : ∀ n, (s.wires.get? n).isSome = true ↔ (s.server.connections.get? n).isSome = true
  joined : ∀ n, (s.wires.get? n).isSome = true ↔ s.pool.view.reader n ≠ none
  whole : ∀ n w, s.wires.get? n = some w → w.up.Whole b ∧ w.down.Whole a
  outgoing : ∀ k m, s.outgoing.get? k = some m →
    ∃ n x, s.pool.view.sends k = some (n, x.requestId) ∧ (n, x) ∈ requests run ∧ m = x.message
  stages : ∀ n y, y ∈ s.stages n → Proper p run n y
  received : ∀ n i now c, (.receive n i now, c) ∈ poolRun run → ∃ m, i = .ok m ∧ Replies p run n m

theorem sound_start (p : Pipeline σ) (a b : FrameCodec) (workers : Nat) : Sound p a b [] (start a p b workers) where
  codecs := ⟨rfl, rfl⟩
  numbered := Pool.numbered_empty
  pipeline := rfl
  live _ _ h := nomatch h
  peers _ _ h := nomatch h
  linked _ := Iff.rfl
  joined _ := ⟨fun h => (nomatch h), fun h => absurd rfl h⟩
  whole _ _ h := nomatch h
  outgoing _ _ h := nomatch h
  stages _ _ h := absurd h (Multiset.notMem_zero _)
  received _ _ _ _ h := nomatch h

/-- Where both sides understand what is said, both sides understand what is written. -/
theorem Sound.writable (h : Sound p a b run s)
    (hh : headerLength ≤ a.maxFrameLength ∧ headerLength ≤ b.maxFrameLength) (hi : Intelligible p a b run) :
    Writable s := by
  obtain ⟨rfl, rfl⟩ := h.codecs
  refine ⟨h.live, fun n => ?_, hi.short, h.whole, fun k m hm => ?_, fun id => hi.asks hh (n := 0) (.probe id),
    fun n m hm => ?_⟩
  · exact Bool.eq_iff_iff.mpr (h.linked n)
  · obtain ⟨n, x, -, hx, rfl⟩ := h.outgoing k m hm
    exact hi.request n x hx
  · cases h.stages n _ hm with
    | replied hm => exact hi.replies hh hm

/-! ### One step -/

/-- Connections come about by being opened, and stay: their wires, -/
theorem Stepped.wires_isSome (h : Stepped s e plan t note) (n : Nat) :
    (t.wires.get? n).isSome = true ↔ (s.wires.get? n).isSome = true ∨ ∃ peer now, e = .connect n peer now := by
  rw [h.wires]
  cases h.planned with
  | @connect k peer now =>
    rw [Table.get?_set]
    by_cases hk : k = n <;> simp [hk]
  | put _ _ hw | probed _ hw | carriedUp hw | carriedDown hw | arrived hw | replied hw | received hw =>
    rw [Table.isSome_get?_set hw]
    simp
  | _ => simp

/-- their part at the server, -/
theorem Stepped.server_isSome (h : Stepped s e plan t note) (hw : Writable s) (n : Nat) :
    (t.server.connections.get? n).isSome = true ↔
      (s.server.connections.get? n).isSome = true ∨ ∃ peer now, e = .connect n peer now := by
  have hopened : (∃ peer, plan.server = some (.opened n peer)) ↔ ∃ peer now, e = .connect n peer now := by
    cases h.planned with
    | served hl =>
      constructor
      · rintro ⟨peer, hq⟩
        cases hq
        cases hl
      · exact nofun
    | _ => simp
  rw [← hopened]
  cases hr : plan.server with
  | none => simp [h.resting hr]
  | some r => simpa using (h.serves hw hr).isSome n

/-- and their part at the client. -/
theorem Stepped.reader_isSome (h : Stepped s e plan t note) (hp : s.pool.Numbered) (n : Nat) :
    t.pool.view.reader n ≠ none ↔ s.pool.view.reader n ≠ none ∨ ∃ peer now, e = .connect n peer now := by
  have hdialed : (∃ now, plan.client = some (.dialed n now)) ↔ ∃ peer now, e = .connect n peer now := by
    cases h.planned with
    | client hl =>
      constructor
      · rintro ⟨now, hq⟩
        cases hq
        cases hl
      · exact nofun
    | _ => simp
  rw [← hdialed]
  cases hq : plan.client with
  | none => simp [(h.idle hq).1]
  | some q =>
    obtain ⟨c, hc, -⟩ := h.client q hq
    have hr := (Pool.effect_of_step hp hc).reader_none n
    rw [ne_eq, hr, not_and_or]
    simp [eq_comm]

/-- What the server remembers after a step is what its filters have learnt from the calls. -/
theorem Stepped.pipeline (h : Stepped s e plan t note) (hw : Writable s)
    (hp : s.server.pipeline = p.after (calls run)) :
    t.server.pipeline = p.after (calls (run ++ [(e, note)])) := by
  have hcall : plan.call = plan.server.bind s.callOf := by cases h.planned <;> rfl
  rw [calls_snoc, h.call, hcall]
  cases hr : plan.server with
  | none =>
    rw [h.resting hr]
    simpa using hp
  | some r =>
    have hserves := h.serves hw hr
    generalize t.server = q at hserves ⊢
    rw [Option.bind_some]
    cases hserves with
    | @looked k c now i rest hc hi =>
      have hof : s.callOf (.read k now) = i.call? c.peer now := by simp [callOf, hc, hi]
      have hlook := Pipeline.look_eq s.server.pipeline c.peer now i
      rw [hof]
      show (s.server.pipeline.look c.peer now i).1 = _
      rw [hlook, hp]
      cases i.call? c.peer now with
      | none => simp
      | some call => rw [Option.toList_some, Pipeline.after_snoc, Option.elim_some]
    | opened | arrived | started | finished | enqueued | wrote =>
      simp only [callOf, Option.toList_none, List.append_nil]
      exact hp

/-- All that is on the wires is whole frames still. -/
theorem Stepped.whole (h : Stepped s e plan t note) (hw : Writable s) {n : Nat} {w : Wire}
    (hget : t.wires.get? n = some w) : w.up.Whole s.server.codec ∧ w.down.Whole s.codec := by
  have hset : ∀ {k : Nat} {w' : Wire}, (s.wires.set k w').get? n = some w →
      w'.up.Whole s.server.codec ∧ w'.down.Whole s.codec → w.up.Whole s.server.codec ∧ w.down.Whole s.codec := by
    intro k w' h hwhole
    rw [Table.get?_set] at h
    split at h
    · cases h
      exact hwhole
    · exact hw.whole n w h
  have hframe : ∀ {c d : FrameCodec} {m : Message} {f : Flow} {frame : Bytes}, d.maxFrameLength < 2 ^ 32 →
      FrameCodec.Understood c d m → c.encode m = .ok frame → f.Whole d → (f.put frame).Whole d := by
    intro c d m f frame hd hu he hf
    have hdecode := FrameCodec.decode_of_understood hd hu he []
    rw [List.append_nil] at hdecode
    exact (Flow.whole_put hf hdecode).2
  rw [h.wires] at hget
  cases h.planned with
  | connect => exact hset hget ⟨Flow.whole_empty _, Flow.whole_empty _⟩
  | @put k m x w' frame hm hx hk he =>
    obtain ⟨hup, hdown⟩ := hw.whole _ w' hk
    exact hset hget ⟨hframe hw.short.2 (hw.outgoing k m hm) he hup, hdown⟩
  | @probed k _ _ w' frame hi hk he =>
    obtain ⟨hup, hdown⟩ := hw.whole _ w' hk
    exact hset hget ⟨hframe hw.short.2 (hw.probes s.pool.nextProbe) he hup, hdown⟩
  | carriedUp hk =>
    obtain ⟨hup, hdown⟩ := hw.whole _ _ hk
    exact hset hget ⟨hup.carry _, hdown⟩
  | carriedDown hk =>
    obtain ⟨hup, hdown⟩ := hw.whole _ _ hk
    exact hset hget ⟨hup, hdown.carry _⟩
  | arrived hk htake =>
    obtain ⟨hup, hdown⟩ := hw.whole _ _ hk
    exact hset hget ⟨hup.take htake, hdown⟩
  | received hk htake =>
    obtain ⟨hup, hdown⟩ := hw.whole _ _ hk
    exact hset hget ⟨hup, hdown.take htake⟩
  | @replied k w' c m reply rest frame hk hc hq he =>
    obtain ⟨hup, hdown⟩ := hw.whole _ _ hk
    have hu := hw.replies k m (replied_mem_stages hc hq)
    obtain ⟨frame', hencode, hreply⟩ := FrameCodec.encodeReply_of_understood hu
    rw [he] at hreply
    cases hreply
    exact hset hget ⟨hup, hframe hw.short.1 hu hencode hdown⟩
  | client | send | written | looked | served => exact hw.whole n w hget

/-- A send is on its way until it is written. -/
theorem Stepped.sends (h : Stepped s e plan t note) (hp : s.pool.Numbered) {k : Nat} {x : Nat × UInt32}
    (hk : s.pool.view.sends k = some x) (hw : ∀ now, e ≠ .written k now)
    (hs : ∀ n y, e = .send n y → k ≠ s.pool.nextSend) : t.pool.view.sends k = some x := by
  cases hq : plan.client with
  | none =>
    rw [(h.idle hq).1]
    exact hk
  | some q =>
    obtain ⟨c, hc, -⟩ := h.client q hq
    rcases (Pool.effect_of_step hp hc).sends_stay (h.patient hq) hk with hk | ⟨now, rfl⟩ | ⟨hnext, n, id, rfl⟩
    · exact hk
    · cases h.planned with
      | client hl =>
        cases hq
        cases hl
      | written =>
        cases hq
        exact absurd rfl (hw _)
      | _ => cases hq
    · cases h.planned with
      | client hl =>
        cases hq
        cases hl
      | send => exact absurd hnext (hs _ _ rfl)
      | _ => cases hq

/-- What is to be put on a wire is a request that was sent. -/
theorem Stepped.outgoing_sent (h : Stepped s e plan t note) (hsound : Sound p a b run s) {k : Nat} {m : Message}
    (hk : t.outgoing.get? k = some m) :
    ∃ n x, t.pool.view.sends k = some (n, x.requestId) ∧ (n, x) ∈ requests (run ++ [(e, note)]) ∧ m = x.message := by
  have stays : s.outgoing.get? k = some m → (∀ now, e ≠ .written k now) →
      (∀ n y, e = .send n y → k ≠ s.pool.nextSend) →
      ∃ n x, t.pool.view.sends k = some (n, x.requestId) ∧ (n, x) ∈ requests (run ++ [(e, note)]) ∧
        m = x.message := by
    intro hk hw hs
    obtain ⟨n, x, hx, hreq, hm⟩ := hsound.outgoing k m hk
    exact ⟨n, x, h.sends hsound.numbered hx hw hs, mem_requests_append _ hreq, hm⟩
  rw [h.outgoing] at hk
  cases h.planned with
  | @send n x =>
    rw [Table.get?_set] at hk
    split at hk
    · rename_i hnext
      cases hk
      obtain ⟨c, hc, -⟩ := h.client _ rfl
      refine ⟨n, x, ?_, ?_, rfl⟩
      · have he := Pool.effect_of_step hsound.numbered hc
        generalize t.pool.view = v at he ⊢
        cases he with
        | started =>
          subst hnext
          exact Function.update_self ..
        | quiet hq => cases hq
        | failed hf => cases hf
        | read hr => cases hr
      · rw [requests_snoc]
        exact List.mem_append_right _ (List.mem_singleton_self _)
    · rename_i hnext
      exact stays hk (by simp) fun _ _ _ => Ne.symm hnext
  | put =>
    rw [Table.get?_erase] at hk
    split at hk
    · cases hk
    · exact stays hk (by simp) (by simp)
  | written hnone =>
    refine stays hk ?_ (by simp)
    rintro now heq
    cases heq
    rw [hnone] at hk
    cases hk
  | _ => exact stays hk (by simp) (by simp)

/-- What the client takes was said. -/
theorem Stepped.received (h : Stepped s e plan t note) (hsound : Sound p a b run s) {n : Nat} {i : Inbound}
    {now : Instant} {c : PoolAnswer} (hm : note.client = some (.receive n i now, c)) :
    ∃ m, i = .ok m ∧ Replies p run n m := by
  have hreceive : plan.client = some (.receive n i now) := by
    cases hq : plan.client with
    | none =>
      rw [(h.idle hq).2] at hm
      cases hm
    | some q =>
      obtain ⟨c', -, hnote⟩ := h.client q hq
      rw [hnote] at hm
      cases hm
      rfl
  cases h.planned with
  | client hl =>
    cases hreceive
    cases hl
  | @received _ _ w _ down hget htake =>
    cases hreceive
    have hmem : .answered i ∈ s.stages n := by
      have hdown := (Wire.moves_takeDown (b := s.server.codec) htake).mem_old
      unfold stages
      rw [wireStages_of_get hget]
      exact Multiset.mem_add.mpr (.inl (Multiset.mem_add.mpr (.inr hdown)))
    cases hsound.stages n _ hmem with
    | answered hreply => exact ⟨_, rfl, hreply⟩
  | _ => cases hreceive

/-- Where a call moves on, what it moves to is said. -/
theorem Moving.proper {old new : Option Stage} (h : Moving s n e old new) (hs : Stepped s e plan t note)
    (hsound : Sound p a b run s) (hmem : ∀ y, old = some y → y ∈ s.stages n) {y : Stage} (hy : new = some y) :
    Proper p (run ++ [(e, note)]) n y := by
  cases h with
  | still | handed => cases hy
  | @put k m x hm hx hn =>
    cases hy
    obtain ⟨n', x', hx', hreq, rfl⟩ := hsound.outgoing k m hm
    rw [Pool.view_sends hx] at hx'
    obtain ⟨hconn, -⟩ := Prod.mk.inj (Option.some.inj hx')
    obtain rfl : n' = n := hconn.symm.trans hn
    exact .asked (.request (mem_requests_append _ hreq))
  | probed =>
    cases hy
    exact .asked (.probe _)
  | @looked now c i hc hi =>
    cases hsound.stages n _ (hmem _ rfl) with
    | asked hm =>
      rw [hsound.pipeline] at hy
      refine hm.look (hsound.peers n c hc) now ?_ hy
      rw [hs.call]
      cases hs.planned with
      | served => simp [callOf, hc, hi]
  | @finished place i =>
    cases hy
    cases hsound.stages n _ (hmem _ rfl) with
    | invoked hx hid hrun =>
      rw [hsound.pipeline, Pipeline.after_services, hrun]
      exact .replied (.response (hx.mono _))
  | replied =>
    cases hy
    cases hsound.stages n _ (hmem _ rfl) with
    | replied hm => exact .answered (hm.mono _)
  | received =>
    cases hsound.stages n _ (hmem _ rfl) with
    | answered hm => exact (hm.stage hy).mono _

/-- **Every step keeps it**, where both sides understand what is said. -/
theorem Sound.step (h : Sound p a b run s) (hw : Writable s) (hs : s.step? e = some (t, note)) :
    Sound p a b (run ++ [(e, note)]) t := by
  obtain ⟨plan, hs⟩ := stepped_of_step hs
  obtain ⟨hcodec, hserver⟩ := hs.codecs hw
  refine ⟨⟨hcodec.trans h.codecs.1, hserver.trans h.codecs.2⟩, ?_, hs.pipeline hw h.pipeline, ?_, ?_, fun n => ?_,
    fun n => ?_, ?_, fun k m => hs.outgoing_sent h, ?_, ?_⟩
  · cases hq : plan.client with
    | none =>
      rw [(hs.idle hq).1]
      exact h.numbered
    | some q =>
      obtain ⟨c, hc, -⟩ := hs.client q hq
      exact h.numbered.step hc
  · cases hr : plan.server with
    | none =>
      rw [hs.resting hr]
      exact h.live
    | some r => exact (hs.serves hw hr).live h.live
  · intro n c hc
    have stays : ∀ d, s.server.connections.get? n = some d → d.peer = c.peer →
        Connected (run ++ [(e, note)]) n c.peer := by
      intro d hd hpeer
      rw [← hpeer]
      exact (h.peers n d hd).mono _
    cases hr : plan.server with
    | none =>
      rw [hs.resting hr] at hc
      exact stays c hc rfl
    | some r =>
      rcases (hs.serves hw hr).peer hc with rfl | ⟨d, hd, hpeer⟩
      · cases hs.planned with
        | connect =>
          cases hr
          exact ⟨_, note, List.mem_append_right _ (List.mem_singleton_self _)⟩
        | served hl =>
          cases hr
          cases hl
        | _ => cases hr
      · exact stays d hd hpeer
  · rw [hs.wires_isSome, hs.server_isSome hw, h.linked]
  · rw [hs.wires_isSome, hs.reader_isSome h.numbered, h.joined]
  · intro n w hget
    rw [← h.codecs.1, ← h.codecs.2]
    exact hs.whole hw hget
  · intro n y hy
    obtain ⟨old, new, hmoving, hmoves⟩ := moving_of_step hs hw h.numbered n
    rcases hmoves.mem_new hy with hnew | hy
    · refine hmoving.proper hs h ?_ hnew
      rintro x rfl
      exact hmoves.mem_old
    · exact (h.stages n y hy).mono _
  · intro n i now c hm
    rw [poolRun_snoc] at hm
    rcases List.mem_append.mp hm with hm | hm
    · obtain ⟨m, rfl, hreply⟩ := h.received n i now c hm
      exact ⟨m, rfl, hreply.mono _⟩
    · obtain ⟨m, rfl, hreply⟩ := hs.received h (Option.mem_toList.mp hm)
      exact ⟨m, rfl, hreply.mono _⟩

/-- **On every run on which both sides understand what is said, all that is under way was said.** -/
theorem sound_of_reaches {workers : Nat} (h : Reaches (start a p b workers) run s)
    (hh : headerLength ≤ a.maxFrameLength ∧ headerLength ≤ b.maxFrameLength) (hi : Intelligible p a b run) :
    Sound p a b run s := by
  refine h.induction (motive := fun run s => Intelligible p a b run → Sound p a b run s) ?_ ?_ hi
  · exact fun _ => sound_start p a b workers
  · intro run t e u note _ ih hs hi
    have hsound := ih (hi.before _)
    exact hsound.step (hsound.writable hh (hi.before _)) hs

/-- A response that the client takes is that of a local call. -/
theorem Sound.took (h : Sound p a b run s) {n : Nat} {id : UInt32} {r : Response} (ht : Took (poolRun run) n id r) :
    ∃ x past call, Placed run n x past call ∧ id = x.requestId ∧ r = p.respondAfter past call := by
  obtain ⟨i, now, c, hm, hc⟩ := ht
  obtain ⟨m, rfl, hreply⟩ := h.received n i now c hm
  cases hreply with
  | @response x past call hx =>
    cases hc with
    | response _ hp =>
      cases hp
      exact ⟨x, past, call, hx, rfl, rfl⟩
  | alive =>
    cases hc with
    | response ht => cases ht

end Session

end Rpc
