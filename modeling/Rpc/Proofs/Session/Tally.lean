import Rpc.Proofs.Session.Soundness

/-!
# Every call is somewhere

- `Session.Due`: a request that was put on a wire and whose response has not been handed on;
- `Session.Tallied`: what is due on a connection is under way there, once, and nothing else is;
- `Session.Moving.callId`: a call keeps its id from stage to stage;
- `Session.Tallied.step`: every step keeps what is due and what is under way the same.
-/

namespace Rpc

variable {σ : Type}

/-- The id of the call to which a message belongs. Heartbeats belong to none. -/
def Message.callId? (m : Message) : Option UInt32 := if m.type.isHeartbeat then none else some m.requestId

/-- The id of the call at a stage. -/
def Stage.callId? : Stage → Option UInt32
  | .asked (.ok m) | .replied m | .answered (.ok m) => m.callId?
  | .invoked i => some i.message.requestId
  | .held id _ => some id
  | .asked (.error _) | .answered (.error _) => none

/-- What a move does to the ids. -/
theorem Moves.callIds {l l' : Multiset Stage} {old new : Option Stage} (h : Moves l l' old new) :
    ∃ rest : Multiset UInt32, l.filterMap Stage.callId? = ↑(old.bind Stage.callId?).toList + rest ∧
      l'.filterMap Stage.callId? = ↑(new.bind Stage.callId?).toList + rest := by
  obtain ⟨rest, rfl, rfl⟩ := h
  have hone : ∀ x : Option Stage,
      (↑x.toList : Multiset Stage).filterMap Stage.callId? = ↑(x.bind Stage.callId?).toList := by
    intro x
    cases x with
    | none => rfl
    | some y =>
      show (y ::ₘ 0).filterMap Stage.callId? = ↑y.callId?.toList
      cases hy : y.callId? with
      | none => exact Multiset.filterMap_cons_none y 0 hy
      | some id => exact Multiset.filterMap_cons_some _ y 0 hy
  refine ⟨rest.filterMap Stage.callId?, ?_, ?_⟩
  · rw [Multiset.filterMap_add, hone]
  · rw [Multiset.filterMap_add, hone]

namespace Session

variable {p : Pipeline σ} {a b : FrameCodec} {run : SessionRun} {s t : Session σ} {e : SessionStep} {plan : Plan}
  {note : SessionNote} {n : Nat} {id : UInt32}

/-- The ids of the calls under way on a connection. -/
def underWay (s : Session σ) (n : Nat) : Multiset UInt32 := (s.stages n).filterMap Stage.callId?

/-- A request was put on a wire, and its response has not been handed on. -/
def Due (s : Session σ) (n : Nat) (id : UInt32) : Prop :=
  (∃ k, s.pool.view.sends k = some (n, id) ∧ s.outgoing.get? k = none) ∨ id ∈ s.pool.view.outstanding n

/-- What is due on a connection is under way there, once, and nothing else is. -/
structure Tallied (s : Session σ) : Prop where
  nodup : ∀ n, (s.underWay n).Nodup
  mem : ∀ n id, id ∈ s.underWay n ↔ s.Due n id

/-! ## What is due after a step -/

/-- Sends come and go by being begun and written. -/
theorem Stepped.sends_eq (h : Stepped s e plan t note) (hp : s.pool.Numbered) (hw : ∀ k now, e ≠ .written k now)
    (hs : ∀ n x, e ≠ .send n x) : t.pool.view.sends = s.pool.view.sends := by
  funext k
  apply Option.ext
  intro x
  constructor
  · intro hx
    cases hq : plan.client with
    | none => rwa [(h.idle hq).1] at hx
    | some q =>
      obtain ⟨c, hc, -⟩ := h.client q hq
      rcases (Pool.effect_of_step hp hc).sends_some hx with hx | ⟨rfl, -, -⟩
      · exact hx
      · cases h.planned with
        | client hl =>
          cases hq
          cases hl
        | send => exact absurd rfl (hs _ _)
        | _ => cases hq
  · exact fun hx => h.sends hp hx (hw k) fun n y he => absurd he (hs n y)

/-- Requests come to be outstanding by being written, and are answered by their responses being handed on. -/
theorem Stepped.outstanding_eq (h : Stepped s e plan t note) (hp : s.pool.Numbered)
    (hw : ∀ k now, e ≠ .written k now) (hh : e ≠ .client (.handOver n)) :
    t.pool.view.outstanding n = s.pool.view.outstanding n := by
  cases hq : plan.client with
  | none => rw [(h.idle hq).1]
  | some q =>
    obtain ⟨c, hc, -⟩ := h.client q hq
    rcases (Pool.effect_of_step hp hc).plain_or with hplain | ⟨k, m, id, now, rfl, -⟩ | ⟨m, id, r, rfl, -, -, -, hv⟩
    · rw [hplain.outstanding]
    · cases h.planned with
      | client hl =>
        cases hq
        cases hl
      | written => exact absurd rfl (hw _ _)
      | _ => cases hq
    · have hm : n ≠ m := by
        rintro rfl
        cases h.planned with
        | client =>
          cases hq
          exact hh rfl
        | _ => cases hq
      rw [hv]
      exact Function.update_of_ne hm _ _

/-- What is due stays due, and nothing else comes to be due, unless something is put on the wire or handed on. -/
theorem Stepped.due_same (h : Stepped s e plan t note) (hp : s.pool.Numbered)
    (hd : Delivers (poolRun run) s.pool.view)
    (hput : ∀ k x, e = .put k → s.pool.sends.get? k = some x → x.connection ≠ n) (hh : e ≠ .client (.handOver n))
    (id : UInt32) : t.Due n id ↔ s.Due n id := by
  unfold Due
  have same : (∀ k now, e ≠ .written k now) → (∀ n x, e ≠ .send n x) → t.outgoing = s.outgoing →
      (((∃ k, t.pool.view.sends k = some (n, id) ∧ t.outgoing.get? k = none) ∨ id ∈ t.pool.view.outstanding n) ↔
        ((∃ k, s.pool.view.sends k = some (n, id) ∧ s.outgoing.get? k = none) ∨
          id ∈ s.pool.view.outstanding n)) := by
    intro hw hs ho
    rw [h.sends_eq hp hw hs, h.outstanding_eq hp hw hh, ho]
  have houtgoing := h.outgoing
  cases h.planned with
  | @send m x =>
    obtain ⟨c, hc, -⟩ := h.client _ rfl
    have he := Pool.effect_of_step hp hc
    have hnext : s.pool.nextSend = s.pool.view.nextSend := rfl
    rw [houtgoing, hnext]
    generalize t.pool.view = w at he ⊢
    cases he with
    | started =>
      have hk : ∀ k, Function.update s.pool.view.sends s.pool.view.nextSend (some (m, x.requestId)) k =
            some (n, id) ∧ (s.outgoing.set s.pool.view.nextSend x.message).get? k = none ↔
          s.pool.view.sends k = some (n, id) ∧ s.outgoing.get? k = none := by
        intro k
        rw [Table.get?_set]
        by_cases hk : s.pool.view.nextSend = k
        · subst hk
          simp only [if_pos, reduceCtorEq, and_false, false_iff]
          rintro ⟨hk, -⟩
          exact absurd (hd.sends.started _ n id (hd.sends.going _ n id hk)).1 (Nat.lt_irrefl _)
        · rw [if_neg hk, Function.update_of_ne (Ne.symm hk)]
      simp only [hk]
    | quiet hq => cases hq
    | failed hf => cases hf
    | read hr => cases hr
  | @put k m x w frame hm hx =>
    rw [(h.idle rfl).1, houtgoing]
    have hne := hput k x rfl hx
    have hk : ∀ j, s.pool.view.sends j = some (n, id) ∧ (s.outgoing.erase k).get? j = none ↔
        s.pool.view.sends j = some (n, id) ∧ s.outgoing.get? j = none := by
      intro j
      rw [Table.get?_erase]
      by_cases hj : k = j
      · subst hj
        rw [Pool.view_sends hx]
        simp [hne]
      · rw [if_neg hj]
    simp only [hk]
  | @written k now hk =>
    obtain ⟨c, hc, -⟩ := h.client _ rfl
    have he := Pool.effect_of_step hp hc
    rw [houtgoing]
    generalize t.pool.view = w at he ⊢
    cases he with
    | @written _ m id' _ hx =>
      simp only [View.register]
      constructor
      · rintro (⟨j, hj, hout⟩ | hid)
        · rw [Function.update_apply] at hj
          split at hj
          · cases hj
          · exact .inl ⟨j, hj, hout⟩
        · rw [Function.update_apply] at hid
          split at hid
          · rename_i hm
            subst hm
            rcases List.mem_insert_iff.mp hid with rfl | hid
            · exact .inl ⟨k, hx, hk⟩
            · exact .inr hid
          · exact .inr hid
      · rintro (⟨j, hj, hout⟩ | hid)
        · by_cases hjk : j = k
          · subst hjk
            cases hx.symm.trans hj
            exact .inr (by simp)
          · exact .inl ⟨j, by rw [Function.update_of_ne hjk]; exact hj, hout⟩
        · right
          rw [Function.update_apply]
          split
          · rename_i hm
            exact List.mem_insert_of_mem (hm ▸ hid)
          · exact hid
    | quiet hq => cases hq
    | failed hf => cases hf
    | read hr => cases hr
  | _ => exact same (by simp) (by simp) houtgoing

/-- A request that has not been put on a wire is not due. -/
theorem not_due_of_outgoing (hd : Delivers (poolRun run) s.pool.view) {k m : Nat} {x : Message}
    (hk : s.outgoing.get? k = some x) (hs : s.pool.view.sends k = some (m, id)) (n : Nat) : ¬ s.Due n id := by
  rintro (⟨j, hj, hnone⟩ | hid)
  · obtain rfl := hd.sends.unique j k n m id (hd.sends.going j n id hj) (hd.sends.going k m id hs)
    rw [hk] at hnone
    cases hnone
  · obtain ⟨h, hi⟩ := hd.registered.outstanding n id hid
    exact hd.sends.not_issued hs hi

/-- What is put on a wire comes to be due. -/
theorem Stepped.due_put {k : Nat} {x : Send} (h : Stepped s (.put k) plan t note) (hx : s.pool.sends.get? k = some x)
    (id : UInt32) : t.Due x.connection id ↔ s.Due x.connection id ∨ id = x.requestId := by
  have hpool : t.pool = s.pool := by
    cases h.planned
    exact (h.idle rfl).1
  have hout : t.outgoing = s.outgoing.erase k := by
    rw [h.outgoing]
    cases h.planned
    rfl
  unfold Due
  rw [hpool, hout]
  constructor
  · rintro (⟨j, hj, hnone⟩ | hid)
    · rw [Table.get?_erase] at hnone
      by_cases hjk : k = j
      · subst hjk
        rw [Pool.view_sends hx] at hj
        cases hj
        exact .inr rfl
      · rw [if_neg hjk] at hnone
        exact .inl (.inl ⟨j, hj, hnone⟩)
    · exact .inl (.inr hid)
  · rintro ((⟨j, hj, hnone⟩ | hid) | rfl)
    · refine .inl ⟨j, hj, ?_⟩
      rw [Table.get?_erase, hnone, ite_self]
    · exact .inr hid
    · exact .inl ⟨k, Pool.view_sends hx, by rw [Table.get?_erase, if_pos rfl]⟩

/-- A request whose response is handed on is no longer due. -/
theorem Stepped.due_handed (h : Stepped s (.client (.handOver n)) plan t note) (hp : s.pool.Numbered)
    (hd : Delivers (poolRun run) s.pool.view) {id : UInt32} {r : Response}
    (hheld : s.pool.view.held n = some (.held id r)) (hdue : s.Due n id) (j : UInt32) :
    t.Due n j ↔ s.Due n j ∧ j ≠ id := by
  have hclient : plan.client = some (.handOver n) := by
    cases h.planned
    rfl
  have hout : t.outgoing = s.outgoing := by
    rw [h.outgoing]
    cases h.planned
    rfl
  obtain ⟨c, hc, -⟩ := h.client _ hclient
  have he := Pool.effect_of_step hp hc
  -- the request of a response that can be handed on is not being written
  have hunsent : id ∉ s.pool.view.writing n → ∀ k, s.pool.view.sends k ≠ some (n, id) :=
    fun hw k hk => hw ((hd.writes n id).mpr ⟨k, hk⟩)
  unfold Due at hdue ⊢
  rw [hout]
  generalize t.pool.view = w at he ⊢
  cases he with
  | @handed _ id' r' hr hw ho =>
    have hid : id' = id := by
      rw [View.held, hr] at hheld
      cases hheld
      rfl
    subst hid
    simp only [View.handOn, Function.update_self, List.mem_filter, decide_eq_true_eq, ne_eq]
    constructor
    · rintro (⟨k, hk, hnone⟩ | ⟨hj, hne⟩)
      · refine ⟨.inl ⟨k, hk, hnone⟩, ?_⟩
        rintro rfl
        exact hunsent hw k hk
      · exact ⟨.inr hj, hne⟩
    · rintro ⟨⟨k, hk, hnone⟩ | hj, hne⟩
      · exact .inl ⟨k, hk, hnone⟩
      · exact .inr ⟨hj, hne⟩
  | @discarded _ id' r' hr hw ho =>
    have hid : id' = id := by
      rw [View.held, hr] at hheld
      cases hheld
      rfl
    subst hid
    rcases hdue with ⟨k, hk, -⟩ | hdue
    · exact absurd hk (hunsent hw k)
    · exact absurd hdue ho
  | quiet hq => cases hq
  | failed hf => cases hf
  | read hr => cases hr

/-! ## Every call keeps its id -/

/-- A call keeps its id from stage to stage. -/
theorem Moving.callId {old new : Option Stage} (h : Moving s n e old new)
    (hsound : Sound p a b run s) (hmem : ∀ y, old = some y → y ∈ s.stages n) :
    (old.bind Stage.callId? = new.bind Stage.callId? ∧
      (∀ k x, e = .put k → s.pool.sends.get? k = some x → x.connection ≠ n) ∧ e ≠ .client (.handOver n)) ∨
    (∃ k m x, e = .put k ∧ s.outgoing.get? k = some m ∧ s.pool.sends.get? k = some x ∧ x.connection = n ∧
      old = none ∧ new = some (.asked (.ok m))) ∨
    ∃ id r, e = .client (.handOver n) ∧ s.pool.view.held n = some (.held id r) ∧ old = some (.held id r) ∧
      new = none := by
  cases h with
  | still hput hh _ => exact .inl ⟨rfl, hput, hh⟩
  | @put k m x hm hx hn => exact .inr (.inl ⟨k, m, x, rfl, hm, hx, hn, rfl, rfl⟩)
  | handed hheld => exact .inr (.inr ⟨_, _, rfl, hheld, rfl, rfl⟩)
  | probed | finished | replied => exact .inl ⟨rfl, nofun, nofun⟩
  | @looked now c i hc hi =>
    refine .inl ⟨?_, nofun, nofun⟩
    cases hsound.stages n _ (hmem _ rfl) with
    | asked hm =>
      cases hm with
      | @request x hx =>
        rcases s.server.pipeline.look_request c.peer now x with hlook | ⟨i, hlook, hid, -⟩
        · rw [hlook]
          rfl
        · rw [hlook]
          exact congrArg some hid.symm
      | probe id => rfl
  | received =>
    refine .inl ⟨?_, nofun, nofun⟩
    cases hsound.stages n _ (hmem _ rfl) with
    | answered hm => cases hm <;> rfl

/-! ## Every run -/

theorem tallied_start (p : Pipeline σ) (a b : FrameCodec) (workers : Nat) : Tallied (start a p b workers) where
  nodup _ := Multiset.nodup_zero
  mem n id := by
    constructor
    · exact fun h => absurd h (Multiset.notMem_zero _)
    · rintro (⟨k, hk, -⟩ | h)
      · cases hk
      · cases h

/-- **Every step keeps the calls under way and those that are due the same.** -/
theorem Tallied.step (h : Tallied s) (hsound : Sound p a b run s) (hw : Writable s)
    (hd : Delivers (poolRun run) s.pool.view) (hs : s.step? e = some (t, note)) : Tallied t := by
  obtain ⟨plan, hs⟩ := stepped_of_step hs
  suffices hall : ∀ n, (t.underWay n).Nodup ∧ ∀ id, id ∈ t.underWay n ↔ t.Due n id from
    ⟨fun n => (hall n).1, fun n => (hall n).2⟩
  intro n
  obtain ⟨old, new, hmoving, hmoves⟩ := moving_of_step hs hw hsound.numbered n
  have hmem : ∀ y, old = some y → y ∈ s.stages n := by
    rintro y rfl
    exact hmoves.mem_old
  obtain ⟨rest, hbefore, hafter⟩ := hmoves.callIds
  replace hbefore : s.underWay n = _ := hbefore
  replace hafter : t.underWay n = _ := hafter
  have hnodup := h.nodup n
  have hids := h.mem n
  rcases hmoving.callId hsound hmem with ⟨heq, hput, hh⟩ | ⟨k, m, x, rfl, hm, hx, rfl, rfl, rfl⟩ |
    ⟨id, r, rfl, hheld, rfl, rfl⟩
  · have hsame : t.underWay n = s.underWay n := by rw [hafter, hbefore, heq]
    rw [hsame]
    refine ⟨hnodup, fun id => ?_⟩
    rw [hs.due_same hsound.numbered hd hput hh]
    exact hids id
  · -- what is put on the wire was not under way before
    have hnew : m.callId? = some x.requestId := by
      obtain ⟨n', y, hy, -, rfl⟩ := hsound.outgoing k m hm
      rw [Pool.view_sends hx] at hy
      exact congrArg some (Prod.mk.inj (Option.some.inj hy)).2.symm
    have hafter' : t.underWay x.connection = x.requestId ::ₘ s.underWay x.connection := by
      rw [hafter, hbefore, Option.bind_some, Stage.callId?, hnew]
      simp
    have hnot : x.requestId ∉ s.underWay x.connection := by
      rw [hids]
      exact not_due_of_outgoing hd hm (Pool.view_sends hx) _
    rw [hafter']
    refine ⟨Multiset.nodup_cons.mpr ⟨hnot, hnodup⟩, fun id => ?_⟩
    rw [hs.due_put hx, Multiset.mem_cons, hids, or_comm]
  · -- the call that is handed on was under way once
    have hbefore' : s.underWay n = id ::ₘ rest := hbefore
    have hafter' : t.underWay n = rest := by rw [hafter]; simp
    rw [hbefore'] at hnodup hids
    rw [hafter']
    obtain ⟨hnot, hrest⟩ := Multiset.nodup_cons.mp hnodup
    have hdue : s.Due n id := (hids id).mp (Multiset.mem_cons_self id rest)
    refine ⟨hrest, fun j => ?_⟩
    rw [hs.due_handed hsound.numbered hd hheld hdue, ← hids j, Multiset.mem_cons]
    constructor
    · intro hj
      refine ⟨.inr hj, ?_⟩
      rintro rfl
      exact hnot hj
    · rintro ⟨hj | hj, hne⟩
      · exact absurd hj hne
      · exact hj

end Session

end Rpc
