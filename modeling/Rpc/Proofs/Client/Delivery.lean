import Rpc.Proofs.Client.History

/-!
# Who waits, and for what

What a run and its view have in common as far as responses go (`Delivers`): what waits was written and is outstanding
on its connection, what a handle holds came in there, a handle that has been read is gone, and a handle for an
outstanding request waits unless it was given up or its connection has ended. Every step keeps this
(`Delivers.step`); so it holds on every run on which no id is used twice (`delivers_of_leads`).
-/

namespace Rpc

variable {run : Run} {v w : View}

/-- Every step keeps entries and handles together. -/
theorem Effect.sound {s : PoolStep} {a : PoolAnswer} (he : Effect v s a w) (h : v.pending.Sound) :
    w.pending.Sound := by
  cases he with
  | written => exact h.insert _ _
  | handed => exact h.settle _ nofun
  | finished | cleared => exact h.removeAll _
  | read | dropped => exact h.drop _
  | @expired _ _ x => exact (h.settle x.requestId (d := .lost) nofun).drop _
  | quiet | dialed | started | failed | took | discarded => exact h

/-- A handle for a request is new only by the request being written. -/
theorem Sends.issued_snoc {s : PoolStep} {a : PoolAnswer} (h : Sends run v) (he : Effect v s a w) {k n : Nat}
    {id : UInt32} (hi : Issued (run ++ [(s, a)]) k n id) :
    Issued run k n id ∨ ∃ j now, s = .endSend j .written now ∧ v.sends j = some (n, id) ∧
      k = v.pending.nextHandle := by
  obtain ⟨j, hs', hw'⟩ := hi
  rcases written_snoc.mp hw' with hw | ⟨now, hev⟩ <;> rcases started_snoc.mp hs' with hs | hev'
  · exact .inl ⟨j, hs, hw⟩
  · cases hev'
    cases he with
    | started => exact absurd (h.written _ _ hw).2.1 (Nat.lt_irrefl _)
    | quiet hq => cases hq
    | failed hf => cases hf
  · cases hev
    cases he with
    | @written _ m i _ hx =>
      obtain ⟨rfl, rfl⟩ := h.same j m n i id (h.going j m i hx) hs
      exact .inr ⟨j, now, rfl, hx, rfl⟩
    | quiet hq => cases hq
    | failed hf => cases hf
  · cases hev
    cases hev'

theorem Sends.issued_snoc_plain {s : PoolStep} {a : PoolAnswer} (h : Sends run v) (he : Effect v s a w)
    (hu : ∀ k now, s ≠ .endSend k .written now) {k n : Nat} {id : UInt32}
    (hi : Issued (run ++ [(s, a)]) k n id) : Issued run k n id := by
  rcases h.issued_snoc he hi with hi | ⟨j, now, hs, -⟩
  · exact hi
  · exact absurd hs (hu j now)

/-- The new handle of a request that has been written. -/
theorem Sends.issued_written {s n : Nat} {id : UInt32} (h : Sends run v) (hx : v.sends s = some (n, id))
    (now : Instant) : Issued (run ++ [(.endSend s .written now, .sent (.ok v.pending.nextHandle))])
      v.pending.nextHandle n id :=
  ⟨s, (h.going s n id hx).mono _, now, by simp⟩

/-! ## The invariant -/

/-- What is outstanding was written, what waits is outstanding, and handles are for requests that were written. -/
structure Registered (run : Run) (v : View) : Prop where
  outstanding : ∀ n id, id ∈ v.outstanding n → ∃ h, Issued run h n id
  entry : ∀ id e, v.pending.entries.get? id = some e →
    Issued run e.handle e.owner id ∧ id ∈ v.outstanding e.owner
  handle : ∀ h x, v.pending.handles.get? h = some x → ∃ n, Issued run h n x.requestId

/-- What readers hold came in on their connections, and what handles hold on those of their requests. -/
structure Carried (run : Run) (v : View) : Prop where
  holding : ∀ n id r, v.reader n = some (.holding id r) → Took run n id r
  response : ∀ h n id r, Issued run h n id → v.pending.handles.get? h = some ⟨id, .response r⟩ → Took run n id r

/-- A handle that has been read is gone, so it is read once; a response that it gave came in for its request. -/
structure Given (run : Run) (v : View) : Prop where
  gone : ∀ h, outcomesOf h run ≠ [] → v.pending.handles.get? h = none ∧ h < v.pending.nextHandle
  once : ∀ h, (outcomesOf h run).length ≤ 1
  response : ∀ h r, .ok r ∈ outcomesOf h run → ∃ n id, Issued run h n id ∧ Took run n id r

/-- Whoever has a handle for an outstanding request waits, unless the handle was given up or the reader ended. -/
def Awaited (run : Run) (v : View) : Prop :=
  ∀ h n id, Issued run h n id → id ∈ v.outstanding n → v.reader n ≠ some .finished →
    v.pending.handles.get? h = some ⟨id, .awaited⟩ ∨ GaveUp run h

/-! ## What is outstanding -/

theorem Registered.handle_of_loses {t : Pending Nat} (h : Registered run v) (hl : Pending.Loses v.pending t) {k : Nat}
    {x : Handle} (hk : t.handles.get? k = some x) : ∃ n, Issued run k n x.requestId := by
  rcases hl.handles k x hk with hx | ⟨y, hy, rfl⟩
  · exact h.handle k x hx
  · exact h.handle k y hy

theorem Registered.step {s : PoolStep} {a : PoolAnswer} (h : Registered run v) (hs : Sends run v)
    (he : Effect v s a w) : Registered (run ++ [(s, a)]) w := by
  rcases he.plain_or with hp | ⟨k, n, id, now, rfl, rfl, hx, rfl⟩ | ⟨n, id, r, rfl, hr, hw, ho, rfl⟩
  · refine ⟨fun n id hid => ?_, fun id e hid => ?_, fun k x hk => ?_⟩
    · obtain ⟨k, hk⟩ := h.outstanding n id (hp.outstanding ▸ hid)
      exact ⟨k, hk.mono _⟩
    · obtain ⟨hi, ho⟩ := h.entry id e (hp.loses.entries id e hid)
      exact ⟨hi.mono _, hp.outstanding ▸ ho⟩
    · obtain ⟨n, hn⟩ := h.handle_of_loses hp.loses hk
      exact ⟨n, hn.mono _⟩
  · refine ⟨fun m j hj => ?_, fun j e hj => ?_, fun k x hk => ?_⟩
    · simp only [View.register, Function.update_apply] at hj
      split at hj
      · rename_i hm
        rcases List.mem_insert_iff.mp hj with rfl | hj
        · exact ⟨_, hm ▸ hs.issued_written hx now⟩
        · obtain ⟨k, hk⟩ := h.outstanding m j (hm ▸ hj)
          exact ⟨k, hk.mono _⟩
      · obtain ⟨k, hk⟩ := h.outstanding m j hj
        exact ⟨k, hk.mono _⟩
    · simp only [View.register, Pending.entries_insert] at hj
      split at hj
      · rename_i hid
        cases hj
        refine ⟨hid ▸ hs.issued_written hx now, ?_⟩
        simp [View.register, hid]
      · obtain ⟨hi, ho⟩ := h.entry j e hj
        refine ⟨hi.mono _, ?_⟩
        simp only [View.register, Function.update_apply]
        split
        · rename_i hm
          exact List.mem_insert_of_mem (hm ▸ ho)
        · exact ho
    · simp only [View.register, Pending.handles_insert] at hk
      split at hk
      · rename_i hnext
        cases hk
        exact ⟨n, hnext ▸ hs.issued_written hx now⟩
      · obtain ⟨m, hm⟩ := h.handle_of_loses (Pending.loses_remove v.pending id) hk
        exact ⟨m, hm.mono _⟩
  · refine ⟨fun m j hj => ?_, fun j e hj => ?_, fun k x hk => ?_⟩
    · have hj : j ∈ v.outstanding m := by
        simp only [View.handOn, Function.update_apply] at hj
        split at hj
        · rename_i hm
          exact hm ▸ (List.mem_filter.mp hj).1
        · exact hj
      obtain ⟨k, hk⟩ := h.outstanding m j hj
      exact ⟨k, hk.mono _⟩
    · simp only [View.handOn, Pending.complete, Pending.entries_settle] at hj
      split at hj
      · cases hj
      · rename_i hne
        obtain ⟨hi, ho⟩ := h.entry j e hj
        refine ⟨hi.mono _, ?_⟩
        simp only [View.handOn, Function.update_apply]
        split
        · rename_i hm
          rw [hm] at ho
          simp [ho, Ne.symm hne]
        · exact ho
    · simp only [View.handOn, Pending.complete, Pending.handles_settle] at hk
      split at hk
      · obtain ⟨y, hy, rfl⟩ := Option.map_eq_some_iff.mp hk
        obtain ⟨m, hm⟩ := h.handle k y hy
        exact ⟨m, hm.mono _⟩
      · obtain ⟨m, hm⟩ := h.handle k x hk
        exact ⟨m, hm.mono _⟩

/-! ## What readers and handles hold -/

/-- A reader holds what it held before or has just taken. -/
theorem Effect.holding {s : PoolStep} {a : PoolAnswer} (he : Effect v s a w) {n : Nat} {id : UInt32} {r : Response}
    (h : w.reader n = some (.holding id r)) :
    v.reader n = some (.holding id r) ∨ ∃ i now, s = .receive n i now ∧ Conveys i id r := by
  cases he with
  | took _ hc =>
    simp only [Function.update_apply] at h
    split at h
    · rename_i hn
      cases h
      exact .inr ⟨_, _, by rw [hn], hc⟩
    · exact .inl h
  | dialed | handed | discarded | finished =>
    simp only [View.handOn, Function.update_apply] at h
    split at h
    · cases h
    · exact .inl h
  | _ => exact .inl h

/-- What is lost is no response. -/
theorem Pending.Loses.response {t t' : Pending Nat} (hl : Pending.Loses t t') {h : Nat} {id : UInt32} {r : Response}
    (hh : t'.handles.get? h = some ⟨id, .response r⟩) : t.handles.get? h = some ⟨id, .response r⟩ := by
  rcases hl.handles h _ hh with hh | ⟨y, -, hy⟩
  · exact hh
  · exact nomatch congrArg Handle.delivery hy

theorem Carried.step {s : PoolStep} {a : PoolAnswer} (h : Carried run v) (hs : Sends run v) (hr : Registered run v)
    (he : Effect v s a w) : Carried (run ++ [(s, a)]) w := by
  constructor
  · intro n id r hn
    rcases he.holding hn with hn | ⟨i, now, rfl, hc⟩
    · exact (h.holding n id r hn).mono _
    · exact ⟨i, now, a, by simp, hc⟩
  · intro k n id r hi hk
    rcases he.plain_or with hp | ⟨j, m, i, now, rfl, rfl, hx, rfl⟩ | ⟨m, j, r', rfl, hm, hw, ho, rfl⟩
    · exact (h.response k n id r (hs.issued_snoc_plain he hp.unwritten hi) (hp.loses.response hk)).mono _
    · simp only [View.register, Pending.handles_insert] at hk
      split at hk
      · cases hk
      · rename_i hne
        rcases hs.issued_snoc he hi with hi | ⟨_, _, -, -, rfl⟩
        · exact (h.response k n id r hi ((Pending.loses_remove v.pending i).response hk)).mono _
        · exact absurd rfl hne
    · replace hi := hs.issued_snoc_plain he (by simp) hi
      simp only [View.handOn, Pending.complete, Pending.handles_settle] at hk
      split at hk
      · -- the response goes to the handle of the entry, whose request was written to this connection
        rename_i hj
        obtain ⟨e, he', rfl⟩ := Option.map_eq_some_iff.mp hj
        obtain ⟨y, -, hy⟩ := Option.map_eq_some_iff.mp hk
        cases hy
        obtain ⟨rfl, rfl⟩ := hs.issued_same hi (hr.entry j e he').1
        obtain ⟨k', hk'⟩ := hr.outstanding m _ ho
        obtain ⟨-, rfl⟩ := hs.issued_unique hi hk'
        exact (h.holding _ _ _ hm).mono _
      · exact (h.response k n id r hi hk).mono _

/-! ## Handles that have been read -/

theorem outcomesOf_snoc (h : Nat) (run : Run) (e : PoolStep × PoolAnswer) :
    outcomesOf h (run ++ [e]) = outcomesOf h run ++ (outcomeOf h e).toList := by
  simp only [outcomesOf, List.filterMap_append]
  cases he : outcomeOf h e <;> simp [he]

theorem outcomeOf_eq_some {h : Nat} {s : PoolStep} {a : PoolAnswer} {o : Outcome}
    (ho : outcomeOf h (s, a) = some o) : s.reads? = some h ∧ a = .outcome o := by
  unfold outcomeOf at ho
  split at ho
  · rename_i heq
    cases heq
    split at ho
    · rename_i hs
      cases ho
      exact ⟨hs, rfl⟩
    · cases ho
  · cases ho

/-- A handle that has given an outcome held it, or its time was up; it is gone. -/
theorem Effect.reads {s : PoolStep} {a : PoolAnswer} (he : Effect v s a w) {h : Nat} {o : Outcome}
    (ho : outcomeOf h (s, a) = some o) :
    (∃ x, v.pending.handles.get? h = some x) ∧ w.pending.handles.get? h = none ∧
      (v.pending.outcome? h = some o ∨ v.pending.outcome? h = none ∧ ∃ after, o = .error (.timeout after)) := by
  obtain ⟨hs, rfl⟩ := outcomeOf_eq_some ho
  cases he with
  | read hs' ho' =>
    cases hs.symm.trans hs'
    obtain ⟨x, hx, -⟩ := Pending.handle_of_outcome ho'
    exact ⟨⟨x, hx⟩, Pending.handles_drop_self _ _, .inl ho'⟩
  | expired hx ho' =>
    cases hs
    exact ⟨⟨_, hx⟩, Pending.handles_drop_self _ _, .inr ⟨ho', _, rfl⟩⟩
  | quiet hq => exact absurd hq (by simp [(s.not_quiet_of_reads? hs).1])
  | failed hf => exact absurd hf (by simp [(s.not_quiet_of_reads? hs).2])

/-- A handle that is gone does not come back. -/
theorem Effect.gone {s : PoolStep} {a : PoolAnswer} (he : Effect v s a w) {h : Nat}
    (hh : v.pending.handles.get? h = none) (hlt : h < v.pending.nextHandle) :
    w.pending.handles.get? h = none ∧ h < w.pending.nextHandle := by
  rcases he.plain_or with hp | ⟨k, n, id, now, -, -, -, rfl⟩ | ⟨n, id, r, -, -, -, -, rfl⟩
  · exact ⟨hp.loses.handle_none hh, hp.loses.nextHandle ▸ hlt⟩
  · simp only [View.register, Pending.handles_insert, Pending.nextHandle_insert]
    rw [if_neg (Nat.ne_of_gt hlt)]
    exact ⟨(Pending.loses_remove v.pending id).handle_none hh, Nat.lt_succ_of_lt hlt⟩
  · simp only [View.handOn, Pending.complete, Pending.handles_settle, Pending.nextHandle_settle, hh,
      Option.map_none, ite_self]
    exact ⟨trivial, hlt⟩

/-- A response that a handle holds came in for its request. -/
theorem Carried.took (h : Carried run v) (hr : Registered run v) {k : Nat} {r : Response}
    (ho : v.pending.outcome? k = some (.ok r)) : ∃ n id, Issued run k n id ∧ Took run n id r := by
  obtain ⟨id, hk⟩ := Pending.outcome_eq_ok_iff.mp ho
  obtain ⟨n, hn⟩ := hr.handle k _ hk
  exact ⟨n, id, hn, h.response k n id r hn hk⟩

theorem Given.step {s : PoolStep} {a : PoolAnswer} (hg : Given run v) (hp : v.pending.Sound)
    (hc : Carried run v) (hr : Registered run v) (he : Effect v s a w) : Given (run ++ [(s, a)]) w := by
  have hempty : ∀ h o, outcomeOf h (s, a) = some o → outcomesOf h run = [] := by
    intro h o ho
    obtain ⟨⟨x, hx⟩, -⟩ := he.reads ho
    by_contra hne
    rw [(hg.gone h hne).1] at hx
    cases hx
  refine ⟨fun h hne => ?_, fun h => ?_, fun h r hm => ?_⟩
  · cases ho : outcomeOf h (s, a) with
    | none =>
      rw [outcomesOf_snoc, ho, Option.toList_none, List.append_nil] at hne
      exact he.gone (hg.gone h hne).1 (hg.gone h hne).2
    | some o =>
      obtain ⟨⟨x, hx⟩, hnone, -⟩ := he.reads ho
      refine ⟨hnone, ?_⟩
      have hlt := hp.fresh h x hx
      rcases he.plain_or with hl | ⟨_, _, _, _, rfl, -⟩ | ⟨_, _, _, rfl, -⟩
      · exact hl.loses.nextHandle ▸ hlt
      · cases (outcomeOf_eq_some ho).1
      · cases (outcomeOf_eq_some ho).1
  · rw [outcomesOf_snoc]
    cases ho : outcomeOf h (s, a) with
    | none => simpa using hg.once h
    | some o => simp [hempty h o ho]
  · rw [outcomesOf_snoc] at hm
    have mono : (∃ n id, Issued run h n id ∧ Took run n id r) →
        ∃ n id, Issued (run ++ [(s, a)]) h n id ∧ Took (run ++ [(s, a)]) n id r := by
      rintro ⟨n, id, hi, ht⟩
      exact ⟨n, id, hi.mono _, ht.mono _⟩
    rcases List.mem_append.mp hm with hm | hm
    · exact mono (hg.response h r hm)
    · obtain ⟨-, -, ho | ⟨-, after, ho⟩⟩ := he.reads (Option.mem_toList.mp hm)
      · exact mono (hc.took hr ho)
      · cases ho

/-! ## Handles at which somebody waits -/

/-- A reader that has ended does not start again. -/
theorem Effect.finished_stays {s : PoolStep} {a : PoolAnswer} (he : Effect v s a w) {n : Nat}
    (h : v.reader n = some .finished) : w.reader n = some .finished := by
  cases he with
  | @dialed m _ hr | @took m _ _ _ _ hr | @handed m _ _ hr | @discarded m _ _ hr | @finished m hr =>
    have hm : n ≠ m := by
      rintro rfl
      rw [h] at hr
      cases hr
    simp only [View.handOn, Function.update_of_ne hm]
    exact h
  | _ => exact h

/-- A handle with the id of another handle's request is that handle. -/
theorem Registered.requestId_ne (hr : Registered run v) (hs : Sends run v) {h k n : Nat} {id : UInt32}
    (hi : Issued run h n id) (hne : k ≠ h) {x : Handle} (hx : v.pending.handles.get? k = some x) :
    x.requestId ≠ id := by
  rintro rfl
  obtain ⟨m, hm⟩ := hr.handle k x hx
  exact hne (hs.issued_unique hm hi).1

theorem Awaited.step {s : PoolStep} {a : PoolAnswer} (ha : Awaited run v) (hs : Sends run v)
    (hr : Registered run v) (hp : v.pending.Sound) (he : Effect v s a w) : Awaited (run ++ [(s, a)]) w := by
  intro h n id hi ho hf
  have hf' : v.reader n ≠ some .finished := fun h => hf (he.finished_stays h)
  have old : Issued run h n id → id ∈ v.outstanding n →
      (v.pending.handles.get? h = some ⟨id, .awaited⟩ →
        w.pending.handles.get? h = some ⟨id, .awaited⟩ ∨ GaveUp (run ++ [(s, a)]) h) →
      w.pending.handles.get? h = some ⟨id, .awaited⟩ ∨ GaveUp (run ++ [(s, a)]) h := by
    intro hi ho hk
    rcases ha h n id hi ho hf' with hh | hg
    · exact hk hh
    · exact .inr (hg.mono _)
  cases he with
  | @written j m i now hx =>
    rcases hs.issued_snoc (.written hx) hi with hi | ⟨k, now', hev, hk, rfl⟩
    · have hne : i ≠ id := by
        rintro rfl
        exact hs.not_issued hx hi
      refine old hi ?_ fun hh => .inl (hp.awaited_insert hne m hh)
      simp only [View.register, Function.update_apply] at ho
      split at ho
      · rename_i hm
        exact hm ▸ (List.mem_insert_iff.mp ho).resolve_left (Ne.symm hne)
      · exact ho
    · cases hev
      rw [hx] at hk
      cases hk
      left
      simp only [View.register, Pending.handles_insert, if_true]
  | @handed m j r hm hw hj =>
    replace hi := hs.issued_snoc_plain (.handed hm hw hj) (by simp) hi
    have hne : id ∈ v.outstanding n ∧ j ≠ id := by
      simp only [View.handOn, Function.update_apply] at ho
      split at ho
      · rename_i hn
        exact ⟨hn ▸ (List.mem_filter.mp ho).1, fun he => by simp [he] at ho⟩
      · rename_i hn
        refine ⟨ho, ?_⟩
        rintro rfl
        obtain ⟨k, hk⟩ := hr.outstanding m j hj
        exact hn (hs.issued_unique hi hk).2
    exact old hi hne.1 fun hh => .inl (hp.awaited_settle hne.2 (.response r) hh)
  | @finished m hm =>
    replace hi := hs.issued_snoc_plain (.finished hm) (by simp) hi
    refine old hi ho fun hh => .inl (hp.awaited_removeAll (fun hid => ?_) hh)
    obtain ⟨o, ho'⟩ := hp.entry h id hh
    obtain ⟨e, he, hown⟩ := hp.mem_ownedBy.mp hid
    cases ho'.symm.trans he
    obtain ⟨rfl, -⟩ := hs.issued_same hi (hr.entry id _ ho').1
    obtain rfl : n = m := eq_of_beq hown
    exact hf (Function.update_self ..)
  | @read t k o ht hk =>
    replace hi := hs.issued_snoc_plain (.read ht hk) (fun j now hj => by subst hj; cases ht) hi
    refine old hi ho fun hh => ?_
    have hne : k ≠ h := by
      rintro rfl
      simp [Pending.outcome?, hh, Pending.Delivery.outcome?] at hk
    exact .inl (hp.awaited_drop (fun x hx => hr.requestId_ne hs hi hne hx) hh)
  | @expired k after x hx hk =>
    replace hi := hs.issued_snoc_plain (.expired hx hk) (by simp) hi
    by_cases hne : k = h
    · subst hne
      exact .inr (.now hi (.expired after))
    · refine old hi ho fun hh => .inl ?_
      have hid := hr.requestId_ne hs hi hne hx
      have hs' : (v.pending.remove x.requestId).1.Sound := hp.settle x.requestId (by simp)
      refine hs'.awaited_drop (fun y hy => ?_) (hp.awaited_settle hid .lost hh)
      obtain ⟨m, hm⟩ := hr.handle_of_loses (Pending.loses_remove _ _) hy
      rintro rfl
      exact hne (hs.issued_unique hm hi).1
  | @dropped k =>
    replace hi := hs.issued_snoc_plain .dropped (by simp) hi
    by_cases hne : k = h
    · subst hne
      exact .inr (.now hi (.dropped _))
    · exact old hi ho fun hh => .inl (hp.awaited_drop (fun x hx => hr.requestId_ne hs hi hne hx) hh)
  | cleared => exact .inr (.now (hs.issued_snoc_plain .cleared (by simp) hi) (.cleared _))
  | quiet hq =>
    exact old (hs.issued_snoc_plain (.quiet hq) (fun j now hj => by subst hj; cases hq) hi) ho .inl
  | failed hq hx =>
    exact old (hs.issued_snoc_plain (.failed hq hx) (fun j now hj => by subst hj; cases hq) hi) ho .inl
  | dialed hq => exact old (hs.issued_snoc_plain (.dialed hq) (by simp) hi) ho .inl
  | started => exact old (hs.issued_snoc_plain .started (by simp) hi) ho .inl
  | took hq hc => exact old (hs.issued_snoc_plain (.took hq hc) (by simp) hi) ho .inl
  | discarded hq hw hj => exact old (hs.issued_snoc_plain (.discarded hq hw hj) (by simp) hi) ho .inl

/-! ## Every run -/

/-- What a run on which no id is used twice and its view have in common. -/
structure Delivers (run : Run) (v : View) : Prop where
  sends : Sends run v
  writes : Writes v
  sound : v.pending.Sound
  registered : Registered run v
  carried : Carried run v
  given : Given run v
  awaited : Awaited run v

theorem delivers_start : Delivers [] Pool.empty.view where
  sends := sends_start
  writes := writes_start
  sound := Pending.sound_empty
  registered := ⟨fun _ _ h => (nomatch h), fun _ _ h => (nomatch h), fun _ _ h => nomatch h⟩
  carried := ⟨fun _ _ _ h => (nomatch h), fun _ _ _ _ _ h => nomatch h⟩
  given := ⟨fun _ h => absurd rfl h, fun _ => Nat.zero_le _, fun _ _ h => nomatch h⟩
  awaited := fun _ _ _ ⟨_, h, _⟩ => nomatch h

theorem Delivers.step {s : PoolStep} {a : PoolAnswer} (h : Delivers run v) (he : Effect v s a w)
    (hd : (sentIds (run ++ [(s, a)])).Nodup) : Delivers (run ++ [(s, a)]) w where
  sends := h.sends.step he hd
  writes := h.writes.step h.sends he
  sound := he.sound h.sound
  registered := h.registered.step h.sends he
  carried := h.carried.step h.sends h.registered he
  given := h.given.step h.sound h.carried h.registered he
  awaited := h.awaited.step h.sends h.registered h.sound he

theorem nodup_sentIds_append {run run' : Run} (hd : (sentIds (run ++ run')).Nodup) : (sentIds run).Nodup := by
  rw [sentIds, List.filterMap_append] at hd
  exact (List.nodup_append.mp hd).1

/-- **On every run on which no id is used twice, what is delivered is what was carried, to whom it was for.** -/
theorem delivers_of_leads (hl : Leads Pool.empty.view run v) (hd : (sentIds run).Nodup) : Delivers run v := by
  induction hl with
  | refl => exact delivers_start
  | snoc _ he ih => exact (ih (nodup_sentIds_append hd)).step he hd

end Rpc
