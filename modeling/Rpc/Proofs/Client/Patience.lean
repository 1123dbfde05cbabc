import Rpc.Proofs.Client.Correlation

/-!
# Runs on which nobody gives up

On a run on which no send fails, no reader ends and nobody gives up a request (`PoolStep.isPatient`), and no id is used
twice:

- `Leads.written`: a send that has begun is on its way or has been written;
- `Leads.answered`: whoever has a handle waits for an outstanding request, or has been given one response.
-/

namespace Rpc

/-- Steps with which no send fails, no reader ends and nobody gives up a request. -/
def PoolStep.isPatient : PoolStep → Bool
  | .endSend _ .written _ => true
  | .endSend .. | .abandonSend _ | .endReading _ | .close _ | .shutdown | .clear | .expire .. | .drop _ => false
  | _ => true

variable {run : Run} {v w : View} {s : PoolStep} {a : PoolAnswer}

theorem PoolStep.not_fails_of_isPatient {t : PoolStep} (h : t.isPatient = true) (k : Nat) : t.fails k = false := by
  cases t with
  | endSend j result now => cases result <;> first | rfl | cases h
  | _ => first | rfl | cases h

/-! ## One step -/

/-- A send stays on its way until it is written. -/
theorem Effect.sends_stay (he : Effect v s a w) (hs : s.isPatient = true) {k : Nat} {x : Nat × UInt32}
    (hk : v.sends k = some x) :
    w.sends k = some x ∨ (∃ now, s = .endSend k .written now) ∨ k = v.nextSend ∧ ∃ n id, s = .startSend n id := by
  cases he with
  | @started n id =>
    by_cases hkn : k = v.nextSend
    · exact .inr (.inr ⟨hkn, n, id, rfl⟩)
    · exact .inl ((Function.update_of_ne hkn _ _).trans hk)
  | @written j n id now hx =>
    by_cases hkj : k = j
    · exact .inr (.inl ⟨now, by rw [hkj]⟩)
    · left
      simp only [View.register, Function.update_of_ne hkj]
      exact hk
  | @failed j _ _ _ _ hf => exact absurd hf (by simp [s.not_fails_of_isPatient hs])
  | _ => exact .inl hk

/-- Readers go on. -/
theorem Effect.unfinished (he : Effect v s a w) (hs : s.isPatient = true) {n : Nat}
    (h : v.reader n ≠ some .finished) : w.reader n ≠ some .finished := by
  cases he with
  | @dialed m | @took m | @handed m | @discarded m =>
    by_cases hm : n = m
    · subst hm
      simp [View.handOn]
    · simp only [View.handOn, Function.update_of_ne hm]
      exact h
  | finished => cases hs
  | _ => exact h

theorem not_abandons_of_isPatient {e : PoolStep × PoolAnswer} (h : e.1.isPatient = true) (k : Nat) :
    ¬ Abandons k e := by
  rintro (_ | _ | _) <;> cases h

theorem not_gaveUp_of_patient (h : ∀ e ∈ run, e.1.isPatient = true) (k : Nat) : ¬ GaveUp run k := by
  rintro ⟨past, e, rest, rfl, -, ha⟩
  exact not_abandons_of_isPatient (h e (by simp)) k ha

/-! ## Every run -/

/-- Readers never end. -/
theorem Leads.unfinished (hl : Leads Pool.empty.view run v) (hs : ∀ e ∈ run, e.1.isPatient = true) (n : Nat) :
    v.reader n ≠ some .finished := by
  induction hl with
  | refl => rintro ⟨⟩
  | snoc _ he ih =>
    have hpast := ih fun e hm => hs e (List.mem_append_left _ hm)
    exact he.unfinished (hs _ (List.mem_append_right _ (List.mem_singleton_self _))) hpast

/-- **A send that has begun is on its way or has been written.** -/
theorem Leads.written (hl : Leads Pool.empty.view run v) (hd : (sentIds run).Nodup)
    (hs : ∀ e ∈ run, e.1.isPatient = true) {k n : Nat} {id : UInt32} (hk : Started run k n id) :
    v.sends k = some (n, id) ∨ ∃ h, Written run h k := by
  induction hl with
  | refl => cases hk
  | @snoc v w t b run hl he ih =>
    have hd' := nodup_sentIds_append hd
    have hpatient := hs (t, b) (by simp)
    rcases started_snoc.mp hk with hk | heq
    · rcases ih hd' (fun e hm => hs e (List.mem_append_left _ hm)) hk with hx | ⟨h, hw⟩
      · rcases he.sends_stay hpatient hx with hx | ⟨now, rfl⟩ | ⟨hnext, -⟩
        · exact .inl hx
        · cases he with
          | written => exact .inr ⟨v.pending.nextHandle, now, by simp⟩
          | quiet hq => cases hq
          | failed hf => cases hf
          | read hr => cases hr
        · exact absurd hnext (Nat.ne_of_lt ((delivers_of_leads hl hd').sends.started k n id hk).1)
      · obtain ⟨now, hw⟩ := hw
        exact .inr ⟨h, now, List.mem_append_left _ hw⟩
    · cases heq
      cases he with
      | started => exact .inl (Function.update_self ..)
      | quiet hq => cases hq
      | failed hf => cases hf

/-- What a handle has given or holds ready it goes on to give or to hold. -/
theorem Effect.resolutions_stay (he : Effect v s a w) (hp : v.pending.Sound) (hs : s.isPatient = true) {h : Nat}
    {o : Outcome} (ho : o ∈ resolutions run v.pending h) : o ∈ resolutions (run ++ [(s, a)]) w.pending h := by
  unfold resolutions at ho ⊢
  rw [outcomesOf_snoc]
  rcases List.mem_append.mp ho with ho | ho
  · exact List.mem_append_left _ (List.mem_append_left _ ho)
  · rcases he.decided hp (Option.mem_toList.mp ho) with ho | ho | rfl
    · exact List.mem_append_right _ (Option.mem_toList.mpr ho)
    · exact List.mem_append_left _ (List.mem_append_right _ (Option.mem_toList.mpr ho))
    · cases hs

/-- A request is outstanding until a response is at its handle. -/
theorem Delivers.answered_step (h : Delivers run v) (he : Effect v s a w) (hs : s.isPatient = true)
    (hg : ∀ k, ¬ GaveUp run k) (hf : ∀ n, v.reader n ≠ some .finished)
    (ha : ∀ k n id, Issued run k n id → id ∈ v.outstanding n ∨ ∃ r, .ok r ∈ resolutions run v.pending k)
    {k n : Nat} {id : UInt32} (hk : Issued (run ++ [(s, a)]) k n id) :
    id ∈ w.outstanding n ∨ ∃ r, .ok r ∈ resolutions (run ++ [(s, a)]) w.pending k := by
  have stays : Issued run k n id → id ∉ v.outstanding n →
      ∃ r, .ok r ∈ resolutions (run ++ [(s, a)]) w.pending k := by
    intro hk hout
    obtain ⟨r, hr⟩ := (ha k n id hk).resolve_left hout
    exact ⟨r, he.resolutions_stay h.sound hs hr⟩
  rcases he.plain_or with hp | ⟨j, m, i, now, rfl, rfl, hx, rfl⟩ | ⟨m, i, r, rfl, hr, hw, ho, rfl⟩
  · have hk := h.sends.issued_snoc_plain he hp.unwritten hk
    rw [hp.outstanding]
    by_cases hout : id ∈ v.outstanding n
    · exact .inl hout
    · exact .inr (stays hk hout)
  · -- the new handle is for the request that was written, which is outstanding now
    have hmem : id ∈ (v.register j m i).outstanding n ↔ n = m ∧ id = i ∨ id ∈ v.outstanding n := by
      simp only [View.register, Function.update_apply]
      split
      · rename_i hm
        simp [hm]
      · rename_i hm
        simp [hm]
    rw [hmem]
    rcases h.sends.issued_snoc he hk with hk | ⟨j', now', hev, hx', -⟩
    · by_cases hout : id ∈ v.outstanding n
      · exact .inl (.inr hout)
      · exact .inr (stays hk hout)
    · cases hev
      cases hx.symm.trans hx'
      exact .inl (.inl ⟨rfl, rfl⟩)
  · replace hk := h.sends.issued_snoc_plain he (by simp) hk
    by_cases hout : id ∈ v.outstanding n
    · by_cases hid : i = id
      · -- the response is handed to whoever waits for it
        subst hid
        obtain ⟨k', hk'⟩ := h.registered.outstanding m i ho
        obtain ⟨rfl, rfl⟩ := h.sends.issued_unique hk hk'
        have hwait := (h.awaited k n i hk ho (hf n)).resolve_right (hg k)
        obtain ⟨o, hentry⟩ := h.sound.entry k i hwait
        refine .inr ⟨r, List.mem_append_right _ (Option.mem_toList.mpr ?_)⟩
        refine Pending.outcome_eq_ok_iff.mpr ⟨i, ?_⟩
        simp [View.handOn, Pending.complete, Pending.handles_settle, hentry, hwait, Handle.told]
      · left
        simp only [View.handOn, Function.update_apply]
        split
        · rename_i hm
          simpa [hm, Ne.symm hid] using hout
        · exact hout
    · exact .inr (stays hk hout)

theorem Leads.answered_or (hl : Leads Pool.empty.view run v) (hd : (sentIds run).Nodup)
    (hs : ∀ e ∈ run, e.1.isPatient = true) : ∀ k n id, Issued run k n id →
      id ∈ v.outstanding n ∨ ∃ r, .ok r ∈ resolutions run v.pending k := by
  induction hl with
  | refl => exact fun _ _ _ ⟨_, h, _⟩ => nomatch h
  | @snoc v w t b run hl he ih =>
    have hd' := nodup_sentIds_append hd
    have hs' : ∀ e ∈ run, e.1.isPatient = true := fun e hm => hs e (List.mem_append_left _ hm)
    have hstep := hs (t, b) (List.mem_append_right _ (List.mem_singleton_self _))
    intro k n id hk
    exact (delivers_of_leads hl hd').answered_step he hstep (not_gaveUp_of_patient hs') (hl.unfinished hs') (ih hd' hs')
      hk

/-- **Whoever has a handle waits for an outstanding request, or has been given one response.** -/
theorem Leads.answered (hl : Leads Pool.empty.view run v) (hd : (sentIds run).Nodup)
    (hs : ∀ e ∈ run, e.1.isPatient = true) {k n : Nat} {id : UInt32} (hk : Issued run k n id) :
    id ∈ v.outstanding n ∧ resolutions run v.pending k = [] ∨ ∃ r, resolutions run v.pending k = [.ok r] := by
  have h := delivers_of_leads hl hd
  by_cases hr : ∃ r, .ok r ∈ resolutions run v.pending k
  · obtain ⟨r, hr⟩ := hr
    obtain ⟨o, ho⟩ := List.length_eq_one_iff.mp
      (Nat.le_antisymm (h.resolutions_length k) (List.length_pos_of_mem hr))
    rw [ho] at hr ⊢
    exact .inr ⟨r, by rw [List.mem_singleton.mp hr]⟩
  · have hout := (hl.answered_or hd hs k n id hk).resolve_right hr
    have hwait := (h.awaited k n id hk hout (hl.unfinished hs n)).resolve_right (not_gaveUp_of_patient hs k)
    have hread : outcomesOf k run = [] := by
      by_contra hne
      rw [(h.given.gone k hne).1] at hwait
      cases hwait
    refine .inl ⟨hout, ?_⟩
    simp [resolutions, hread, Pending.outcome?, hwait, Pending.Delivery.outcome?]

end Rpc
