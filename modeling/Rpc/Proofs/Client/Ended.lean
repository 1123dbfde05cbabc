import Rpc.Proofs.Client.Correlation

/-!
# Requests on connections that have ended

The reader of a connection fails the requests that the connection carries when it ends, once. A request that is being
written then is not among them: if its write still succeeds, it waits on a connection from which no response comes.

- `Leads.late`: an entry that is new since some time was written since;
- `Unanswered.step`: nobody answers a request on a connection whose reader has ended;
- `Pool.late_writes_wait`: what waits after a reader has ended, or after all requests were given up.
-/

namespace Rpc

variable {run past rest : Run} {v w : View} {n h : Nat} {id : UInt32}

/-! ## Late writes -/

/-- A request was written to a connection in the last part of a run, and its caller has a handle. -/
def WrittenLate (run rest : Run) (n : Nat) (id : UInt32) (h : Nat) : Prop :=
  ∃ s, Started run s n id ∧ Written rest h s

theorem WrittenLate.mono (hw : WrittenLate run rest n id h) (l : Run) : WrittenLate (run ++ l) (rest ++ l) n id h := by
  obtain ⟨s, hs, now, hm⟩ := hw
  exact ⟨s, hs.mono l, now, List.mem_append_left l hm⟩

/-- A send on its way was started. -/
theorem Leads.going (hl : Leads Pool.empty.view run v) {s : Nat} (hx : v.sends s = some (n, id)) :
    Started run s n id := by
  induction hl with
  | refl => cases hx
  | snoc _ he ih =>
    rcases he.sends_some hx with hx | ⟨rfl, rfl, rfl⟩
    · exact (ih hx).mono _
    · exact started_snoc.mpr (.inr rfl)

/-- An entry that was not there at some time was written since. -/
theorem Leads.late (hl : Leads Pool.empty.view past v) (hr : Leads v rest w) {e : PendingEntry Nat}
    (he : w.pending.entries.get? id = some e) :
    v.pending.entries.get? id = some e ∨ WrittenLate (past ++ rest) rest e.owner id e.handle := by
  induction hr with
  | refl => exact .inl he
  | @snoc u w s a rest hr heff ih =>
    have hold : u.pending.entries.get? id = some e → v.pending.entries.get? id = some e ∨
        WrittenLate (past ++ (rest ++ [(s, a)])) (rest ++ [(s, a)]) e.owner id e.handle := by
      intro he
      rw [← List.append_assoc]
      exact (ih he).imp_right (·.mono _)
    rcases heff.plain_or with hp | ⟨k, m, j, now, rfl, rfl, hx, rfl⟩ | ⟨m, j, r, rfl, -, -, -, rfl⟩
    · exact hold (hp.loses.entries id e he)
    · simp only [View.register, Pending.entries_insert] at he
      split at he
      next hj =>
        cases he
        refine .inr ⟨k, ?_, now, List.mem_append_right _ (List.mem_singleton_self _)⟩
        rw [← List.append_assoc, ← hj]
        exact ((hl.append hr).going hx).mono _
      next => exact hold he
    · simp only [View.handOn, Pending.complete, Pending.entries_settle] at he
      split at he
      · cases he
      · exact hold he

/-! ## Ends of readers -/

/-- A reader that has ended did so at some step. -/
theorem Leads.ended (hl : Leads Pool.empty.view run v) (hf : v.reader n = some .finished) :
    ∃ past a rest, run = past ++ (.endReading n, a) :: rest := by
  have hmem : ∃ a, (.endReading n, a) ∈ run := by
    induction hl with
    | refl => cases hf
    | @snoc u w s a run hl he ih =>
      by_cases hu : u.reader n = some .finished
      · obtain ⟨b, hb⟩ := ih hu
        exact ⟨b, List.mem_append_left _ hb⟩
      · suffices hs : s = .endReading n from ⟨a, by simp [hs]⟩
        cases he with
        | @finished m hm =>
          by_cases hnm : n = m
          · rw [hnm]
          · simp only [Function.update_of_ne hnm] at hf
            exact absurd hf hu
        | @dialed m _ hm | @took m _ _ _ _ hm | @handed m _ _ hm | @discarded m _ _ hm =>
          by_cases hnm : n = m
          · simp [View.handOn, hnm] at hf
          · simp only [View.handOn, Function.update_of_ne hnm] at hf
            exact absurd hf hu
        | _ => exact absurd hf hu
  obtain ⟨a, ha⟩ := hmem
  obtain ⟨past, rest, hsplit⟩ := List.append_of_mem ha
  exact ⟨past, a, rest, hsplit⟩

/-- Right after a reader has ended, nothing waits on its connection. -/
theorem Effect.ended {a : PoolAnswer} (he : Effect v (.endReading n) a w) (hp : v.pending.Sound) {e : PendingEntry Nat}
    (hw : w.pending.entries.get? id = some e) : e.owner ≠ n := by
  cases he with
  | quiet hq => cases hq
  | failed hf => cases hf
  | read hs => cases hs
  | finished =>
    simp only [Pending.removeOwnedBy, Pending.entries_removeAll] at hw
    split at hw
    · cases hw
    next hid =>
      rintro rfl
      exact hid (hp.mem_ownedBy.mpr ⟨e, hw, by simp⟩)

/-- Right after all requests were given up, nothing waits. -/
theorem Effect.cleared_none {a : PoolAnswer} (he : Effect v .clear a w) : w.pending.entries.get? id = none := by
  cases he with
  | quiet hq => cases hq
  | failed hf => cases hf
  | read hs => cases hs
  | cleared =>
    simp only [Pending.clear, Pending.entries_removeAll]
    split
    · rfl
    next hid =>
      refine Option.eq_none_iff_forall_ne_some.mpr fun e he => hid ?_
      exact List.mem_map.mpr ⟨(id, e), Table.mem_of_find he, rfl⟩

theorem Leads.sound (hl : Leads Pool.empty.view run v) : v.pending.Sound := by
  induction hl with
  | refl => exact Pending.sound_empty
  | snoc _ he ih => exact he.sound ih

/-! ## Nobody answers -/

/-- A request waits on a connection whose reader has ended. -/
structure Unanswered (v : View) (n : Nat) (id : UInt32) (h : Nat) : Prop where
  ended : v.reader n = some .finished
  entry : v.pending.entries.get? id = some ⟨h, n⟩

/-- A request on a connection whose reader has ended goes on waiting until its caller gives it up. -/
theorem Unanswered.step {s : PoolStep} {a : PoolAnswer} (hu : Unanswered v n id h) (hd : Delivers run v)
    (he : Effect v s a w) (hnot : ¬ Abandons h (s, a)) : Unanswered w n id h := by
  refine ⟨he.finished_stays hu.ended, ?_⟩
  have hentry := hu.entry
  have hissued : Issued run h n id := (hd.registered.entry id _ hentry).1
  have hwaits := hd.sound.waits id _ hentry
  -- Only the handle of the request has its id.
  have hdrop {k : Nat} (hk : k ≠ h) : (v.pending.drop k).entries.get? id = some ⟨h, n⟩ := by
    cases hx : v.pending.handles.get? k with
    | none => rw [Pending.drop_of_none hx]; exact hentry
    | some x =>
      rw [Pending.entries_drop hx, if_neg (hd.registered.requestId_ne hd.sends hissued hk hx)]
      exact hentry
  cases he with
  | @written k m j now hx =>
    simp only [View.register, Pending.entries_insert]
    rw [if_neg]
    · exact hentry
    · rintro rfl
      exact hd.sends.not_issued hx hissued
  | @handed m j r hr _ ho =>
    simp only [View.handOn, Pending.complete, Pending.entries_settle]
    rw [if_neg]
    · exact hentry
    · rintro rfl
      obtain ⟨k, hk⟩ := hd.registered.outstanding m j ho
      obtain rfl := (hd.sends.issued_unique hissued hk).2
      rw [hu.ended] at hr
      cases hr
  | @finished m hr =>
    simp only [Pending.removeOwnedBy, Pending.entries_removeAll]
    rw [if_neg]
    · exact hentry
    · intro hid
      obtain ⟨e, he, hown⟩ := hd.sound.mem_ownedBy.mp hid
      cases hentry.symm.trans he
      obtain rfl : n = m := eq_of_beq hown
      rw [hu.ended] at hr
      cases hr
  | @read _ k o hs ho =>
    refine hdrop ?_
    rintro rfl
    simp [Pending.outcome?, hwaits, Pending.Delivery.outcome?] at ho
  | @expired k after x hx ho =>
    have hk : k ≠ h := by
      rintro rfl
      exact hnot (.expired after)
    have hid := hd.registered.requestId_ne hd.sends hissued hk hx
    have hrem : (v.pending.remove x.requestId).1.entries.get? id = some ⟨h, n⟩ := by
      rw [Pending.remove, Pending.entries_settle, if_neg hid]
      exact hentry
    obtain ⟨y, hy, hyid⟩ : ∃ y, (v.pending.remove x.requestId).1.handles.get? k = some y ∧
        y.requestId = x.requestId := by
      rw [Pending.remove, Pending.handles_settle]
      split
      · exact ⟨x.told .lost, by rw [hx]; rfl, rfl⟩
      · exact ⟨x, hx, rfl⟩
    rw [Pending.entries_drop hy, if_neg (hyid ▸ hid)]
    exact hrem
  | @dropped k =>
    refine hdrop ?_
    rintro rfl
    exact hnot (.dropped _)
  | cleared => exact absurd (.cleared _) hnot
  | quiet | dialed | started | failed | took | discarded => exact hentry

theorem Unanswered.leads (hu : Unanswered v n id h) (hl : Leads Pool.empty.view past v) (hr : Leads v rest w)
    (hd : (sentIds (past ++ rest)).Nodup) (hnot : ∀ e ∈ rest, ¬ Abandons h e) : Unanswered w n id h := by
  induction hr with
  | refl => exact hu
  | @snoc u w s a rest hr he ih =>
    rw [← List.append_assoc] at hd
    have hd' := nodup_sentIds_append hd
    have hu' := ih hd' fun e hm => hnot e (List.mem_append_left _ hm)
    exact hu'.step (delivers_of_leads (hl.append hr) hd') he
      (hnot (s, a) (List.mem_append_right _ (List.mem_singleton_self _)))

namespace Pool

variable {p q : Pool}

/-- **What waits on a connection that has ended** was written after its reader had ended; what waits after all requests
were given up was written after that. If no id is used twice, nobody answers what waits on a connection whose reader
has ended: it waits until its caller gives it up. -/
theorem late_writes_wait (hr : Reaches empty run p) :
    (∀ n, p.view.reader n = some .finished → ∃ past a rest, run = past ++ (.endReading n, a) :: rest) ∧
    (∀ n past a rest id e, run = past ++ (.endReading n, a) :: rest → p.pending.entries.get? id = some e →
      e.owner = n → WrittenLate run rest n id e.handle) ∧
    (∀ past a rest id e, run = past ++ (.clear, a) :: rest → p.pending.entries.get? id = some e →
      WrittenLate run rest e.owner id e.handle) ∧
    ∀ n id h rest q, p.view.reader n = some .finished → p.pending.entries.get? id = some ⟨h, n⟩ →
      Reaches p rest q → (sentIds (run ++ rest)).Nodup → (∀ e ∈ rest, ¬ Abandons h e) →
      q.pending.entries.get? id = some ⟨h, n⟩ ∧ outcomesOf h (run ++ rest) = [] := by
  obtain ⟨hl, hn⟩ := leads_of_reaches numbered_empty hr
  -- A run through a step has its effect in between.
  have hthrough {past rest : Run} {s : PoolStep} {a : PoolAnswer} (hsplit : run = past ++ (s, a) :: rest) :
      ∃ v w, Leads empty.view past v ∧ Effect v s a w ∧ Leads w rest p.view := by
    subst hsplit
    obtain ⟨q, hq, hrest⟩ := reaches_append_inv hr
    obtain ⟨hlq, hnq⟩ := leads_of_reaches numbered_empty hq
    obtain _ | ⟨hs, hrest⟩ := hrest
    exact ⟨_, _, hlq, effect_of_step hnq hs, (leads_of_reaches (hnq.step hs) hrest).1⟩
  have hlate {past rest : Run} {s : PoolStep} {a : PoolAnswer} {v w : View} {id : UInt32} {e : PendingEntry Nat}
      (hsplit : run = past ++ (s, a) :: rest) (hlv : Leads empty.view past v) (he : Effect v s a w)
      (hlw : Leads w rest p.view) (hid : p.pending.entries.get? id = some e) :
      w.pending.entries.get? id = some e ∨ WrittenLate run rest e.owner id e.handle := by
    rw [hsplit, List.append_cons]
    exact (hlv.snoc he).late hlw hid
  refine ⟨fun n hf => hl.ended hf, ?_, ?_, ?_⟩
  · rintro n past a rest id e hsplit hid rfl
    obtain ⟨v, w, hlv, he, hlw⟩ := hthrough hsplit
    exact (hlate hsplit hlv he hlw hid).resolve_left fun hw => he.ended hlv.sound hw rfl
  · intro past a rest id e hsplit hid
    obtain ⟨v, w, hlv, he, hlw⟩ := hthrough hsplit
    refine (hlate hsplit hlv he hlw hid).resolve_left fun hw => ?_
    rw [he.cleared_none] at hw
    cases hw
  · intro n id h rest q hf hid hrest hd hnot
    have hlq := (leads_of_reaches hn hrest).1
    have hu : Unanswered q.view n id h := Unanswered.leads ⟨hf, hid⟩ hl hlq hd hnot
    have hdel := delivers_of_leads (hl.append hlq) hd
    refine ⟨hu.entry, ?_⟩
    by_contra hne
    have hnone := (hdel.given.gone h hne).1
    rw [hdel.sound.waits id _ hu.entry] at hnone
    cases hnone

/-- A request that is being written when the pool is shut down, all requests are given up and the reader of its
connection ends. -/
def lateWrite : Run :=
  [(.acquire (.v4 0 80), .acquired (.dialing 0)), (.dialed 0 0, .nothing), (.startSend 0 7, .sending 0),
    (.beginWrite 0, .nothing), (.shutdown, .nothing), (.clear, .nothing), (.endReading 0, .nothing),
    (.endSend 0 .written 1, .sent (.ok 0))]

/-- It waits, for good. -/
theorem late_write_waits : ∃ p, Reaches empty lateWrite p ∧ p.shutDown = true ∧
    p.view.reader 0 = some .finished ∧ p.pending.entries.get? 7 = some ⟨0, 0⟩ :=
  ⟨_, .next rfl (.next rfl (.next rfl (.next rfl (.next rfl (.next rfl (.next rfl (.next rfl (.refl _)))))))),
    rfl, rfl, rfl⟩

theorem late_writes_wait_seven : ∃ p, Reaches empty lateWrite p ∧
    WrittenLate lateWrite [(.endSend 0 .written 1, .sent (.ok 0))] 0 7 0 := by
  have hp : ∃ p, Reaches empty lateWrite p ∧ p.pending.entries.get? 7 = some ⟨0, 0⟩ :=
    ⟨_, .next rfl (.next rfl (.next rfl (.next rfl (.next rfl (.next rfl (.next rfl (.next rfl (.refl _)))))))), rfl⟩
  obtain ⟨p, hp, hid⟩ := hp
  exact ⟨p, hp, (late_writes_wait hp).2.1 0 (lateWrite.take 6) .nothing _ 7 ⟨0, 0⟩ rfl hid rfl⟩

end Pool

end Rpc
