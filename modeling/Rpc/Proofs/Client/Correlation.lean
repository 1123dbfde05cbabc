import Rpc.Proofs.Client.Delivery

/-!
# Responses reach their requests

On every run of a pool on which no id is used twice, whatever the peers send:

- `Pool.resolutions`: what a handle has given or holds ready is one thing at most, and does not change;
- `Held`, `Passed`: a response to a request that is being written or outstanding waits at the reader
  (`Held.step`) until it is handed to the handle of the request (`Held.handOver`), where it stays (`Passed.step`);
- `Pool.responses_reach_their_requests`: the main statement.
-/

namespace Rpc

variable {run : Run} {v w : View}

/-! ## What is decided stays -/

/-- What a handle holds it holds until it is read or dropped. -/
theorem Effect.decided {s : PoolStep} {a : PoolAnswer} (he : Effect v s a w) (hp : v.pending.Sound) {h : Nat}
    {o : Outcome} (ho : v.pending.outcome? h = some o) :
    w.pending.outcome? h = some o ∨ outcomeOf h (s, a) = some o ∨ s = .drop h := by
  cases he with
  | written => exact .inl (hp.outcome_insert ho _ _)
  | handed => exact .inl (hp.outcome_settle ho _ _)
  | finished | cleared => exact .inl (hp.outcome_removeAll ho _)
  | @read s k o' hs hk =>
    by_cases hkh : k = h
    · subst hkh
      cases hk.symm.trans ho
      exact .inr (.inl (by simp [outcomeOf, hs]))
    · exact .inl (hp.outcome_drop hkh ho)
  | @expired k _ x hx hk =>
    have hkh : k ≠ h := by
      rintro rfl
      rw [hk] at ho
      cases ho
    have hs : (v.pending.remove x.requestId).1.Sound := hp.settle x.requestId nofun
    exact .inl (hs.outcome_drop hkh (hp.outcome_settle ho _ _))
  | @dropped k =>
    by_cases hkh : k = h
    · exact .inr (.inr (by rw [hkh]))
    · exact .inl (hp.outcome_drop hkh ho)
  | quiet | dialed | started | failed | took | discarded => exact .inl ho

/-- What a handle has given on a run, and what it holds ready. -/
def resolutions (run : Run) (t : Pending Nat) (h : Nat) : List Outcome :=
  outcomesOf h run ++ (t.outcome? h).toList

theorem Delivers.resolutions_length (h : Delivers run v) (k : Nat) : (resolutions run v.pending k).length ≤ 1 := by
  unfold resolutions
  by_cases hk : outcomesOf k run = []
  · rw [hk]
    cases v.pending.outcome? k <;> simp
  · simpa [Pending.outcome?, (h.given.gone k hk).1] using h.given.once k

theorem Delivers.resolutions_took (h : Delivers run v) {k : Nat} {r : Response}
    (hk : .ok r ∈ resolutions run v.pending k) :
    (∃ n id, Issued run k n id) ∧ ∀ n id, Issued run k n id → Took run n id r := by
  have hex : ∃ n id, Issued run k n id ∧ Took run n id r := by
    rcases List.mem_append.mp hk with hk | hk
    · exact h.given.response k r hk
    · exact h.carried.took h.registered (Option.mem_toList.mp hk)
  obtain ⟨n, id, hi, ht⟩ := hex
  refine ⟨⟨n, id, hi⟩, fun n' id' hi' => ?_⟩
  obtain ⟨rfl, rfl⟩ := h.sends.issued_same hi hi'
  exact ht

/-- What a handle held it holds or has given, or it was dropped without giving anything. -/
theorem Leads.decided {rest : Run} (hl : Leads Pool.empty.view run v) (hr : Leads v rest w)
    (hd : (sentIds (run ++ rest)).Nodup) {h : Nat} {o : Outcome} (ho : v.pending.outcome? h = some o) :
    o ∈ resolutions (run ++ rest) w.pending h ∨
      w.pending.handles.get? h = none ∧ h < w.pending.nextHandle ∧ outcomesOf h (run ++ rest) = [] := by
  induction hr with
  | refl => exact .inl (List.mem_append_right _ (Option.mem_toList.mpr ho))
  | @snoc w x s a rest hr he ih =>
    rw [← List.append_assoc] at hd ⊢
    have hd' := nodup_sentIds_append hd
    have h' := delivers_of_leads (hl.append hr) hd'
    unfold resolutions at ih ⊢
    rw [outcomesOf_snoc]
    rcases ih hd' with hm | ⟨hnone, hlt, hempty⟩
    · rcases List.mem_append.mp hm with hm | hm
      · exact .inl (List.mem_append_left _ (List.mem_append_left _ hm))
      · rw [Option.mem_toList] at hm
        rcases he.decided h'.sound hm with ho | ho | rfl
        · exact .inl (List.mem_append_right _ (Option.mem_toList.mpr ho))
        · exact .inl (List.mem_append_left _ (List.mem_append_right _ (Option.mem_toList.mpr ho)))
        · right
          obtain ⟨y, hy, -⟩ := Pending.handle_of_outcome hm
          have hlt := h'.sound.fresh h y hy
          have hempty : outcomesOf h (run ++ rest) = [] := by
            by_contra hne
            rw [(h'.given.gone h hne).1] at hy
            cases hy
          cases he with
          | dropped =>
            refine ⟨Pending.handles_drop_self _ _, ?_, by simpa [outcomeOf] using hempty⟩
            exact (Pending.nextHandle_drop w.pending h).symm ▸ hlt
          | quiet hq => cases hq
          | failed hf => cases hf
          | read hs => cases hs
    · right
      obtain ⟨hnone', hlt'⟩ := he.gone hnone hlt
      refine ⟨hnone', hlt', ?_⟩
      cases ho' : outcomeOf h (s, a) with
      | none => simpa using hempty
      | some o' =>
        obtain ⟨⟨x, hx⟩, -⟩ := he.reads ho'
        rw [hnone] at hx
        cases hx

/-! ## A response at its reader -/

/-- A reader holds a response to an id that was sent, and whoever has a handle for it finds it outstanding. -/
structure Held (run : Run) (v : View) (n : Nat) (id : UInt32) (r : Response) : Prop where
  holds : v.reader n = some (.holding id r)
  sent : ∃ s, Started run s n id
  outstanding : ∀ h, Issued run h n id → id ∈ v.outstanding n

theorem Held.take {n : Nat} {id : UInt32} {r : Response} {i : Inbound} {now : Instant} {a : PoolAnswer}
    (h : Delivers run v) (he : Effect v (.receive n i now) a w) (hc : Conveys i id r)
    (hid : id ∈ v.writing n ∨ id ∈ v.outstanding n) : Held (run ++ [(.receive n i now, a)]) w n id r := by
  have hi := conveys_iff.mp hc
  cases he with
  | quiet hq => simp [PoolStep.isQuiet, hi] at hq
  | failed hf => cases hf
  | read hs => cases hs
  | took hr hc' =>
    cases hi.symm.trans (conveys_iff.mp hc')
    have old : ∀ {k}, Issued (run ++ [(.receive n i now, .nothing)]) k n id → Issued run k n id :=
      fun hk => h.sends.issued_snoc_plain (.took hr hc) (by simp) hk
    refine ⟨Function.update_self .., ?_, fun k hk => ?_⟩
    · rcases hid with hid | hid
      · obtain ⟨s, hs⟩ := (h.writes n id).mp hid
        exact ⟨s, (h.sends.going s n id hs).mono _⟩
      · obtain ⟨k, s, hs, -⟩ := h.registered.outstanding n id hid
        exact ⟨s, hs.mono _⟩
    · rcases hid with hid | hid
      · obtain ⟨s, hs⟩ := (h.writes n id).mp hid
        exact absurd (old hk) (h.sends.not_issued hs)
      · exact hid

/-- A response waits at its reader until it is handed on. -/
theorem Held.step {n : Nat} {id : UInt32} {r : Response} {s : PoolStep} {a : PoolAnswer} (hh : Held run v n id r)
    (h : Delivers run v) (he : Effect v s a w) (hs : s ≠ .handOver n) : Held (run ++ [(s, a)]) w n id r := by
  refine ⟨?_, ?_, fun k hk => ?_⟩
  · have hr := hh.holds
    cases he with
    | @dialed m _ hm | @took m _ _ _ _ hm | @finished m hm =>
      have hne : n ≠ m := by
        rintro rfl
        rw [hm] at hr
        cases hr
      simp only [Function.update_of_ne hne]
      exact hr
    | @handed m | @discarded m =>
      have hne : n ≠ m := by
        rintro rfl
        exact hs rfl
      simp only [View.handOn, Function.update_of_ne hne]
      exact hr
    | _ => exact hr
  · obtain ⟨k, hk⟩ := hh.sent
    exact ⟨k, hk.mono _⟩
  · rcases h.sends.issued_snoc he hk with hk | ⟨j, now, rfl, hj, -⟩
    · have ho := hh.outstanding k hk
      rcases he.plain_or with hp | ⟨j, m, i, now, -, -, -, rfl⟩ | ⟨m, i, r', rfl, -, -, -, rfl⟩
      · exact hp.outstanding ▸ ho
      · simp only [View.register, Function.update_apply]
        split
        · rename_i hm
          exact List.mem_insert_of_mem (hm ▸ ho)
        · exact ho
      · have hne : n ≠ m := by
          rintro rfl
          exact hs rfl
        simp only [View.handOn, Function.update_of_ne hne]
        exact ho
    · cases he with
      | written hx =>
        cases hx.symm.trans hj
        simp [View.register]
      | quiet hq => cases hq
      | failed hf => cases hf
      | read hs => cases hs

/-- Whoever waits for a response that a reader holds waits still. -/
theorem Held.waits {n : Nat} {id : UInt32} {r : Response} (hh : Held run v n id r) (h : Delivers run v) {k : Nat}
    (hk : Issued run k n id) : v.pending.handles.get? k = some ⟨id, .awaited⟩ ∨ GaveUp run k :=
  h.awaited k n id hk (hh.outstanding k hk) (by rw [hh.holds]; exact nofun)

/-! ## A response at its handle -/

/-- A response has been handed on after a run `past`: nobody sends its request any more, and the handle of the request
was given up before, or holds the response or has given it, or was dropped since. -/
structure Passed (past rest : Run) (v : View) (n : Nat) (id : UInt32) (r : Response) : Prop where
  sent : ∃ s, Started (past ++ rest) s n id
  done : ∀ s m, v.sends s ≠ some (m, id)
  given : ∀ h, Issued (past ++ rest) h n id → GaveUp past h ∨ v.pending.outcome? h = some (.ok r) ∨
    .ok r ∈ outcomesOf h rest ∨ ∃ a, (.drop h, a) ∈ rest

theorem Held.handOver {n : Nat} {id : UInt32} {r : Response} {a : PoolAnswer} (hh : Held run v n id r)
    (h : Delivers run v) (he : Effect v (.handOver n) a w) : Passed run [(.handOver n, a)] w n id r := by
  have hdone : id ∉ v.writing n → ∀ s m, v.sends s ≠ some (m, id) := by
    intro hw s m hs
    obtain ⟨k, hk⟩ := hh.sent
    have hg := h.sends.going s m id hs
    obtain rfl := h.sends.unique s k m n id hg hk
    obtain ⟨rfl, -⟩ := h.sends.same s m n id id hg hk
    exact hw ((h.writes m id).mpr ⟨s, hs⟩)
  have hsent : ∃ s, Started (run ++ [(.handOver n, a)]) s n id := by
    obtain ⟨k, hk⟩ := hh.sent
    exact ⟨k, hk.mono _⟩
  have hr := hh.holds
  cases he with
  | quiet hq => cases hq
  | failed hf => cases hf
  | read hs => cases hs
  | discarded hr' hw ho =>
    cases hr.symm.trans hr'
    refine ⟨hsent, hdone hw, fun k hk => ?_⟩
    exact absurd (hh.outstanding k (h.sends.issued_snoc_plain (.discarded hr' hw ho) nofun hk)) ho
  | handed hr' hw ho =>
    cases hr.symm.trans hr'
    refine ⟨hsent, hdone hw, fun k hk => ?_⟩
    replace hk := h.sends.issued_snoc_plain (.handed hr' hw ho) nofun hk
    rcases hh.waits h hk with hk' | hg
    · obtain ⟨o, he⟩ := h.sound.entry k id hk'
      right; left
      refine Pending.outcome_eq_ok_iff.mpr ⟨id, ?_⟩
      simp [View.handOn, Pending.complete, Pending.handles_settle, he, hk', Handle.told]
    · exact .inl hg

/-- A response that has been handed on stays with its handle. -/
theorem Passed.step {past rest : Run} {n : Nat} {id : UInt32} {r : Response} {s : PoolStep} {a : PoolAnswer}
    (hp : Passed past rest v n id r) (h : Delivers (past ++ rest) v) (he : Effect v s a w)
    (hd : (sentIds (past ++ rest ++ [(s, a)])).Nodup) : Passed past (rest ++ [(s, a)]) w n id r := by
  refine ⟨?_, fun k m hk => ?_, fun k hk => ?_⟩
  · obtain ⟨k, hk⟩ := hp.sent
    rw [← List.append_assoc]
    exact ⟨k, hk.mono _⟩
  · rcases he.sends_some hk with hk | ⟨rfl, -, -⟩
    · exact hp.done k m hk
    · obtain ⟨j, hj⟩ := hp.sent
      rw [sentIds_snoc] at hd
      exact (List.nodup_append.mp hd).2.2 id (h.sends.started j n id hj).2 id (List.mem_singleton_self id) rfl
  · rw [← List.append_assoc] at hk
    rcases h.sends.issued_snoc he hk with hk | ⟨j, -, -, hj, -⟩
    · rcases hp.given k hk with hg | ho | ho | ⟨a', hm⟩
      · exact .inl hg
      · right
        rcases he.decided h.sound ho with ho | ho | rfl
        · exact .inl ho
        · exact .inr (.inl (by rw [outcomesOf_snoc, ho]; simp))
        · exact .inr (.inr ⟨a, by simp⟩)
      · exact .inr (.inr (.inl (by rw [outcomesOf_snoc]; exact List.mem_append_left _ ho)))
      · exact .inr (.inr (.inr ⟨a', List.mem_append_left _ hm⟩))
    · exact absurd hj (hp.done j n)

/-! ## From the reader to the handle -/

/-- A response that a reader held waits there still, or has been handed on. -/
theorem Held.leads {n : Nat} {id : UInt32} {r : Response} {rest : Run} (hh : Held run v n id r)
    (hl : Leads Pool.empty.view run v) (hr : Leads v rest w) (hd : (sentIds (run ++ rest)).Nodup) :
    (∀ e ∈ rest, e.1 ≠ .handOver n) ∧ Held (run ++ rest) w n id r ∨
      ∃ mid a late, rest = mid ++ (.handOver n, a) :: late ∧ (∀ e ∈ mid, e.1 ≠ .handOver n) ∧
        Passed (run ++ mid) ((.handOver n, a) :: late) w n id r := by
  induction hr with
  | refl =>
    rw [List.append_nil]
    exact .inl ⟨fun e he => (nomatch he), hh⟩
  | @snoc w x s a rest hr he ih =>
    rw [← List.append_assoc] at hd
    have hd' := nodup_sentIds_append hd
    have h := delivers_of_leads (hl.append hr) hd'
    rcases ih hd' with ⟨hno, hh⟩ | ⟨mid, b, late, rfl, hno, hp⟩
    · by_cases hs : s = .handOver n
      · subst hs
        exact .inr ⟨rest, a, [], rfl, hno, hh.handOver h he⟩
      · left
        rw [← List.append_assoc]
        refine ⟨fun e hm => ?_, hh.step h he hs⟩
        rcases List.mem_append.mp hm with hm | hm
        · exact hno e hm
        · rw [List.mem_singleton.mp hm]
          exact hs
    · rw [← List.append_assoc] at h hd
      exact .inr ⟨mid, b, late ++ [(s, a)], by simp, hno, hp.step h he hd⟩

/-! ## The main statement -/

/-- What has become, on a run `rest`, of a response to an id that the reader of a connection took at the end of a run
`past`. Either it waits at the reader, which can hand it on unless the request is still being written, and whoever has
a handle for the request waits too; or it was handed on, and the handle of the request was given up before, or holds
the response or has given it, or was dropped later. -/
inductive Fate (past rest : Run) (p : Pool) (n : Nat) (id : UInt32) (r : Response) : Prop
  | waits : (∀ e ∈ rest, e.1 ≠ .handOver n) → p.view.reader n = some (.holding id r) →
      ((p.step? (.handOver n)).isSome ↔ id ∉ p.view.writing n) →
      (∀ h, Issued (past ++ rest) h n id →
        p.pending.handles.get? h = some ⟨id, .awaited⟩ ∨ GaveUp (past ++ rest) h) →
      Fate past rest p n id r
  | passed {mid late : Run} {a : PoolAnswer} : rest = mid ++ (.handOver n, a) :: late →
      (∀ e ∈ mid, e.1 ≠ .handOver n) →
      (∀ h, Issued (past ++ rest) h n id → GaveUp (past ++ mid) h ∨
        .ok r ∈ resolutions (past ++ rest) p.pending h ∨ ∃ a, (.drop h, a) ∈ late) →
      Fate past rest p n id r

namespace Pool

variable {p q : Pool}

theorem handOver_isSome_iff {n : Nat} {id : UInt32} {r : Response} (h : p.view.reader n = some (.holding id r)) :
    (p.step? (.handOver n)).isSome ↔ id ∉ p.view.writing n := by
  obtain ⟨c, hc, hr⟩ := Option.map_eq_some_iff.mp h
  rw [view_writing hc]
  simp only [step?, silently, canHandOver, hc, hr, decide_eq_true_eq]
  split <;> simp_all

theorem delivers_of_reaches (hr : Reaches empty run p) (hd : (sentIds run).Nodup) : Delivers run p.view :=
  delivers_of_leads (leads_of_reaches numbered_empty hr).1 hd

/-- What a handle held or gave at some time is what it holds or gives later. -/
theorem resolutions_agree {past rest : Run} (hq : Reaches empty past q) (hr : Reaches q rest p)
    (hd : (sentIds (past ++ rest)).Nodup) {h : Nat} {o o' : Outcome} (ho : o ∈ resolutions past q.pending h)
    (ho' : o' ∈ resolutions (past ++ rest) p.pending h) : o' = o := by
  obtain ⟨hlq, hnq⟩ := leads_of_reaches numbered_empty hq
  obtain ⟨hlp, -⟩ := leads_of_reaches hnq hr
  have hone : o ∈ resolutions (past ++ rest) p.pending h → o' = o := by
    intro ho
    have hlen := (delivers_of_reaches (reaches_append hq hr) hd).resolutions_length h
    obtain ⟨x, hx⟩ := List.length_eq_one_iff.mp (Nat.le_antisymm hlen (List.length_pos_of_mem ho))
    rw [show resolutions (past ++ rest) p.view.pending h = resolutions (past ++ rest) p.pending h from rfl] at hx
    rw [hx] at ho ho'
    rw [List.mem_singleton.mp ho, List.mem_singleton.mp ho']
  rcases List.mem_append.mp ho with ho | ho
  · refine hone (List.mem_append_left _ ?_)
    rw [outcomesOf, List.filterMap_append]
    exact List.mem_append_left _ ho
  · rcases hlq.decided hlp hd (Option.mem_toList.mp ho) with hm | ⟨hnone, -, hempty⟩
    · exact hone hm
    · have hnil : resolutions (past ++ rest) p.pending h = [] := by
        show outcomesOf h (past ++ rest) ++ (p.view.pending.outcome? h).toList = []
        rw [hempty, Pending.outcome?, hnone]
        rfl
      rw [hnil] at ho'
      cases ho'

/-- A response that a reader takes for a request that is being written or outstanding is not lost. -/
theorem fate_of_taken {past rest : Run} {n : Nat} {i : Inbound} {now : Instant} {a : PoolAnswer} {id : UInt32}
    {r : Response} (hq : Reaches empty past q) (hr : Reaches q ((.receive n i now, a) :: rest) p)
    (hd : (sentIds (past ++ (.receive n i now, a) :: rest)).Nodup) (hc : Conveys i id r)
    (hid : id ∈ q.view.writing n ∨ id ∈ q.view.outstanding n) :
    Fate (past ++ [(.receive n i now, a)]) rest p n id r := by
  obtain ⟨hlq, hnq⟩ := leads_of_reaches numbered_empty hq
  obtain _ | ⟨hs, hr⟩ := hr
  have he := effect_of_step hnq hs
  obtain ⟨hlp, -⟩ := leads_of_reaches (hnq.step hs) hr
  rw [List.append_cons] at hd
  have hh := Held.take (delivers_of_leads hlq (nodup_sentIds_append (nodup_sentIds_append hd))) he hc hid
  have hl := hlq.snoc he
  rcases hh.leads hl hlp hd with ⟨hno, hh⟩ | ⟨mid, b, late, rfl, hno, hp⟩
  · exact .waits hno hh.holds (handOver_isSome_iff hh.holds) fun h hi =>
      hh.waits (delivers_of_leads (hl.append hlp) hd) hi
  · refine .passed rfl hno fun h hi => ?_
    rw [← List.append_assoc] at hi ⊢
    rcases hp.given h hi with hg | ho | ho | ⟨b', hm⟩
    · exact .inl hg
    · exact .inr (.inl (List.mem_append_right _ (Option.mem_toList.mpr ho)))
    · refine .inr (.inl (List.mem_append_left _ ?_))
      rw [outcomesOf, List.filterMap_append]
      exact List.mem_append_right _ ho
    · rcases List.mem_cons.mp hm with hm | hm
      · cases hm
      · exact .inr (.inr ⟨b', hm⟩)

/-- **Responses reach their requests.** On every run on which no id is used twice: a handle gives one outcome at most,
and what it holds ready never changes; a response that it gives was carried by a frame under its id that came in on
the very connection its request was written to; and a response that a reader takes for a request that is being written
or outstanding on its connection is not lost. -/
theorem responses_reach_their_requests {run : Run} {p : Pool} (hr : Reaches empty run p) (hd : (sentIds run).Nodup) :
    (∀ h, (resolutions run p.pending h).length ≤ 1) ∧
    (∀ past rest q h o o', run = past ++ rest → Reaches empty past q → o ∈ resolutions past q.pending h →
      o' ∈ resolutions run p.pending h → o' = o) ∧
    (∀ h r, .ok r ∈ resolutions run p.pending h →
      (∃ n id, Issued run h n id) ∧ ∀ n id, Issued run h n id → Took run n id r) ∧
    ∀ past rest q n i now a id r, run = past ++ (.receive n i now, a) :: rest → Reaches empty past q →
      Conveys i id r → id ∈ q.view.writing n ∨ id ∈ q.view.outstanding n →
      Fate (past ++ [(.receive n i now, a)]) rest p n id r := by
  have h := delivers_of_reaches hr hd
  refine ⟨h.resolutions_length, ?_, fun k r => h.resolutions_took, ?_⟩
  · rintro past rest q k o o' rfl hq ho ho'
    obtain ⟨q', hq', hr'⟩ := reaches_append_inv hr
    obtain rfl := reaches_unique hq hq'
    exact resolutions_agree hq hr' hd ho ho'
  · rintro past rest q n i now a id r rfl hq hc hid
    obtain ⟨q', hq', hr'⟩ := reaches_append_inv hr
    obtain rfl := reaches_unique hq hq'
    exact fate_of_taken hq hr' hd hc hid

/-! ### A response that comes before its request is registered -/

/-- An answer to request 7. -/
def earlyAnswer : Response := .ok 7 .null

/-- A request is sent, and its response comes in before it is written as a whole. -/
def earlyRun : Run :=
  [(.acquire (.v4 0 80), .acquired (.dialing 0)), (.dialed 0 0, .nothing), (.startSend 0 7, .sending 0),
    (.beginWrite 0, .nothing),
    (.receive 0 (.ok ⟨.response, serializerCbor, compressorOff, 7, .response earlyAnswer⟩) 1, .nothing),
    (.endSend 0 .written 2, .sent (.ok 0)), (.handOver 0, .nothing), (.poll 0, .outcome (.ok earlyAnswer))]

theorem responses_reach_their_requests_early :
    ∃ p, Reaches empty earlyRun p ∧ (sentIds earlyRun).Nodup ∧ resolutions earlyRun p.pending 0 = [.ok earlyAnswer] ∧
      Took earlyRun 0 7 earlyAnswer ∧ Fate (earlyRun.take 5) (earlyRun.drop 5) p 0 7 earlyAnswer := by
  have hq : ∃ q, Reaches empty (earlyRun.take 4) q ∧ q.view.writing 0 = [7] :=
    ⟨_, .next rfl (.next rfl (.next rfl (.next rfl (.refl _)))), rfl⟩
  have hp : ∃ p, Reaches empty earlyRun p ∧ resolutions earlyRun p.pending 0 = [.ok earlyAnswer] :=
    ⟨_, .next rfl (.next rfl (.next rfl (.next rfl (.next rfl (.next rfl (.next rfl (.next rfl (.refl _)))))))), rfl⟩
  obtain ⟨q, hq, hw⟩ := hq
  obtain ⟨p, hp, hres⟩ := hp
  have hd : (sentIds earlyRun).Nodup := by simp [sentIds, earlyRun, PoolStep.startedId?]
  have hissued : Issued earlyRun 0 0 7 := ⟨0, by simp [Started, earlyRun], 2, by simp [earlyRun]⟩
  obtain ⟨-, -, hcarried, hfate⟩ := responses_reach_their_requests hp hd
  refine ⟨p, hp, hd, hres, ?_, ?_⟩
  · exact (hcarried 0 earlyAnswer (by simp [hres])).2 0 7 hissued
  · exact hfate _ _ q 0 _ 1 .nothing 7 earlyAnswer rfl hq (.response rfl rfl) (.inl (by simp [hw]))

end Pool

end Rpc
