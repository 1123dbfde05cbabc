import Rpc.Proofs.Client.Effect

/-!
# What has happened on a run of a pool

- `Leads`: runs on views; a run of a pool is one (`Pool.leads_of_reaches`);
- `Started`, `Issued`, `Took`, `GaveUp`, `outcomesOf`: what a run tells of sends, handles and responses;
- `Sends`: on a run on which no id is used twice, sends, ids and handles belong to each other one by one
  (`Sends.step`), and the ids that are being written are those of the sends on their way (`Writes.step`).
-/

namespace Rpc

/-- Steps one after the other, with what was learnt from them. -/
abbrev Run : Type := List (PoolStep × PoolAnswer)

/-- What effects make of a view. -/
inductive Leads (v : View) : Run → View → Prop
  | refl : Leads v [] v
  | snoc {w x : View} {s : PoolStep} {a : PoolAnswer} {run : Run} :
      Leads v run w → Effect w s a x → Leads v (run ++ [(s, a)]) x

theorem Leads.cons {v w x : View} {s : PoolStep} {a : PoolAnswer} {run : Run} (he : Effect v s a w)
    (h : Leads w run x) : Leads v ((s, a) :: run) x := by
  induction h with
  | refl => exact .snoc .refl he
  | snoc _ he' ih => exact .snoc ih he'

theorem Leads.append {v w x : View} {run run' : Run} (h : Leads v run w) (h' : Leads w run' x) :
    Leads v (run ++ run') x := by
  induction h' with
  | refl => exact (List.append_nil run).symm ▸ h
  | snoc _ he ih => exact List.append_assoc run _ _ ▸ .snoc ih he

namespace Pool

variable {p q r : Pool}

theorem leads_of_reaches {run : Run} (hp : p.Numbered) (h : Reaches p run q) :
    Leads p.view run q.view ∧ q.Numbered := by
  induction h with
  | refl => exact ⟨.refl, hp⟩
  | next hs _ ih =>
    obtain ⟨hl, hq⟩ := ih (hp.step hs)
    exact ⟨.cons (effect_of_step hp hs) hl, hq⟩

theorem reaches_append {run run' : Run} (h : Reaches p run q) (h' : Reaches q run' r) :
    Reaches p (run ++ run') r := by
  induction h with
  | refl => exact h'
  | next hs _ ih => exact .next hs (ih h')

/-- A run leads to one state. -/
theorem reaches_unique {run : Run} (h : Reaches p run q) (h' : Reaches p run r) : q = r := by
  induction h with
  | refl => cases h'; rfl
  | next hs _ ih =>
    obtain _ | ⟨hs', h'⟩ := h'
    cases hs.symm.trans hs'
    exact ih h'

/-- A run passes through the states after its beginnings. -/
theorem reaches_append_inv : ∀ {run run' : Run} {p : Pool}, Reaches p (run ++ run') r →
    ∃ q, Reaches p run q ∧ Reaches q run' r
  | [], _, p, h => ⟨p, .refl p, h⟩
  | _ :: _, _, _, .next hs h => by
    obtain ⟨q, h₁, h₂⟩ := reaches_append_inv h
    exact ⟨q, .next hs h₁, h₂⟩

end Pool

/-! ## What a run tells -/

/-- The id of the request that a step begins to send, if it does. -/
def PoolStep.startedId? : PoolStep → Option UInt32
  | .startSend _ id => some id
  | _ => none

/-- The ids of the requests that a run began to send. -/
def sentIds (run : Run) : List UInt32 := run.filterMap fun e => e.1.startedId?

/-- A send of a request on a connection has begun. -/
def Started (run : Run) (s n : Nat) (id : UInt32) : Prop := (.startSend n id, .sending s) ∈ run

/-- The request of a send was written, and its caller has a handle. -/
def Written (run : Run) (h s : Nat) : Prop := ∃ now, (.endSend s .written now, .sent (.ok h)) ∈ run

/-- A handle is for the response to a request that was written to a connection under an id. -/
def Issued (run : Run) (h n : Nat) (id : UInt32) : Prop := ∃ s, Started run s n id ∧ Written run h s

/-- The reader of a connection took a frame that carries a response to an id. -/
def Took (run : Run) (n : Nat) (id : UInt32) (r : Response) : Prop :=
  ∃ i now a, (.receive n i now, a) ∈ run ∧ Conveys i id r

/-- A step and its answer by which nobody waits at a handle any more: it is dropped, its time is up, or all requests
are given up. -/
inductive Abandons (h : Nat) : PoolStep × PoolAnswer → Prop
  | dropped (a : PoolAnswer) : Abandons h (.drop h, a)
  | expired (after : Nat) : Abandons h (.expire h after, .outcome (.error (.timeout after)))
  | cleared (a : PoolAnswer) : Abandons h (.clear, a)

/-- Somebody had a handle and then nobody waited at it any more. -/
def GaveUp (run : Run) (h : Nat) : Prop :=
  ∃ past e rest, run = past ++ e :: rest ∧ (∃ n id, Issued past h n id) ∧ Abandons h e

/-- What a step and its answer give to whom reads a handle. -/
def outcomeOf (h : Nat) : PoolStep × PoolAnswer → Option Outcome
  | (s, .outcome o) => if s.reads? = some h then some o else none
  | _ => none

/-- What a run has given to whom read a handle. -/
def outcomesOf (h : Nat) (run : Run) : List Outcome := run.filterMap (outcomeOf h)

/-! ## A run and one step more -/

variable {run : Run} {e : PoolStep × PoolAnswer} {v w : View}

theorem Started.mono {s n : Nat} {id : UInt32} (h : Started run s n id) (l : Run) : Started (run ++ l) s n id :=
  List.mem_append_left l h

theorem Issued.mono {h n : Nat} {id : UInt32} (hi : Issued run h n id) (l : Run) : Issued (run ++ l) h n id := by
  obtain ⟨s, hs, now, hw⟩ := hi
  exact ⟨s, hs.mono l, now, List.mem_append_left l hw⟩

theorem Took.mono {n : Nat} {id : UInt32} {r : Response} (h : Took run n id r) (l : Run) :
    Took (run ++ l) n id r := by
  obtain ⟨i, now, a, hm, hc⟩ := h
  exact ⟨i, now, a, List.mem_append_left l hm, hc⟩

theorem GaveUp.mono {h : Nat} (hg : GaveUp run h) (l : Run) : GaveUp (run ++ l) h := by
  obtain ⟨past, e, rest, rfl, hi, ha⟩ := hg
  exact ⟨past, e, rest ++ l, by simp, hi, ha⟩

theorem GaveUp.now {h n : Nat} {id : UInt32} (hi : Issued run h n id) (ha : Abandons h e) :
    GaveUp (run ++ [e]) h :=
  ⟨run, e, [], rfl, ⟨n, id, hi⟩, ha⟩

theorem started_snoc {s n : Nat} {id : UInt32} :
    Started (run ++ [e]) s n id ↔ Started run s n id ∨ e = (.startSend n id, .sending s) := by
  simp [Started, eq_comm]

theorem written_snoc {h s : Nat} :
    Written (run ++ [e]) h s ↔ Written run h s ∨ ∃ now, e = (.endSend s .written now, .sent (.ok h)) := by
  simp [Written, eq_comm, exists_or]

/-- Steps that neither begin sends nor write requests add nothing to the sends and the handles of a run. -/
theorem started_snoc_of (he : e.1.sends = false) {s n : Nat} {id : UInt32} :
    Started (run ++ [e]) s n id ↔ Started run s n id := by
  rw [started_snoc, or_iff_left]
  rintro rfl
  cases he

theorem written_snoc_of (he : e.1.sends = false) {h s : Nat} : Written (run ++ [e]) h s ↔ Written run h s := by
  rw [written_snoc, or_iff_left]
  rintro ⟨now, rfl⟩
  cases he

/-! ## Sends, ids and handles -/

/-- Sends have numbers of their own and, as no id is used twice, ids of their own. A request is written once, by a
send that is over then, and its handle is for no other request. -/
structure Sends (run : Run) (v : View) : Prop where
  started : ∀ s n id, Started run s n id → s < v.nextSend ∧ id ∈ sentIds run
  same : ∀ s n n' id id', Started run s n id → Started run s n' id' → n = n' ∧ id = id'
  unique : ∀ s s' n n' id, Started run s n id → Started run s' n' id → s = s'
  going : ∀ s n id, v.sends s = some (n, id) → Started run s n id
  written : ∀ h s, Written run h s → v.sends s = none ∧ s < v.nextSend ∧ h < v.pending.nextHandle
  handle : ∀ h s s', Written run h s → Written run h s' → s = s'
  once : ∀ h h' s, Written run h s → Written run h' s → h = h'

theorem sends_start : Sends [] Pool.empty.view where
  started _ _ _ h := nomatch h
  same _ _ _ _ _ h := nomatch h
  unique _ _ _ _ _ h := nomatch h
  going _ _ _ h := nomatch h
  written _ _ h := nomatch h
  handle _ _ _ h := nomatch h
  once _ _ _ h := nomatch h

theorem sentIds_snoc : sentIds (run ++ [e]) = sentIds run ++ e.1.startedId?.toList := by
  simp only [sentIds, List.filterMap_append]
  cases h : e.1.startedId? <;> simp [h]

/-- A step that begins no send and writes no request keeps what belongs together. -/
theorem Sends.loses (h : Sends run v) (he : e.1.sends = false)
    (hs : ∀ k x, w.sends k = some x → v.sends k = some x) (hn : w.nextSend = v.nextSend)
    (hh : w.pending.nextHandle = v.pending.nextHandle) : Sends (run ++ [e]) w where
  started s n id := by
    rw [started_snoc_of he, sentIds_snoc, hn]
    exact fun hi => ⟨(h.started s n id hi).1, List.mem_append_left _ (h.started s n id hi).2⟩
  same s n n' id id' := by
    rw [started_snoc_of he, started_snoc_of he]
    exact h.same s n n' id id'
  unique s s' n n' id := by
    rw [started_snoc_of he, started_snoc_of he]
    exact h.unique s s' n n' id
  going s n id hx := (h.going s n id (hs s _ hx)).mono [e]
  written k s := by
    rw [written_snoc_of he, hn, hh]
    intro hw
    obtain ⟨hnone, hlt⟩ := h.written k s hw
    refine ⟨?_, hlt⟩
    cases hx : w.sends s with
    | none => rfl
    | some x => rw [hs s x hx] at hnone; cases hnone
  handle k s s' := by
    rw [written_snoc_of he, written_snoc_of he]
    exact h.handle k s s'
  once k k' s := by
    rw [written_snoc_of he, written_snoc_of he]
    exact h.once k k' s

theorem Sends.start {n : Nat} {id : UInt32} (h : Sends run v)
    (hd : (sentIds (run ++ [(.startSend n id, .sending v.nextSend)])).Nodup) (hn : w.nextSend = v.nextSend + 1)
    (hs : w.sends = Function.update v.sends v.nextSend (some (n, id))) (hh : w.pending = v.pending) :
    Sends (run ++ [(.startSend n id, .sending v.nextSend)]) w := by
  have hw : ∀ {k s}, Written (run ++ [(.startSend n id, .sending v.nextSend)]) k s → Written run k s := by
    intro k s hw
    rcases written_snoc.mp hw with hw | ⟨now, he⟩
    · exact hw
    · cases he
  rw [sentIds_snoc] at hd
  have hfresh : id ∉ sentIds run := by
    intro hm
    exact (List.nodup_append.mp hd).2.2 id hm id (List.mem_singleton_self id) rfl
  refine ⟨?_, ?_, ?_, ?_, ?_, ?_, ?_⟩
  · intro s m j hi
    rw [sentIds_snoc, hn]
    rcases started_snoc.mp hi with hi | he
    · obtain ⟨hlt, hm⟩ := h.started s m j hi
      exact ⟨by omega, List.mem_append_left _ hm⟩
    · cases he
      exact ⟨Nat.lt_succ_self _, List.mem_append_right _ (List.mem_singleton_self id)⟩
  · intro s m m' j j' hi hi'
    rcases started_snoc.mp hi with hi | he <;> rcases started_snoc.mp hi' with hi' | he'
    · exact h.same s m m' j j' hi hi'
    · cases he'
      exact absurd (h.started _ _ _ hi).1 (Nat.lt_irrefl _)
    · cases he
      exact absurd (h.started _ _ _ hi').1 (Nat.lt_irrefl _)
    · cases he
      cases he'
      exact ⟨rfl, rfl⟩
  · intro s s' m m' j hi hi'
    rcases started_snoc.mp hi with hi | he <;> rcases started_snoc.mp hi' with hi' | he'
    · exact h.unique s s' m m' j hi hi'
    · cases he'
      exact absurd (h.started _ _ _ hi).2 hfresh
    · cases he
      exact absurd (h.started _ _ _ hi').2 hfresh
    · cases he
      cases he'
      rfl
  · intro s m j hx
    rw [hs, Function.update_apply] at hx
    split at hx
    · rename_i hk
      cases hx
      exact started_snoc.mpr (.inr (by rw [hk]))
    · exact (h.going s m j hx).mono _
  · intro k s hk
    obtain ⟨hnone, hlt, hhandle⟩ := h.written k s (hw hk)
    rw [hs, hn, hh, Function.update_of_ne (Nat.ne_of_lt hlt)]
    exact ⟨hnone, Nat.lt_succ_of_lt hlt, hhandle⟩
  · exact fun k s s' hk hk' => h.handle k s s' (hw hk) (hw hk')
  · exact fun k k' s hk hk' => h.once k k' s (hw hk) (hw hk')

theorem Sends.write {s n : Nat} {id : UInt32} {now : Instant} (h : Sends run v) (hx : v.sends s = some (n, id)) :
    Sends (run ++ [(.endSend s .written now, .sent (.ok v.pending.nextHandle))]) (v.register s n id) := by
  have hst : ∀ {k m j},
      Started (run ++ [(.endSend s .written now, .sent (.ok v.pending.nextHandle))]) k m j ↔ Started run k m j := by
    intro k m j
    rw [started_snoc, or_iff_left]
    exact nofun
  have hnext : (v.register s n id).pending.nextHandle = v.pending.nextHandle + 1 :=
    Pending.nextHandle_insert v.pending id n
  refine ⟨?_, ?_, ?_, ?_, ?_, ?_, ?_⟩
  · intro k m j
    rw [hst, sentIds_snoc]
    exact fun hi => ⟨(h.started k m j hi).1, List.mem_append_left _ (h.started k m j hi).2⟩
  · intro k m m' j j'
    rw [hst, hst]
    exact h.same k m m' j j'
  · intro k k' m m' j
    rw [hst, hst]
    exact h.unique k k' m m' j
  · intro k m j hk
    simp only [View.register, Function.update_apply] at hk
    split at hk
    · cases hk
    · exact hst.mpr (h.going k m j hk)
  · intro k s' hk
    rw [hnext]
    show Function.update v.sends s none s' = none ∧ s' < v.nextSend ∧ _
    rcases written_snoc.mp hk with hk | ⟨now, he⟩
    · obtain ⟨hnone, hlt, hhandle⟩ := h.written k s' hk
      rw [Function.update_apply, hnone, ite_self]
      exact ⟨rfl, hlt, Nat.lt_succ_of_lt hhandle⟩
    · cases he
      exact ⟨Function.update_self .., (h.started _ _ _ (h.going _ _ _ hx)).1, Nat.lt_succ_self _⟩
  · intro k s₁ s₂ h₁ h₂
    rcases written_snoc.mp h₁ with h₁ | ⟨_, he₁⟩ <;> rcases written_snoc.mp h₂ with h₂ | ⟨_, he₂⟩
    · exact h.handle k s₁ s₂ h₁ h₂
    · cases he₂
      exact absurd (h.written _ _ h₁).2.2 (Nat.lt_irrefl _)
    · cases he₁
      exact absurd (h.written _ _ h₂).2.2 (Nat.lt_irrefl _)
    · cases he₁
      cases he₂
      rfl
  · intro k k' s' h₁ h₂
    rcases written_snoc.mp h₁ with h₁ | ⟨_, he₁⟩ <;> rcases written_snoc.mp h₂ with h₂ | ⟨_, he₂⟩
    · exact h.once k k' s' h₁ h₂
    · cases he₂
      rw [(h.written _ _ h₁).1] at hx
      cases hx
    · cases he₁
      rw [(h.written _ _ h₂).1] at hx
      cases hx
    · cases he₁
      cases he₂
      rfl

/-- Every step keeps what belongs together, as long as no id is used twice. -/
theorem Sends.step {s : PoolStep} {a : PoolAnswer} (h : Sends run v) (he : Effect v s a w)
    (hd : (sentIds (run ++ [(s, a)])).Nodup) : Sends (run ++ [(s, a)]) w := by
  cases he with
  | started => exact h.start hd rfl rfl rfl
  | written hx => exact h.write hx
  | quiet hs => exact h.loses (s.sends_of_isQuiet hs) (fun _ _ hx => hx) rfl rfl
  | read hs => exact h.loses (s.sends_of_reads? hs) (fun _ _ hx => hx) rfl (Pending.nextHandle_drop _ _)
  | failed hs =>
    refine h.loses (s.sends_of_fails hs) (fun k x hx => ?_) rfl rfl
    simp only [Function.update_apply] at hx
    split at hx
    · cases hx
    · exact hx
  | handed => exact h.loses rfl (fun _ _ hx => hx) rfl (Pending.nextHandle_settle _ _ _)
  | finished => exact h.loses rfl (fun _ _ hx => hx) rfl (Pending.loses_removeAll _ _).nextHandle
  | cleared => exact h.loses rfl (fun _ _ hx => hx) rfl (Pending.loses_removeAll _ _).nextHandle
  | dropped => exact h.loses rfl (fun _ _ hx => hx) rfl (Pending.nextHandle_drop _ _)
  | expired =>
    exact h.loses rfl (fun _ _ hx => hx) rfl
      ((Pending.loses_remove _ _).trans (Pending.loses_drop _ _)).nextHandle
  | dialed | took | discarded => exact h.loses rfl (fun _ _ hx => hx) rfl rfl

/-- A handle is for one request. -/
theorem Sends.issued_same (h : Sends run v) {k n n' : Nat} {id id' : UInt32} (hi : Issued run k n id)
    (hi' : Issued run k n' id') : n = n' ∧ id = id' := by
  obtain ⟨s, hs, hw⟩ := hi
  obtain ⟨s', hs', hw'⟩ := hi'
  obtain rfl := h.handle k s s' hw hw'
  exact h.same s n n' id id' hs hs'

/-- A request has one handle. -/
theorem Sends.issued_unique (h : Sends run v) {k k' n n' : Nat} {id : UInt32} (hi : Issued run k n id)
    (hi' : Issued run k' n' id) : k = k' ∧ n = n' := by
  obtain ⟨s, hs, hw⟩ := hi
  obtain ⟨s', hs', hw'⟩ := hi'
  obtain rfl := h.unique s s' n n' id hs hs'
  exact ⟨h.once k k' s hw hw', (h.same s n n' id id hs hs').1⟩

/-- A request that is on its way has no handle yet. -/
theorem Sends.not_issued (h : Sends run v) {s k n n' : Nat} {id : UInt32} (hx : v.sends s = some (n, id)) :
    ¬ Issued run k n' id := by
  rintro ⟨s', hs', hw⟩
  obtain rfl := h.unique s s' n n' id (h.going s n id hx) hs'
  rw [(h.written k s hw).1] at hx
  cases hx

/-! ## Ids that are being written -/

/-- The ids that are being written on a connection are those of the sends on their way on it. -/
def Writes (v : View) : Prop := ∀ n id, id ∈ v.writing n ↔ ∃ s, v.sends s = some (n, id)

theorem writes_start : Writes Pool.empty.view := fun _ _ => ⟨fun h => (nomatch h), fun ⟨_, h⟩ => nomatch h⟩

/-- The id of a send that ends is no longer being written; all others are. -/
theorem Writes.ends {s n : Nat} {id : UInt32} (hw : Writes v) (h : Sends run v) (hx : v.sends s = some (n, id))
    (hwr : w.writing = Function.update v.writing n ((v.writing n).filter (· ≠ id)))
    (hs : w.sends = Function.update v.sends s none) : Writes w := by
  intro m j
  have hm : j ∈ w.writing m ↔ j ∈ v.writing m ∧ j ≠ id := by
    rw [hwr, Function.update_apply]
    split
    · rename_i hm
      simp [hm]
    · rename_i hm
      refine ⟨fun hj => ⟨hj, ?_⟩, fun hj => hj.1⟩
      rintro rfl
      obtain ⟨k, hk⟩ := (hw m j).mp hj
      obtain rfl := h.unique s k n m j (h.going s n j hx) (h.going k m j hk)
      rw [hx] at hk
      cases hk
      exact hm rfl
  rw [hm, hw, hs]
  constructor
  · rintro ⟨⟨k, hk⟩, hne⟩
    refine ⟨k, ?_⟩
    rw [Function.update_of_ne]
    · exact hk
    · rintro rfl
      rw [hx] at hk
      cases hk
      exact hne rfl
  · rintro ⟨k, hk⟩
    rw [Function.update_apply] at hk
    split at hk
    · cases hk
    · rename_i hks
      refine ⟨⟨k, hk⟩, ?_⟩
      rintro rfl
      exact hks (h.unique k s m n j (h.going k m j hk) (h.going s n j hx))

theorem Writes.step {s : PoolStep} {a : PoolAnswer} (hw : Writes v) (h : Sends run v) (he : Effect v s a w) :
    Writes w := by
  cases he with
  | written hx => exact hw.ends h hx rfl rfl
  | failed _ hx => exact hw.ends h hx rfl rfl
  | @started n id =>
    intro m j
    have hm : j ∈ Function.update v.writing n ((v.writing n).insert id) m ↔
        n = m ∧ id = j ∨ j ∈ v.writing m := by
      rw [Function.update_apply]
      split
      · rename_i hm
        simp [hm, eq_comm]
      · rename_i hm
        simp [Ne.symm hm]
    show j ∈ Function.update v.writing n ((v.writing n).insert id) m ↔
      ∃ k, Function.update v.sends v.nextSend (some (n, id)) k = some (m, j)
    rw [hm, hw]
    constructor
    · rintro (⟨rfl, rfl⟩ | ⟨k, hk⟩)
      · exact ⟨v.nextSend, Function.update_self ..⟩
      · have hlt := (h.started k m j (h.going k m j hk)).1
        exact ⟨k, by rw [Function.update_of_ne (Nat.ne_of_lt hlt)]; exact hk⟩
    · rintro ⟨k, hk⟩
      rw [Function.update_apply] at hk
      split at hk
      · cases hk
        exact .inl ⟨rfl, rfl⟩
      · exact .inr ⟨k, hk⟩
  | _ => exact hw

end Rpc
