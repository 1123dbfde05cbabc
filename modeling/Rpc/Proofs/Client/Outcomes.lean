import Mathlib.Data.List.Nodup
import Mathlib.Data.List.TakeWhile
import Rpc.Proofs.Client.Taking

/-!
# One outcome for each waiting request

- `PendingRun.Made`, `PendingRun.remover`, `PendingRun.outcomesOf`: what a run tells of a request;
- `PendingRun.Recorded`: an entry is there until a step takes it, and what its handle is told comes from that step;
- `PendingRun.Given`: a handle gives one outcome at most, the one that its remover decided;
- `PendingRun.can_read`: a response that was given to a request can be read as long as its handle is not dropped;
- `PendingRun.one_outcome`: what becomes of the requests of a run on which no id is used twice.
-/

namespace Rpc

namespace PendingRun

variable {ω : Type} {s s' : PendingRun ω} {x : PendingStep ω} {a : PendingAnswer ω}
  {run : List (PendingStep ω × PendingAnswer ω)} {e : PendingStep ω × PendingAnswer ω}
  {id j : UInt32} {o w : ω} {h k : Nat}

/-! ## What a run tells -/

/-- The ids that a run inserted. -/
def insertedIds (run : List (PendingStep ω × PendingAnswer ω)) : List UInt32 :=
  run.filterMap fun e => e.1.insertedId?

/-- A request was inserted under an id, with an owner, and has a handle. -/
def Made (run : List (PendingStep ω × PendingAnswer ω)) (id : UInt32) (o : ω) (h : Nat) : Prop :=
  (.insert id o, .handle h) ∈ run

/-- A step and its answer that make a handle. -/
def makes (h : Nat) : PendingStep ω × PendingAnswer ω → Bool
  | (.insert _ _, .handle k) => k = h
  | _ => false

/-- What came after a handle was made. -/
def since (h : Nat) (run : List (PendingStep ω × PendingAnswer ω)) : List (PendingStep ω × PendingAnswer ω) :=
  (run.dropWhile fun e => !makes h e).tail

/-- The step that took the entry of a request: the first one after the insert that takes it. -/
def remover (run : List (PendingStep ω × PendingAnswer ω)) (id : UInt32) (o : ω) (h : Nat) :
    Option (PendingStep ω) :=
  ((since h run).map (·.1)).find? (·.takes id o h)

/-- What a run gave to the caller of a handle. -/
def outcomesOf (h : Nat) (run : List (PendingStep ω × PendingAnswer ω)) : List Outcome :=
  run.filterMap fun e => if leftHandle? e = some h then outcome? e else none

/-- A handle was read or given up. -/
def Left (run : List (PendingStep ω × PendingAnswer ω)) (h : Nat) : Prop := h ∈ run.filterMap leftHandle?

/-- A handle was given up. -/
def Dropped (run : List (PendingStep ω × PendingAnswer ω)) (h : Nat) : Prop := ∃ a, (.drop h, a) ∈ run

/-- A response was given to the request of an id, and its owner was told. -/
def completes (id : UInt32) : PendingStep ω × PendingAnswer ω → Bool
  | (.complete j _, .owner (some _)) => j = id
  | _ => false

/-! ## A run and one step more -/

theorem makes_iff : makes h e = true ↔ ∃ id o, e = (.insert id o, .handle h) := by
  obtain ⟨x, a⟩ := e
  constructor
  · intro hm
    cases x <;> cases a <;> first | cases hm | skip
    next id o k =>
      obtain rfl : k = h := of_decide_eq_true hm
      exact ⟨id, o, rfl⟩
  · rintro ⟨id, o, heq⟩
    cases heq
    exact decide_eq_true rfl

theorem made_snoc : Made (run ++ [e]) id o h ↔ Made run id o h ∨ e = (.insert id o, .handle h) := by
  simp [Made, eq_comm]

/-- A step that is no insert makes nothing. -/
theorem made_snoc_of (hx : x.insertedId? = none) : Made (run ++ [(x, a)]) id o h ↔ Made run id o h := by
  rw [made_snoc, or_iff_left]
  intro heq
  cases heq
  cases hx

theorem since_snoc (hm : Made run id o h) : since h (run ++ [e]) = since h run ++ [e] := by
  have hne : (run.dropWhile fun e => !makes h e) ≠ [] := by
    intro hnil
    have hall := List.dropWhile_eq_nil_iff.mp hnil _ hm
    rw [makes_iff.mpr ⟨id, o, rfl⟩] at hall
    cases hall
  unfold since
  rw [List.dropWhile_append, if_neg (by simpa using hne), List.tail_append_of_ne_nil hne]

/-- The first step that takes an entry stays the first one. -/
theorem remover_snoc (hm : Made run id o h) :
    remover (run ++ [e]) id o h = (remover run id o h).or (if e.1.takes id o h then some e.1 else none) := by
  unfold remover
  rw [since_snoc hm, List.map_append, List.find?_append]
  congr 1
  cases ht : e.1.takes id o h <;> simp [ht]

theorem remover_new (hnew : ∀ j w, ¬ Made run j w h) :
    remover (run ++ [(.insert id o, .handle h)]) id o h = none := by
  have hnil : (run.dropWhile fun e => !makes h e) = [] := by
    refine List.dropWhile_eq_nil_iff.mpr fun e he => ?_
    cases hmk : makes h e with
    | false => rfl
    | true =>
      obtain ⟨j, w, rfl⟩ := makes_iff.mp hmk
      exact absurd he (hnew j w)
  have hone : makes (ω := ω) h (.insert id o, .handle h) = true := makes_iff.mpr ⟨id, o, rfl⟩
  unfold remover since
  rw [List.dropWhile_append, hnil]
  simp [hone]

/-! ## Entries and their removers -/

/-- Something is on its way to a handle, or has come there. -/
def Tells (s : PendingRun ω) (h : Nat) (d : Delivery) : Prop :=
  (h, d) ∈ s.news ∨ d ≠ .awaited ∧ ∃ id, s.table.handles.get? h = some ⟨id, d⟩

/-- Requests have ids and handles of their own; the entry of a request is there until a step takes it, and what its
handle is told is what this step has for it. -/
structure Recorded (run : List (PendingStep ω × PendingAnswer ω)) (s : PendingRun ω) : Prop where
  sound : s.Sound
  made : ∀ h y, s.table.handles.get? h = some y → ∃ o, Made run y.requestId o h
  entered : ∀ id e, s.table.entries.get? id = some e → Made run id e.owner e.handle
  fresh : ∀ id o h, Made run id o h → h < s.table.nextHandle
  same : ∀ id o h j w, Made run id o h → Made run j w h → id = j ∧ o = w
  once : ∀ id o h w k, Made run id o h → Made run id w k → o = w ∧ h = k
  entry : ∀ id o h, Made run id o h → (s.table.entries.get? id = some ⟨h, o⟩ ↔ remover run id o h = none)
  news : ∀ id o h d, Made run id o h → s.Tells h d → ∃ x, remover run id o h = some x ∧ d = x.delivery

theorem recorded_empty : Recorded ([] : List (PendingStep ω × PendingAnswer ω)) empty where
  sound := sound_empty
  made _ _ h := nomatch h
  entered _ _ h := nomatch h
  fresh _ _ _ h := nomatch h
  same _ _ _ _ _ h := nomatch h
  once _ _ _ _ _ h := nomatch h
  entry _ _ _ h := nomatch h
  news _ _ _ _ h := nomatch h

theorem Recorded.advance (hr : Recorded run s) (hadv : Advances s x s') (hx : x.insertedId? = none) :
    Recorded (run ++ [(x, a)]) s' where
  sound := hadv.sound hr.sound
  made h y' hy' := by
    obtain ⟨y, hy, hid, -⟩ := hadv.handles h y' hy'
    obtain ⟨o, hm⟩ := hr.made h y hy
    exact ⟨o, (made_snoc_of hx).mpr (hid ▸ hm)⟩
  entered id e he := (made_snoc_of hx).mpr (hr.entered id e ((hadv.entries id e).mp he).1)
  fresh id o h hm := by
    rw [hadv.nextHandle]
    exact hr.fresh id o h ((made_snoc_of hx).mp hm)
  same id o h j w hm hm' := hr.same id o h j w ((made_snoc_of hx).mp hm) ((made_snoc_of hx).mp hm')
  once id o h w k hm hm' := hr.once id o h w k ((made_snoc_of hx).mp hm) ((made_snoc_of hx).mp hm')
  entry id o h hm := by
    have hm' := (made_snoc_of hx).mp hm
    rw [hadv.entries, hr.entry id o h hm', remover_snoc hm', Option.or_eq_none_iff]
    cases x.takes id o h <;> simp
  news id o h d hm ht := by
    have hm' := (made_snoc_of hx).mp hm
    have hold : s.Tells h d → ∃ x', remover (run ++ [(x, a)]) id o h = some x' ∧ d = x'.delivery := by
      intro ht
      obtain ⟨x', hx', hd⟩ := hr.news id o h d hm' ht
      exact ⟨x', by rw [remover_snoc hm', hx']; rfl, hd⟩
    rcases ht with hd | ⟨hne, j, hy'⟩
    · rcases hadv.news h d hd with hd | ⟨j, w, he, htakes, rfl⟩
      · exact hold (.inl hd)
      · -- The entry was there, so that no step before has taken it.
        obtain ⟨rfl, rfl⟩ := hr.same id o h j w hm' (hr.entered j _ he)
        have hnone := (hr.entry id o h hm').mp he
        exact ⟨x, by rw [remover_snoc hm', hnone, htakes]; rfl, rfl⟩
    · obtain ⟨y, hy, -, rfl | hd⟩ := hadv.handles h _ hy'
      · exact hold (.inr ⟨hne, j, hy⟩)
      · exact hold (.inl hd)

theorem Recorded.insert (hr : Recorded run s) (hnew : ∀ w k, ¬ Made run id w k) (o : ω) :
    Recorded (run ++ [(.insert id o, .handle s.table.nextHandle)]) { s with table := (s.table.insert id o).1 } := by
  have hid : ∀ h y, s.table.handles.get? h = some y → y.requestId ≠ id := by
    rintro h y hy rfl
    obtain ⟨w, hm⟩ := hr.made h y hy
    exact hnew w h hm
  obtain ⟨hentries, hhandles⟩ := insert_new hr.sound hid o
  have hcases {j : UInt32} {w : ω} {k : Nat}
      (hm : Made (run ++ [(.insert id o, .handle s.table.nextHandle)]) j w k) :
      Made run j w k ∨ j = id ∧ w = o ∧ k = s.table.nextHandle := by
    refine (made_snoc.mp hm).imp_right fun heq => ?_
    cases heq
    exact ⟨rfl, rfl, rfl⟩
  have hlast : Made (run ++ [(.insert id o, .handle s.table.nextHandle)]) id o s.table.nextHandle :=
    made_snoc.mpr (.inr rfl)
  have hfresh : ∀ j w, ¬ Made run j w s.table.nextHandle := fun j w hm => Nat.lt_irrefl _ (hr.fresh j w _ hm)
  refine ⟨hr.sound.insert hid o, fun h y hy => ?_, fun j e he => ?_, fun j w h hm => ?_, fun j w h j' w' hm hm' => ?_,
    fun j w h w' k hm hm' => ?_, fun j w h hm => ?_, fun j w h d hm ht => ?_⟩
  · rw [hhandles] at hy
    split at hy
    next hn =>
      cases hy
      exact ⟨o, hn ▸ hlast⟩
    next =>
      obtain ⟨w, hm⟩ := hr.made h y hy
      exact ⟨w, made_snoc.mpr (.inl hm)⟩
  · rw [hentries] at he
    split at he
    next hj =>
      cases he
      exact hj ▸ hlast
    next => exact made_snoc.mpr (.inl (hr.entered j e he))
  · show h < (s.table.insert id o).1.nextHandle
    rw [Pending.nextHandle_insert]
    rcases hcases hm with hm | ⟨-, -, rfl⟩
    · exact Nat.lt_succ_of_lt (hr.fresh j w h hm)
    · exact Nat.lt_succ_self _
  · rcases hcases hm with hm₁ | ⟨hj, hw, hh⟩ <;> rcases hcases hm' with hm₂ | ⟨hj', hw', hh'⟩
    · exact hr.same j w h j' w' hm₁ hm₂
    · exact absurd (hh' ▸ hm₁) (hfresh j w)
    · exact absurd (hh ▸ hm₂) (hfresh j' w')
    · exact ⟨hj.trans hj'.symm, hw.trans hw'.symm⟩
  · rcases hcases hm with hm₁ | ⟨hj, hw, hh⟩ <;> rcases hcases hm' with hm₂ | ⟨hj', hw', hh'⟩
    · exact hr.once j w h w' k hm₁ hm₂
    · exact absurd (hj' ▸ hm₁) (hnew w h)
    · exact absurd (hj ▸ hm₂) (hnew w' k)
    · exact ⟨hw.trans hw'.symm, hh.trans hh'.symm⟩
  · rw [hentries]
    rcases hcases hm with hm | ⟨rfl, rfl, rfl⟩
    · have hj : id ≠ j := by
        rintro rfl
        exact hnew w h hm
      rw [if_neg hj, hr.entry j w h hm, remover_snoc hm]
      simp [PendingStep.takes]
    · rw [if_pos rfl, remover_new hfresh]
      simp
  · rcases hcases hm with hm | ⟨rfl, rfl, rfl⟩
    · have hn : s.table.nextHandle ≠ h := Nat.ne_of_gt (hr.fresh j w h hm)
      have hold : s.Tells h d := by
        refine ht.imp_right ?_
        rintro ⟨hne, i, hi⟩
        rw [hhandles, if_neg hn] at hi
        exact ⟨hne, i, hi⟩
      obtain ⟨x, hx, hd⟩ := hr.news j w h d hm hold
      exact ⟨x, by rw [remover_snoc hm, hx]; rfl, hd⟩
    · -- There is nothing for a new handle yet.
      rcases ht with hd | ⟨hne, i, hi⟩
      · exact absurd (hr.sound.fresh _ (.inr ⟨d, hd⟩)) (Nat.lt_irrefl _)
      · rw [hhandles, if_pos rfl] at hi
        cases hi
        exact absurd rfl hne

/-- There is one entry for an id, that of its request. -/
theorem Recorded.entry_eq (hr : Recorded run s) (hm : Made run id o h) {e : PendingEntry ω}
    (he : s.table.entries.get? id = some e) : e = ⟨h, o⟩ := by
  obtain ⟨ho, hh⟩ := hr.once id o h e.owner e.handle hm (hr.entered id e he)
  rw [ho, hh]

/-! ## Outcomes and their removers -/

theorem left_snoc : Left (run ++ [e]) k ↔ Left run k ∨ leftHandle? e = some k := by
  unfold Left
  rw [List.filterMap_append, List.mem_append]
  refine or_congr_right ?_
  cases hl : leftHandle? e <;> simp [hl, eq_comm]

theorem mem_outcomesOf_snoc {out : Outcome} : out ∈ outcomesOf h (run ++ [e]) ↔
    out ∈ outcomesOf h run ∨ leftHandle? e = some h ∧ outcome? e = some out := by
  unfold outcomesOf
  rw [List.filterMap_append, List.mem_append]
  refine or_congr_right ?_
  by_cases hl : leftHandle? e = some h <;> simp [hl]

/-- A caller reads what the handle was told. -/
theorem read_eq_some {l : Option Late} {d : Delivery} {out : Outcome} (hread : read l d = some out) :
    d ≠ .awaited ∧ (∀ r, out = .ok r ↔ d = .response r) ∧
      ((∃ r, out = .ok r) ∨ out = .error .connectionClosed ∨ ∃ after, out = .error (.timeout after)) := by
  cases d with
  | awaited => cases hread
  | response r =>
    cases hread
    exact ⟨nofun, fun r' => by simp, .inl ⟨r, rfl⟩⟩
  | lost =>
    refine ⟨nofun, ?_⟩
    rcases l with _ | ⟨after⟩ | ⟨after⟩ <;> cases hread
    · exact ⟨fun r => ⟨nofun, nofun⟩, .inr (.inl rfl)⟩
    · exact ⟨fun r => ⟨nofun, nofun⟩, .inr (.inl rfl)⟩
    · exact ⟨fun r => ⟨nofun, nofun⟩, .inr (.inr ⟨after, rfl⟩)⟩

/-- A handle is there until it is read or dropped, once, and what it gives is a response if its remover had this
response. -/
structure Given (run : List (PendingStep ω × PendingAnswer ω)) (s : PendingRun ω) : Prop where
  fits : ∀ id o h out, Made run id o h → out ∈ outcomesOf h run →
    ∃ x, remover run id o h = some x ∧ ∀ r, out = .ok r ↔ x.delivery = .response r
  kind : ∀ h out, out ∈ outcomesOf h run →
    (∃ r, out = .ok r) ∨ out = .error .connectionClosed ∨ ∃ after, out = .error (.timeout after)
  here : ∀ id o h, Made run id o h → (s.table.handles.get? h = none ↔ Left run h)
  made : ∀ h, Left run h → ∃ id o, Made run id o h
  once : (run.filterMap leftHandle?).Nodup

theorem given_empty : Given ([] : List (PendingStep ω × PendingAnswer ω)) empty where
  fits _ _ _ _ h := nomatch h
  kind _ _ h := nomatch h
  here _ _ _ h := nomatch h
  made _ h := nomatch h
  once := List.nodup_nil

/-- What was given stays given. -/
theorem Given.fits_snoc (hg : Given run s) {out : Outcome} (hm : Made run id o h) (ho : out ∈ outcomesOf h run) :
    ∃ x, remover (run ++ [e]) id o h = some x ∧ ∀ r, out = .ok r ↔ x.delivery = .response r := by
  obtain ⟨x, hx, hfit⟩ := hg.fits id o h out hm ho
  exact ⟨x, by rw [remover_snoc hm, hx]; rfl, hfit⟩

theorem Given.quiet (hg : Given run s) (hx : x.insertedId? = none) (hadv : Advances s x s')
    (hleft : leftHandle? (x, a) = none) (hhere : ∀ k, s'.table.handles.get? k = none → s.table.handles.get? k = none) :
    Given (run ++ [(x, a)]) s' := by
  have hleft' (k : Nat) : Left (run ++ [(x, a)]) k ↔ Left run k := by
    rw [left_snoc, hleft, or_iff_left nofun]
  have houtcomes {k : Nat} {out : Outcome} (ho : out ∈ outcomesOf k (run ++ [(x, a)])) : out ∈ outcomesOf k run := by
    rw [mem_outcomesOf_snoc, hleft] at ho
    exact ho.resolve_right fun hn => nomatch hn.1
  refine ⟨fun id o h out hm ho => hg.fits_snoc ((made_snoc_of hx).mp hm) (houtcomes ho),
    fun h out ho => hg.kind h out (houtcomes ho), fun id o h hm => ?_, fun h hl => ?_, ?_⟩
  · rw [hleft', ← hg.here id o h ((made_snoc_of hx).mp hm)]
    refine ⟨hhere h, fun hnone => Option.eq_none_iff_forall_ne_some.mpr fun y' hy' => ?_⟩
    obtain ⟨y, hy, -⟩ := hadv.handles h y' hy'
    rw [hnone] at hy
    cases hy
  · obtain ⟨id, o, hm⟩ := hg.made h ((hleft' h).mp hl)
    exact ⟨id, o, (made_snoc_of hx).mpr hm⟩
  · rw [List.filterMap_append]
    simpa [hleft] using hg.once

theorem Given.left (hg : Given run s) (hr : Recorded run s) {y : Handle} (hx : x.insertedId? = none)
    (hleft : leftHandle? (x, a) = some h) (hy : s.table.handles.get? h = some y)
    (hgone : ∀ k, s'.table.handles.get? k = if h = k then none else s.table.handles.get? k)
    (hout : ∀ out, outcome? (x, a) = some out → (∃ l, read l y.delivery = some out) ∨
      (∃ w, s.table.entries.get? y.requestId = some ⟨h, w⟩) ∧ x = .look h ∧ ∃ after, out = .error (.timeout after)) :
    Given (run ++ [(x, a)]) s' := by
  have hnot : ¬ Left run h := by
    intro hl
    obtain ⟨id, o, hm⟩ := hg.made h hl
    rw [(hg.here id o h hm).mpr hl] at hy
    cases hy
  have hnew {k : Nat} {out : Outcome} (ho : out ∈ outcomesOf k (run ++ [(x, a)])) :
      out ∈ outcomesOf k run ∨ h = k ∧ outcome? (x, a) = some out := by
    rw [mem_outcomesOf_snoc, hleft, Option.some_inj] at ho
    exact ho
  refine ⟨fun id o k out hm ho => ?_, fun k out ho => ?_, fun id o k hm => ?_, fun k hl => ?_, ?_⟩
  · have hm' := (made_snoc_of hx).mp hm
    rcases hnew ho with hold | ⟨rfl, hnow⟩
    · exact hg.fits_snoc hm' hold
    · rcases hout out hnow with ⟨l, hread⟩ | ⟨⟨w, he⟩, rfl, after, rfl⟩
      · obtain ⟨hne, hfit, -⟩ := read_eq_some hread
        obtain ⟨x', hx', hd⟩ := hr.news id o h y.delivery hm' (.inr ⟨hne, y.requestId, hy⟩)
        exact ⟨x', by rw [remover_snoc hm', hx']; rfl, fun r => hd ▸ hfit r⟩
      · -- The entry was there, and this step has taken it.
        obtain ⟨rfl, rfl⟩ := hr.same id o h _ w hm' (hr.entered _ _ he)
        have hnone := (hr.entry _ _ h hm').mp he
        refine ⟨.look h, ?_, fun r => ⟨nofun, nofun⟩⟩
        rw [remover_snoc hm', hnone]
        simp [PendingStep.takes]
  · rcases hnew ho with hold | ⟨rfl, hnow⟩
    · exact hg.kind k out hold
    · rcases hout out hnow with ⟨l, hread⟩ | ⟨-, -, after, rfl⟩
      · exact (read_eq_some hread).2.2
      · exact .inr (.inr ⟨after, rfl⟩)
  · rw [left_snoc, hleft, hgone, Option.some_inj]
    by_cases hk : h = k
    · simp [hk]
    · simp only [hk, or_false, if_false]
      exact hg.here id o k ((made_snoc_of hx).mp hm)
  · rcases left_snoc.mp hl with hl | hl
    · obtain ⟨id, o, hm⟩ := hg.made k hl
      exact ⟨id, o, (made_snoc_of hx).mpr hm⟩
    · obtain rfl : h = k := Option.some_inj.mp (hleft.symm.trans hl)
      obtain ⟨o, hm⟩ := hr.made h y hy
      exact ⟨y.requestId, o, (made_snoc_of hx).mpr hm⟩
  · rw [List.filterMap_append, List.nodup_append]
    refine ⟨hg.once, by simp [hleft], fun k hk k' hk' heq => ?_⟩
    simp only [List.filterMap_cons, hleft, List.filterMap_nil, List.mem_singleton] at hk'
    exact hnot (hk' ▸ heq ▸ hk)

theorem Given.insert (hg : Given run s) (hr : Recorded run s) (hnew : ∀ w k, ¬ Made run id w k) (o : ω) :
    Given (run ++ [(.insert id o, .handle s.table.nextHandle)]) { s with table := (s.table.insert id o).1 } := by
  have hid : ∀ h y, s.table.handles.get? h = some y → y.requestId ≠ id := by
    rintro h y hy rfl
    obtain ⟨w, hm⟩ := hr.made h y hy
    exact hnew w h hm
  have hhandles := (insert_new hr.sound hid o).2
  have hleft (k : Nat) : Left (run ++ [(.insert id o, .handle s.table.nextHandle)]) k ↔ Left run k := by
    rw [left_snoc]
    exact or_iff_left nofun
  have hfresh : ¬ Left run s.table.nextHandle := by
    intro hl
    obtain ⟨j, w, hm⟩ := hg.made _ hl
    exact Nat.lt_irrefl _ (hr.fresh j w _ hm)
  have houtcomes {k : Nat} {out : Outcome}
      (ho : out ∈ outcomesOf k (run ++ [(.insert id o, .handle s.table.nextHandle)])) : out ∈ outcomesOf k run :=
    (mem_outcomesOf_snoc.mp ho).resolve_right fun hn => nomatch hn.1
  have hlost {k : Nat} {out : Outcome} (ho : out ∈ outcomesOf k run) : Left run k := by
    obtain ⟨e, he, hout⟩ := List.mem_filterMap.mp ho
    split at hout
    next hl => exact List.mem_filterMap.mpr ⟨e, he, hl⟩
    next => cases hout
  refine ⟨fun j w k out hm ho => ?_, fun k out ho => hg.kind k out (houtcomes ho), fun j w k hm => ?_,
    fun k hl => ?_, ?_⟩
  · rcases made_snoc.mp hm with hm | heq
    · exact hg.fits_snoc hm (houtcomes ho)
    · cases heq
      exact absurd (hlost (houtcomes ho)) hfresh
  · rw [hleft, hhandles]
    rcases made_snoc.mp hm with hm | heq
    · rw [if_neg (Nat.ne_of_gt (hr.fresh j w k hm))]
      exact hg.here j w k hm
    · cases heq
      simp [hfresh]
  · obtain ⟨j, w, hm⟩ := hg.made k ((hleft k).mp hl)
    exact ⟨j, w, made_snoc.mpr (.inl hm)⟩
  · rw [List.filterMap_append]
    exact (List.append_nil _).symm ▸ hg.once

/-! ## Responses and owners -/

/-- The owner is told when a response is given to a request that waits. -/
theorem entry_of_completes (hstep : s.step? x = some (s', a)) (hc : completes id (x, a) = true) :
    ∃ r h w, x = .complete id r ∧ a = .owner (some w) ∧ s.table.entries.get? id = some ⟨h, w⟩ := by
  cases x with
  | complete j r =>
    simp only [step?, Option.some.injEq, Prod.mk.injEq] at hstep
    obtain ⟨-, rfl⟩ := hstep
    have howner := take_owner s j (.response r)
    cases hw : (s.take j (.response r)).2 with
    | none =>
      rw [hw] at hc
      cases hc
    | some w =>
      rw [hw] at hc howner
      obtain rfl : j = id := of_decide_eq_true hc
      obtain ⟨e, he, rfl⟩ := Option.map_eq_some_iff.mp howner.symm
      exact ⟨r, e.handle, e.owner, rfl, rfl, he⟩
  | _ => cases a <;> cases hc

/-- A request is given a response once at most, and this is what takes its entry. -/
structure Completed (run : List (PendingStep ω × PendingAnswer ω)) (s : PendingRun ω) : Prop where
  count : ∀ id, run.countP (completes id) + (s.table.entries.get? id).isSome.toNat ≤ (insertedIds run).count id
  owner : ∀ id r o, (.complete id r, .owner (some o)) ∈ run →
    ∃ h, Made run id o h ∧ remover run id o h = some (.complete id r)

theorem completed_empty : Completed ([] : List (PendingStep ω × PendingAnswer ω)) empty :=
  ⟨fun _ => Nat.le_refl 0, fun _ _ _ h => nomatch h⟩

theorem count_of_advances {m n : Nat} (hold : m + (s.table.entries.get? id).isSome.toNat ≤ n)
    (hstep : s.step? x = some (s', a)) (hx : x.insertedId? = none) (hadv : Advances s x s') :
    m + (if completes id (x, a) then 1 else 0) + (s'.table.entries.get? id).isSome.toNat ≤
      n + if x.insertedId? = some id then 1 else 0 := by
  have hless : (s'.table.entries.get? id).isSome.toNat ≤ (s.table.entries.get? id).isSome.toNat := by
    cases he : s'.table.entries.get? id with
    | none => exact Nat.zero_le _
    | some e => rw [((hadv.entries id e).mp he).1]
  cases hc : completes id (x, a) with
  | false =>
    simp only [hx]
    simp
    omega
  | true =>
    obtain ⟨r, h, w, rfl, -, he⟩ := entry_of_completes hstep hc
    have hgone : s'.table.entries.get? id = none := by
      refine Option.eq_none_iff_forall_ne_some.mpr fun e he' => ?_
      have hkeep := ((hadv.entries id e).mp he').2
      simp [PendingStep.takes] at hkeep
    rw [he] at hold
    rw [hgone]
    simp only [hx]
    simp at hold ⊢
    omega

theorem Completed.step (hc : Completed run s) (hr : Recorded run s)
    (hstep : s.step? x = some (s', a)) (hmove : Move s x a s') : Completed (run ++ [(x, a)]) s' where
  count id := by
    have hold := hc.count id
    have hids : (insertedIds (run ++ [(x, a)])).count id =
        (insertedIds run).count id + if x.insertedId? = some id then 1 else 0 := by
      unfold insertedIds
      rw [List.filterMap_append, List.count_append]
      cases hx : x.insertedId? with
      | none => simp [hx]
      | some j => by_cases hj : j = id <;> simp [hx, hj]
    rw [List.countP_append, hids, List.countP_singleton]
    cases hmove with
    | inserted j o hx ha hs' =>
      subst hx ha hs'
      rw [Pending.entries_insert]
      by_cases hj : j = id <;> simp [hj, completes, PendingStep.insertedId?] <;> omega
    | quiet hx hadv => exact count_of_advances hold hstep hx hadv
    | left _ _ hx hadv => exact count_of_advances hold hstep hx hadv
  owner id r o hm := by
    rcases List.mem_append.mp hm with hm | hm
    · obtain ⟨h, hmade, hx⟩ := hc.owner id r o hm
      exact ⟨h, made_snoc.mpr (.inl hmade), by rw [remover_snoc hmade, hx]; rfl⟩
    · cases List.mem_singleton.mp hm
      have hcompletes : completes id (PendingStep.complete id r, PendingAnswer.owner (some o)) = true := by
        simp [completes]
      obtain ⟨r', h, w, hx, ha, he⟩ := entry_of_completes hstep hcompletes
      cases hx
      cases ha
      have hmade := hr.entered id _ he
      have hnone := (hr.entry id o h hmade).mp he
      exact ⟨h, made_snoc.mpr (.inl hmade), by rw [remover_snoc hmade, hnone]; simp [PendingStep.takes]⟩

/-! ## Whole runs -/

/-- All that is kept on a run on which no id is used twice. -/
structure Ledger (run : List (PendingStep ω × PendingAnswer ω)) (s : PendingRun ω) : Prop where
  recorded : Recorded run s
  given : Given run s
  completed : Completed run s

theorem Ledger.step (hl : Ledger run s) (hids : (insertedIds (run ++ [(x, a)])).Nodup)
    (hstep : s.step? x = some (s', a)) : Ledger (run ++ [(x, a)]) s' := by
  have hmove := move_of_step hl.recorded.sound hstep
  have hkept : Recorded (run ++ [(x, a)]) s' ∧ Given (run ++ [(x, a)]) s' := by
    cases hmove with
    | inserted id o hx ha hs' =>
      subst hx ha hs'
      have hnew : ∀ w k, ¬ Made run id w k := by
        intro w k hm
        have hmem : id ∈ insertedIds run := List.mem_filterMap.mpr ⟨_, hm, rfl⟩
        unfold insertedIds at hids hmem
        rw [List.filterMap_append] at hids
        exact (List.nodup_append.mp hids).2.2 id hmem id (List.mem_singleton_self id) rfl
      exact ⟨hl.recorded.insert hnew o, hl.given.insert hl.recorded hnew o⟩
    | quiet hx hadv hleft _ hhere => exact ⟨hl.recorded.advance hadv hx, hl.given.quiet hx hadv hleft hhere⟩
    | left h y hx hadv hleft hy hgone hout =>
      exact ⟨hl.recorded.advance hadv hx, hl.given.left hl.recorded hx hleft hy hgone hout⟩
  exact ⟨hkept.1, hkept.2, hl.completed.step hl.recorded hstep hmove⟩

theorem ledger_of_reaches {more : List (PendingStep ω × PendingAnswer ω)} (hl : Ledger run s)
    (h : Reaches s more s') (hids : (insertedIds (run ++ more)).Nodup) : Ledger (run ++ more) s' := by
  induction h generalizing run with
  | refl => exact (List.append_nil run).symm ▸ hl
  | @next s t u x a more hstep _ ih =>
    have hsplit : run ++ (x, a) :: more = run ++ [(x, a)] ++ more := by simp
    rw [hsplit] at hids ⊢
    refine ih (hl.step ?_ hstep) hids
    unfold insertedIds at hids ⊢
    rw [List.filterMap_append] at hids
    exact (List.nodup_append.mp hids).1

/-! ## Responses can be read -/

/-- A step that brings news, or that the caller of a handle takes. -/
def helps (h : Nat) : PendingStep ω → Prop
  | .tell _ => True
  | .poll k | .look k => k = h
  | _ => False

/-- A caller whose handle holds a response reads it, even if its time is up. -/
theorem can_poll {r : Response} (hy : s.table.handles.get? h = some ⟨id, .response r⟩)
    (he : s.table.entries.get? id = none) :
    ∃ more s', Reaches s more s' ∧ (∀ e ∈ more, helps h e.1) ∧ outcomesOf h more = [.ok r] := by
  have hpoll (l : Option Late) (hl : s.late.get? h = l) (hnot : ∀ after, l ≠ some (.looking after)) :
      s.step? (.poll h) = some (s.leave h, .outcome (some (.ok r))) := by
    rcases l with _ | ⟨after⟩ | ⟨after⟩
    · simp only [step?, hy, hl, read]
    · exact absurd rfl (hnot after)
    · simp only [step?, hy, hl, read]
  by_cases hlook : ∃ after, s.late.get? h = some (.looking after)
  · obtain ⟨after, hl⟩ := hlook
    have howner := Pending.settle_owner s.table id .lost
    rw [he] at howner
    have hstep : s.step? (.look h) =
        some ({ s with late := s.late.set h (.outrun after) }, .outcome none) := by
      simp only [step?, hy, hl, Pending.remove]
      split
      next hremove => rw [hremove] at howner; cases howner
      next => rfl
    have hpoll' : ({ s with late := s.late.set h (.outrun after) } : PendingRun ω).step? (.poll h) =
        some (({ s with late := s.late.set h (.outrun after) } : PendingRun ω).leave h, .outcome (some (.ok r))) := by
      have hl' : (s.late.set h (.outrun after)).get? h = some (.outrun after) := by rw [Table.get?_set, if_pos rfl]
      simp only [step?, hy, hl', read]
    exact ⟨_, _, .next hstep (.next hpoll' (.refl _)), by simp [helps], by simp [outcomesOf, leftHandle?, outcome?]⟩
  · exact ⟨_, _, .next (hpoll _ rfl fun after hl => hlook ⟨after, hl⟩) (.refl _), by simp [helps],
      by simp [outcomesOf, leftHandle?, outcome?]⟩

/-- A handle that is left is dropped, or gives something. -/
theorem outcome_of_left (hleft : leftHandle? (x, a) = some h) : x = .drop h ∨ ∃ out, outcome? (x, a) = some out := by
  unfold leftHandle? at hleft
  split at hleft
  next heq =>
    cases heq
    cases hleft
    exact .inl rfl
  next out heq =>
    cases heq
    exact .inr ⟨out, rfl⟩
  next out heq =>
    cases heq
    exact .inr ⟨out, rfl⟩
  next => cases hleft

theorem outcomesOf_of_not_left (hleft : ¬ Left run h) : outcomesOf h run = [] :=
  List.filterMap_eq_nil_iff.mpr fun e he => if_neg fun hl => hleft (List.mem_filterMap.mpr ⟨e, he, hl⟩)

/-- **A response that was given to a request is read**, or can still be read, unless the handle is dropped. -/
theorem can_read {r : Response} (hl : Ledger run s) (hm : Made run id o h)
    (hrem : remover run id o h = some (.complete id r)) (hd : ¬ Dropped run h) :
    .ok r ∈ outcomesOf h run ∨
      ∃ more s', Reaches s more s' ∧ (∀ e ∈ more, helps h e.1) ∧ outcomesOf h (run ++ more) = [.ok r] := by
  by_cases hleft : Left run h
  · refine .inl ?_
    obtain ⟨⟨x, a⟩, he, hlh⟩ := List.mem_filterMap.mp hleft
    rcases outcome_of_left hlh with rfl | ⟨out, hout⟩
    · exact absurd ⟨a, he⟩ hd
    · have hmem : out ∈ outcomesOf h run := List.mem_filterMap.mpr ⟨_, he, by rw [if_pos hlh, hout]⟩
      obtain ⟨x', hx', hfit⟩ := hl.given.fits id o h out hm hmem
      cases hrem.symm.trans hx'
      exact (hfit r).mpr rfl ▸ hmem
  · refine .inr ?_
    have houtcomes (more : List (PendingStep ω × PendingAnswer ω)) :
        outcomesOf h (run ++ more) = outcomesOf h more := by
      show List.filterMap _ (run ++ more) = _
      rw [List.filterMap_append]
      exact congrArg (· ++ _) (outcomesOf_of_not_left hleft)
    have hnone : s.table.entries.get? id = none := by
      refine Option.eq_none_iff_forall_ne_some.mpr fun e he => ?_
      have hentry := (hl.recorded.entry id o h hm).mp (hl.recorded.entry_eq hm he ▸ he)
      rw [hrem] at hentry
      cases hentry
    have hdelivery {d : Delivery} (ht : s.Tells h d) : d = .response r := by
      obtain ⟨x, hx, hd⟩ := hl.recorded.news id o h d hm ht
      cases hrem.symm.trans hx
      exact hd
    obtain ⟨⟨j, d⟩, hy⟩ := Option.ne_none_iff_exists'.mp fun hn => hleft ((hl.given.here id o h hm).mp hn)
    obtain ⟨w, hm'⟩ := hl.recorded.made h _ hy
    obtain ⟨rfl, -⟩ := hl.recorded.same id o h j w hm hm'
    by_cases hawaited : d = .awaited
    · -- The response is on its way.
      subst hawaited
      obtain ⟨w, hw⟩ | ⟨d, hd⟩ := hl.recorded.sound.pending h id hy
      · rw [hnone] at hw
        cases hw
      obtain rfl := hdelivery (.inl hd)
      obtain ⟨k, hk⟩ := List.getElem?_of_mem hd
      have hstep : s.step? (.tell k) =
          some ({ s with table := s.table.deliver h (.response r), news := s.news.eraseIdx k }, .done) := by
        simp only [step?, hk]
      have hhandle : (s.table.deliver h (.response r)).handles.get? h = some ⟨id, .response r⟩ := by
        refine (Table.get?_modify s.table.handles h h (·.told (.response r))).trans ?_
        rw [if_pos rfl, hy]
        rfl
      obtain ⟨more, s', hreach, hhelps, hout⟩ :=
        can_poll (s := { s with table := s.table.deliver h (.response r), news := s.news.eraseIdx k }) hhandle hnone
      refine ⟨_, s', .next hstep hreach, fun e he => ?_, by rw [houtcomes]; exact hout⟩
      rcases List.mem_cons.mp he with rfl | he
      · trivial
      · exact hhelps e he
    · obtain rfl := hdelivery (.inr ⟨hawaited, id, hy⟩)
      obtain ⟨more, s', hreach, hhelps, hout⟩ := can_poll hy hnone
      exact ⟨more, s', hreach, hhelps, by rw [houtcomes]; exact hout⟩

/-! ## Handles that are read or dropped -/

/-- A handle gives one outcome at most. -/
theorem length_outcomesOf_le (hg : Given run s) (h : Nat) : (outcomesOf h run).length ≤ 1 := by
  have hle : (outcomesOf h run).length ≤ (run.filterMap leftHandle?).count h := by
    unfold outcomesOf
    generalize run = l
    induction l with
    | nil => exact Nat.le_refl 0
    | cons e l ih =>
      cases hle : leftHandle? e with
      | none => simpa [List.filterMap_cons, hle] using ih
      | some k =>
        by_cases hk : k = h
        · cases ho : outcome? e <;> simp [hle, hk, ho] <;> omega
        · simpa [List.filterMap_cons, hle, hk, List.count_cons] using ih
  exact Nat.le_trans hle (List.nodup_iff_count_le_one.mp hg.once h)

/-- A handle is left once. -/
theorem eq_of_left {e e' : PendingStep ω × PendingAnswer ω} (hd : (run.filterMap leftHandle?).Nodup) (he : e ∈ run)
    (he' : e' ∈ run) (hl : leftHandle? e = some h) (hl' : leftHandle? e' = some h) : e = e' := by
  induction run with
  | nil => cases he
  | cons f run ih =>
    have hlater {e : PendingStep ω × PendingAnswer ω} (he : e ∈ run) (hl : leftHandle? e = some h) :
        leftHandle? f ≠ some h := by
      intro hf
      rw [List.filterMap_cons, hf, List.nodup_cons] at hd
      exact hd.1 (List.mem_filterMap.mpr ⟨e, he, hl⟩)
    rcases List.mem_cons.mp he with heq | hmem <;> rcases List.mem_cons.mp he' with heq' | hmem'
    · exact heq.trans heq'.symm
    · exact absurd (heq ▸ hl) (hlater hmem' hl')
    · exact absurd (heq' ▸ hl') (hlater hmem hl)
    · refine ih ?_ hmem hmem'
      rw [List.filterMap_cons] at hd
      split at hd
      · exact hd
      · exact (List.nodup_cons.mp hd).2

/-- A handle that gives something is not dropped. -/
theorem not_dropped_of_outcome (hg : Given run s) {out : Outcome} (ho : out ∈ outcomesOf h run) :
    ¬ Dropped run h := by
  rintro ⟨a, hdrop⟩
  obtain ⟨e, he, hout⟩ := List.mem_filterMap.mp ho
  split at hout
  next hl =>
    obtain rfl := eq_of_left hg.once he hdrop hl rfl
    cases hout
  next => cases hout

/-- The entries of certain owners are taken, and counted. -/
theorem step_removeOwnedBy (hs : s.Sound) (p : ω → Bool) :
    ∃ s', s.step? (.removeOwnedBy p) = some (s', .count (s.table.entries.filter fun _ e => p e.owner).size) ∧
      ∀ id e, s'.table.entries.get? id = some e ↔ s.table.entries.get? id = some e ∧ p e.owner = false := by
  have hcount : (s.table.ownedBy p).length = (s.table.entries.filter fun _ e => p e.owner).size :=
    List.length_map _
  have hstep : s.step? (.removeOwnedBy p) =
      some (s.takeAll (s.table.ownedBy p) .lost, .count (s.table.ownedBy p).length) := rfl
  rw [hcount] at hstep
  refine ⟨_, hstep, fun id e => ?_⟩
  cases move_of_step hs hstep with
  | inserted id o hx => cases hx
  | quiet _ hadv => exact hadv.entries id e
  | left _ _ _ hadv => exact hadv.entries id e

/-- When all handles are left, nothing waits. -/
theorem size_of_left (hl : Ledger run s) (hall : ∀ id o h, Made run id o h → Left run h) : s.table.size = 0 := by
  refine List.length_eq_zero_iff.mpr (List.eq_nil_iff_forall_not_mem.mpr fun ⟨id, e⟩ hmem => ?_)
  have he := (Table.mem_entries_iff hl.recorded.sound.distinct).mp hmem
  have hm := hl.recorded.entered id e he
  have hnone := (hl.given.here id _ _ hm).mpr (hall id _ _ hm)
  rw [hl.recorded.sound.waits id e he] at hnone
  cases hnone

/-- A remover that had a response completed the request with it. -/
theorem eq_complete_of_delivery {r : Response} (hx : remover run id o h = some x) (hd : x.delivery = .response r) :
    x = .complete id r := by
  have htakes := List.find?_some hx
  cases x with
  | complete j r' =>
    obtain rfl : j = id := of_decide_eq_true htakes
    cases hd
    rfl
  | _ => cases hd

/-- The entries of a run. -/
theorem contains_iff (hr : Recorded run s) (id : UInt32) :
    s.table.contains id = true ↔ ∃ o h, Made run id o h ∧ remover run id o h = none := by
  rw [Pending.contains, Table.contains, Option.isSome_iff_exists]
  constructor
  · rintro ⟨e, he⟩
    have hm := hr.entered id e he
    exact ⟨e.owner, e.handle, hm, (hr.entry id _ _ hm).mp he⟩
  · rintro ⟨o, h, hm, hnone⟩
    exact ⟨⟨h, o⟩, (hr.entry id o h hm).mpr hnone⟩

/-- **One outcome for each request**, on every run on which no id is used twice. An id waits from its insert until the
first step that takes its entry; a response goes to a request once at most, and its owner is told. A handle gives one
outcome at most: the response by which its request was completed, if it is not dropped before, and no response only if
something else took the entry. The requests of certain owners are taken together and counted. When all handles are read
or dropped, nothing waits. -/
theorem one_outcome (hreach : Reaches empty run s) (hids : (insertedIds run).Nodup) :
    (∀ id, s.table.contains id = true ↔ ∃ o h, Made run id o h ∧ remover run id o h = none) ∧
    (∀ id, run.countP (completes id) ≤ (insertedIds run).count id) ∧
    (∀ id r o, (.complete id r, .owner (some o)) ∈ run →
      ∃ h, Made run id o h ∧ remover run id o h = some (.complete id r)) ∧
    (∀ id o h, Made run id o h →
      (outcomesOf h run).length ≤ 1 ∧
      (∀ r, .ok r ∈ outcomesOf h run → remover run id o h = some (.complete id r) ∧ ¬ Dropped run h) ∧
      (∀ r, remover run id o h = some (.complete id r) → ¬ Dropped run h → .ok r ∈ outcomesOf h run ∨
        ∃ more s', Reaches s more s' ∧ (∀ e ∈ more, helps h e.1) ∧ outcomesOf h (run ++ more) = [.ok r]) ∧
      ∀ err, .error err ∈ outcomesOf h run → (err = .connectionClosed ∨ ∃ after, err = .timeout after) ∧
        ∃ x, remover run id o h = some x ∧ ∀ r, x ≠ .complete id r) ∧
    (∀ p, ∃ s', s.step? (.removeOwnedBy p) =
        some (s', .count (s.table.entries.filter fun _ e => p e.owner).size) ∧
      ∀ id e, s'.table.entries.get? id = some e ↔ s.table.entries.get? id = some e ∧ p e.owner = false) ∧
    ((∀ id o h, Made run id o h → Left run h) → s.table.size = 0) := by
  have hl : Ledger run s := ledger_of_reaches ⟨recorded_empty, given_empty, completed_empty⟩ hreach hids
  refine ⟨contains_iff hl.recorded, fun id => Nat.le_trans (Nat.le_add_right _ _) (hl.completed.count id),
    hl.completed.owner, fun id o h hm => ⟨length_outcomesOf_le hl.given h, fun r hr => ?_,
      fun r hrem hd => can_read hl hm hrem hd, fun err herr => ?_⟩,
    step_removeOwnedBy hl.recorded.sound, size_of_left hl⟩
  · obtain ⟨x, hx, hfit⟩ := hl.given.fits id o h _ hm hr
    exact ⟨eq_complete_of_delivery hx ((hfit r).mp rfl) ▸ hx, not_dropped_of_outcome hl.given hr⟩
  · refine ⟨?_, ?_⟩
    · rcases hl.given.kind h _ herr with ⟨r, hr⟩ | hr | ⟨after, hr⟩
      · cases hr
      · cases hr
        exact .inl rfl
      · cases hr
        exact .inr ⟨after, rfl⟩
    · obtain ⟨x, hx, hfit⟩ := hl.given.fits id o h _ hm herr
      refine ⟨x, hx, fun r heq => ?_⟩
      have hok := (hfit r).mpr (by rw [heq]; rfl)
      cases hok

/-- A response that is given to its request when the time of the caller is up, but before the caller looks into the
table; another request is lost with its connection, and a third one is given up. -/
def lateRun : List (PendingStep Nat × PendingAnswer Nat) :=
  [(.insert 7 0, .handle 0), (.insert 8 1, .handle 1), (.insert 9 0, .handle 2), (.timeUp 0 5, .done),
    (.complete 7 (.ok 7 .null), .owner (some 0)), (.look 0, .outcome none), (.removeOwnedBy (· == 1), .count 1),
    (.drop 2, .done), (.tell 1, .done), (.tell 0, .done), (.poll 1, .outcome (some (.error .connectionClosed))),
    (.complete 7 (.ok 7 .null), .owner none), (.poll 0, .outcome (some (.ok (.ok 7 .null))))]

theorem one_outcome_late :
    ∃ s, Reaches empty lateRun s ∧ (insertedIds lateRun).Nodup ∧ s.table.size = 0 ∧
      remover lateRun 7 0 0 = some (.complete 7 (.ok 7 .null)) ∧ ¬ Dropped lateRun 0 ∧
      ∃ x, remover lateRun 8 1 1 = some x ∧ ∀ r, x ≠ .complete 8 r := by
  have hreach : ∃ s, Reaches empty lateRun s :=
    ⟨_, .next rfl (.next rfl (.next rfl (.next rfl (.next rfl (.next rfl (.next rfl (.next rfl (.next rfl (.next rfl
      (.next rfl (.next rfl (.next rfl (.refl _)))))))))))))⟩
  obtain ⟨s, hreach⟩ := hreach
  have hids : (insertedIds lateRun).Nodup := by simp [insertedIds, lateRun, PendingStep.insertedId?]
  obtain ⟨-, -, -, hhandles, -, hempty⟩ := one_outcome hreach hids
  have hok := (hhandles 7 0 0 (by simp [Made, lateRun])).2.1 (.ok 7 .null)
    (by simp [outcomesOf, lateRun, leftHandle?, outcome?])
  have hlost := (hhandles 8 1 1 (by simp [Made, lateRun])).2.2.2 .connectionClosed
    (by simp [outcomesOf, lateRun, leftHandle?, outcome?])
  refine ⟨s, hreach, hids, hempty fun id o h hm => ?_, hok.1, hok.2, hlost.2⟩
  simp only [Made, lateRun, List.mem_cons, Prod.mk.injEq, PendingStep.insert.injEq, PendingAnswer.handle.injEq,
    reduceCtorEq, and_false, or_false, List.not_mem_nil] at hm
  rcases hm with ⟨-, rfl⟩ | ⟨-, rfl⟩ | ⟨-, rfl⟩ <;> simp [Left, lateRun, leftHandle?]

end PendingRun

end Rpc
