import Rpc.Proofs.Client.Taking

/-!
# Ids that are used again

What becomes of waiting requests when ids are used at will.

- `PendingStep.clears`, `PendingRun.Ends`: what may end a request that waits;
- `PendingRun.Change`: all that a step can do to entries and to the ids of handles (`change_of_step`);
- `PendingRun.Later`: the entry of a request is there until something ends it or a handle is left that had its id
  before (`Later.step`);
- `PendingRun.own_entry_unless_held`: a handle gives up no request but its own, as long as no id is used again while
  an older handle has it.
-/

namespace Rpc

namespace PendingStep

variable {ω : Type}

/-- The step takes the entry of an id with an owner, whoever waits for it. -/
def clears (id : UInt32) (owner : ω) : PendingStep ω → Bool
  | .complete j _ | .remove j => j = id
  | .removeOwnedBy p => p owner
  | .clear => true
  | _ => false

/-- The handle of the caller who takes the step, if a caller does. -/
def caller? : PendingStep ω → Option Nat
  | .poll h | .timeUp h _ | .look h | .drop h => some h
  | _ => none

/-- What a caller does is no insert. -/
theorem insertedId?_of_caller {x : PendingStep ω} {h : Nat} (hx : x.caller? = some h) : x.insertedId? = none := by
  cases x <;> first | rfl | cases hx

/-- A caller takes no entry whoever waits for it. -/
theorem clears_of_caller {x : PendingStep ω} {h : Nat} (hx : x.caller? = some h) (id : UInt32) (o : ω) :
    x.clears id o = false := by
  cases x <;> first | rfl | cases hx

end PendingStep

/-! ## The ids of handles -/

namespace Pending

variable {ω : Type} {t t' : Pending ω} {h : Nat} {id : UInt32}

theorem requestId?_settle (t : Pending ω) (id : UInt32) (d : Delivery) (k : Nat) :
    (t.settle id d).1.requestId? k = t.requestId? k := by
  unfold requestId?
  rw [handles_settle]
  split
  · rw [Option.map_map]
    rfl
  · rfl

theorem requestId?_insert (t : Pending ω) (id : UInt32) (o : ω) (k : Nat) :
    (t.insert id o).1.requestId? k = if t.nextHandle = k then some id else t.requestId? k := by
  have hold := requestId?_settle t id .lost k
  unfold requestId? at hold ⊢
  rw [handles_insert]
  split
  · rfl
  · exact hold

theorem requestId?_deliver (t : Pending ω) (h : Nat) (d : Delivery) (k : Nat) :
    (t.deliver h d).requestId? k = t.requestId? k := by
  unfold requestId?
  rw [show (t.deliver h d).handles.get? k = _ from Table.get?_modify t.handles h k (·.told d)]
  split
  · rw [Option.map_map]
    rfl
  · rfl

theorem requestId?_drop (t : Pending ω) (h k : Nat) :
    (t.drop h).requestId? k = if h = k then none else t.requestId? k := by
  cases hx : t.handles.get? h with
  | none =>
    rw [drop_of_none hx]
    split
    next hk => rw [← hk, requestId?, hx]; rfl
    next => rfl
  | some x =>
    rw [drop_of_some hx, remove, requestId?_settle, requestId?, Table.get?_erase]
    split <;> rfl

/-- A handle with an id has gone, and whatever entry had the id. -/
structure GivenUp (t t' : Pending ω) (h : Nat) (id : UInt32) : Prop where
  entries : ∀ j, t'.entries.get? j = if id = j then none else t.entries.get? j
  ids : ∀ k, t'.requestId? k = if h = k then none else t.requestId? k
  nextHandle : t'.nextHandle = t.nextHandle
  distinct : t.entries.keys.Nodup → t'.entries.keys.Nodup

theorem givenUp_drop {x : Handle} (hx : t.handles.get? h = some x) : GivenUp t (t.drop h) h x.requestId where
  entries := entries_drop hx
  ids := requestId?_drop t h
  nextHandle := nextHandle_drop t h
  distinct hd := by
    rw [drop_of_some hx]
    exact nodup_settle (t := { t with handles := t.handles.erase h }) hd _ _

/-- It makes no difference whether the entry is taken first. -/
theorem givenUp_remove_drop {x : Handle} (hx : t.handles.get? h = some x) :
    GivenUp t ((t.remove x.requestId).1.drop h) h x.requestId := by
  have hid : (t.remove x.requestId).1.requestId? h = some x.requestId := by
    rw [remove, requestId?_settle, requestId?, hx]
    rfl
  obtain ⟨y, hy, hyx⟩ := Option.map_eq_some_iff.mp hid
  have hgone := givenUp_drop hy
  rw [hyx] at hgone
  refine ⟨fun j => ?_, fun k => ?_, hgone.nextHandle.trans (nextHandle_settle t _ _),
    fun hd => hgone.distinct (nodup_settle hd _ _)⟩
  · rw [hgone.entries, remove, entries_settle]
    split <;> rfl
  · rw [hgone.ids, remove, requestId?_settle]

end Pending

namespace PendingRun

variable {ω : Type} {s s' : PendingRun ω} {x : PendingStep ω} {a : PendingAnswer ω}
  {e : PendingStep ω × PendingAnswer ω} {id : UInt32} {o : ω} {h : Nat}

/-! ## One step -/

/-- What a step does to entries and to the ids of handles. -/
inductive Change (s : PendingRun ω) (x : PendingStep ω) (a : PendingAnswer ω) (s' : PendingRun ω) : Prop
  | inserted (id : UInt32) (o : ω) (hx : x = .insert id o) (ha : a = .handle s.table.nextHandle)
      (hs' : s' = { s with table := (s.table.insert id o).1 })
  | cleared (hx : x.insertedId? = none) (hleft : leftHandle? (x, a) = none)
      (hentries : ∀ j e, s'.table.entries.get? j = some e ↔
        s.table.entries.get? j = some e ∧ x.clears j e.owner = false)
      (hids : ∀ k, s'.table.requestId? k = s.table.requestId? k)
      (hnext : s'.table.nextHandle = s.table.nextHandle) (hdistinct : s'.table.entries.keys.Nodup)
  | left (h : Nat) (id : UInt32) (hx : x.caller? = some h) (hleft : leftHandle? (x, a) = some h)
      (hid : s.table.requestId? h = some id) (hgone : s.table.GivenUp s'.table h id)

/-- A step that takes no entries and changes no handle. -/
theorem change_of_same (hd : s.table.entries.keys.Nodup) (hx : x.insertedId? = none)
    (hleft : leftHandle? (x, a) = none) (htable : s'.table = s.table)
    (hclears : ∀ j o, x.clears j o = false) : Change s x a s' :=
  .cleared hx hleft (fun j e => by simp [htable, hclears]) (fun k => by rw [htable]) (by rw [htable])
    (htable ▸ hd)

/-- A step that takes the entries of some ids. -/
theorem change_takeAll (hd : s.table.entries.keys.Nodup) (hx : x.insertedId? = none)
    (hleft : leftHandle? (x, a) = none) (ids : List UInt32) (d : Delivery)
    (hclears : ∀ j e, s.table.entries.get? j = some e → (x.clears j e.owner = true ↔ j ∈ ids)) :
    Change s x a (s.takeAll ids d) := by
  obtain ⟨hhandles, hnext⟩ := handles_takeAll s ids d
  refine .cleared hx hleft (fun j e => ?_) (fun k => by rw [Pending.requestId?, hhandles]; rfl) hnext
    (nodup_takeAll hd ids d)
  rw [entries_takeAll, ← Bool.not_eq_true]
  split
  next hj =>
    constructor
    · rintro ⟨⟩
    · rintro ⟨he, hnot⟩
      exact absurd ((hclears j e he).mpr hj) hnot
  next hj => exact ⟨fun he => ⟨he, fun ht => hj ((hclears j e he).mp ht)⟩, And.left⟩

theorem change_of_step (hd : s.table.entries.keys.Nodup) (h : s.step? x = some (s', a)) : Change s x a s' := by
  cases x with
  | insert id o =>
    cases h
    exact .inserted id o rfl (congrArg _ (Pending.insert_handle _ id o)) rfl
  | complete id r =>
    cases h
    exact change_takeAll hd rfl rfl [id] (.response r) fun j e _ => by simp [PendingStep.clears, eq_comm]
  | remove id =>
    cases h
    exact change_takeAll hd rfl rfl [id] .lost fun j e _ => by simp [PendingStep.clears, eq_comm]
  | removeOwnedBy p =>
    cases h
    refine change_takeAll hd rfl rfl _ .lost fun j e he => ?_
    rw [Pending.mem_ownedBy hd, he]
    simp [PendingStep.clears]
  | clear =>
    cases h
    refine change_takeAll hd rfl rfl _ .lost fun j e he => ?_
    exact ⟨fun _ => List.mem_map.mpr ⟨(j, e), Table.mem_of_find he, rfl⟩, fun _ => rfl⟩
  | contains id =>
    cases h
    exact change_of_same hd rfl rfl rfl fun _ _ => rfl
  | tell k =>
    simp only [step?] at h
    split at h
    · cases h
    next k' d hk =>
      cases h
      exact .cleared rfl rfl (fun j e => by simp [PendingStep.clears, Pending.deliver])
        (Pending.requestId?_deliver s.table k' d) rfl hd
  | poll k =>
    simp only [step?] at h
    split at h
    · cases h
    · cases h
    next l y hy _ =>
      split at h
      next =>
        cases h
        exact change_of_same hd rfl rfl rfl fun _ _ => rfl
      next out _ =>
        cases h
        exact .left k y.requestId rfl rfl (by rw [Pending.requestId?, hy]; rfl) (Pending.givenUp_drop hy)
  | timeUp k after =>
    simp only [step?] at h
    split at h
    · cases h
      exact change_of_same hd rfl rfl rfl fun _ _ => rfl
    · cases h
  | look k =>
    simp only [step?] at h
    split at h
    next y after hy hl =>
      split at h
      next t w hremove =>
        cases h
        have hgone := Pending.givenUp_remove_drop hy
        rw [hremove] at hgone
        exact .left k y.requestId rfl rfl (by rw [Pending.requestId?, hy]; rfl) hgone
      next =>
        cases h
        exact change_of_same hd rfl rfl rfl fun _ _ => rfl
    · cases h
  | drop k =>
    simp only [step?, Option.map_eq_some_iff] at h
    obtain ⟨y, hy, heq⟩ := h
    cases heq
    exact .left k y.requestId rfl rfl (by rw [Pending.requestId?, hy]; rfl) (Pending.givenUp_drop hy)

/-- Only a caller who has a handle can do something with it. -/
theorem exists_id_of_caller (hstep : s.step? x = some (s', a)) (hx : x.caller? = some h) :
    ∃ id, s.table.requestId? h = some id := by
  cases hy : s.table.handles.get? h with
  | some y => exact ⟨y.requestId, by rw [Pending.requestId?, hy]; rfl⟩
  | none => cases x <;> cases hx <;> simp [step?, hy] at hstep

/-! ## States that runs lead to -/

/-- No id waits twice, and the handles to come are new. -/
structure Numbered (s : PendingRun ω) : Prop where
  distinct : s.table.entries.keys.Nodup
  fresh : ∀ h id, s.table.requestId? h = some id → h < s.table.nextHandle

theorem numbered_empty : (empty : PendingRun ω).Numbered := ⟨List.Pairwise.nil, fun _ _ h => nomatch h⟩

theorem Numbered.step (hs : s.Numbered) (h : s.step? x = some (s', a)) : s'.Numbered := by
  cases change_of_step hs.distinct h with
  | inserted id o hx ha hs' =>
    subst hs'
    refine ⟨Table.nodup_keys_set (Pending.nodup_settle hs.distinct _ _) id _, fun k j hk => ?_⟩
    show k < (s.table.insert id o).1.nextHandle
    rw [Pending.nextHandle_insert]
    rw [Pending.requestId?_insert] at hk
    split at hk
    next hn => exact hn ▸ Nat.lt_succ_self _
    next => exact Nat.lt_succ_of_lt (hs.fresh k j hk)
  | cleared _ _ _ hids hnext hdistinct =>
    exact ⟨hdistinct, fun k j hk => hnext ▸ hs.fresh k j (hids k ▸ hk)⟩
  | left k id _ _ _ hgone =>
    refine ⟨hgone.distinct hs.distinct, fun k j hk => ?_⟩
    rw [hgone.ids] at hk
    split at hk
    · cases hk
    · exact hgone.nextHandle ▸ hs.fresh k j hk

theorem numbered_of_reaches {run : List (PendingStep ω × PendingAnswer ω)} (hs : s.Numbered)
    (h : Reaches s run s') : s'.Numbered := by
  induction h with
  | refl => exact hs
  | next hstep _ ih => exact ih (hs.step hstep)

/-! ## From an insert on -/

/-- The step ends a request by right: something takes the entry whoever waits for it, another request takes its place,
or its own handle is read or given up. -/
def Ends (id : UInt32) (o : ω) (h : Nat) (e : PendingStep ω × PendingAnswer ω) : Prop :=
  e.1.clears id o = true ∨ e.1.insertedId? = some id ∨ leftHandle? e = some h

/-- A handle of some, that have an id, is read or given up. -/
def Leaves (held : Nat → Prop) (e : PendingStep ω × PendingAnswer ω) : Prop := ∃ k, held k ∧ leftHandle? e = some k

/-- After the insert of a request: its own handle and those that had its id keep the id as long as they are there, and
another handle with the id is that of another request that has taken its place. The entry is there unless something
has ended the request or left one of the handles that had the id. -/
structure Later (held : Nat → Prop) (id : UInt32) (o : ω) (h : Nat)
    (run : List (PendingStep ω × PendingAnswer ω)) (s : PendingRun ω) : Prop where
  numbered : s.Numbered
  made : ∀ k, k = h ∨ held k → k < s.table.nextHandle
  keeps : ∀ k, k = h ∨ held k → ∀ j, s.table.requestId? k = some j → j = id
  others : ∀ k, s.table.requestId? k = some id → (k = h ∨ held k) ∨ ∃ e ∈ run, Ends id o h e
  entry : s.table.entries.get? id = some ⟨h, o⟩ ↔ ∀ e ∈ run, ¬ Ends id o h e ∧ ¬ Leaves held e

variable {held : Nat → Prop} {run : List (PendingStep ω × PendingAnswer ω)}

theorem later_insert (hs : s.Numbered) (id : UInt32) (o : ω) :
    Later (fun k => s.table.requestId? k = some id) id o s.table.nextHandle []
      { s with table := (s.table.insert id o).1 } where
  numbered := hs.step (x := .insert id o) rfl
  made k hk := by
    show k < (s.table.insert id o).1.nextHandle
    rw [Pending.nextHandle_insert]
    rcases hk with rfl | hk
    · exact Nat.lt_succ_self _
    · exact Nat.lt_succ_of_lt (hs.fresh k id hk)
  keeps k hk j hj := by
    rw [Pending.requestId?_insert] at hj
    split at hj
    next => exact (Option.some.inj hj).symm
    next hn => exact Option.some.inj (hj.symm.trans (hk.resolve_left (Ne.symm hn)))
  others k hk := by
    rw [Pending.requestId?_insert] at hk
    split at hk
    next hn => exact .inl (.inl hn.symm)
    next => exact .inl (.inr hk)
  entry := by simp [Pending.entries_insert]

theorem Later.step (hl : Later held id o h run s) (hstep : s.step? x = some (s', a)) :
    Later held id o h (run ++ [(x, a)]) s' := by
  have hnumbered := hl.numbered.step hstep
  have hbefore {k : Nat} (hk : (k = h ∨ held k) ∨ ∃ e ∈ run, Ends id o h e) :
      (k = h ∨ held k) ∨ ∃ e ∈ run ++ [(x, a)], Ends id o h e :=
    hk.imp_right fun ⟨e, he, hends⟩ => ⟨e, List.mem_append_left _ he, hends⟩
  have hentry : (∀ e ∈ run ++ [(x, a)], ¬ Ends id o h e ∧ ¬ Leaves held e) ↔
      s.table.entries.get? id = some ⟨h, o⟩ ∧ ¬ Ends id o h (x, a) ∧ ¬ Leaves held (x, a) := by
    rw [hl.entry, List.forall_mem_append, List.forall_mem_singleton]
  cases change_of_step hl.numbered.distinct hstep with
  | inserted j w hx ha hs' =>
    subst hx hs'
    refine ⟨hnumbered, fun k hk => ?_, fun k hk j' hj => ?_, fun k hk => ?_, ?_⟩
    · show k < (s.table.insert j w).1.nextHandle
      rw [Pending.nextHandle_insert]
      exact Nat.lt_succ_of_lt (hl.made k hk)
    · rw [Pending.requestId?_insert, if_neg (Nat.ne_of_gt (hl.made k hk))] at hj
      exact hl.keeps k hk j' hj
    · rw [Pending.requestId?_insert] at hk
      split at hk
      next =>
        cases hk
        exact .inr ⟨(.insert id w, a), by simp, .inr (.inl rfl)⟩
      next => exact hbefore (hl.others k hk)
    · rw [hentry, Pending.entries_insert]
      have hnot : ¬ Leaves held (.insert j w, a) := by
        rintro ⟨k, -, ⟨⟩⟩
      split
      next hj =>
        have hne : s.table.nextHandle ≠ h := Nat.ne_of_gt (hl.made h (.inl rfl))
        simp [hj, Ends, hne, PendingStep.insertedId?]
      next hj =>
        simp [hj, Ends, PendingStep.insertedId?, PendingStep.clears, leftHandle?, hnot]
  | cleared hx hleft hentries hids hnext hdistinct =>
    refine ⟨hnumbered, fun k hk => hnext ▸ hl.made k hk, fun k hk j hj => hl.keeps k hk j (hids k ▸ hj),
      fun k hk => hbefore (hl.others k (hids k ▸ hk)), ?_⟩
    rw [hentry, hentries]
    simp [Ends, Leaves, hx, hleft]
  | left k j hx hleft hid hgone =>
    have hsub {k' : Nat} {i : UInt32} (hk : s'.table.requestId? k' = some i) : s.table.requestId? k' = some i := by
      rw [hgone.ids] at hk
      split at hk
      · cases hk
      · exact hk
    refine ⟨hnumbered, fun k' hk => hgone.nextHandle ▸ hl.made k' hk, fun k' hk i hi => hl.keeps k' hk i (hsub hi),
      fun k' hk => hbefore (hl.others k' (hsub hk)), ?_⟩
    rw [hentry, hgone.entries]
    split
    next hj =>
      -- Whoever leaves a handle with the id had it before, or has it since, or the request was ended before.
      constructor
      · rintro ⟨⟩
      · rintro ⟨he, hends, hleaves⟩
        rcases hl.others k (hj ▸ hid) with (hk | hk) | ⟨e, hmem, hend⟩
        · exact absurd (.inr (.inr (hk ▸ hleft))) hends
        · exact absurd ⟨k, hk, hleft⟩ hleaves
        · exact absurd hend (hl.entry.mp he e hmem).1
    next hj =>
      refine ⟨fun he => ⟨he, ?_, ?_⟩, And.left⟩
      · rintro (hend | hend | hend)
        · exact absurd hend (by simp [PendingStep.clears_of_caller hx])
        · exact absurd hend (by simp [PendingStep.insertedId?_of_caller hx])
        · obtain rfl : k = h := Option.some.inj (hleft.symm.trans hend)
          exact hj (hl.keeps k (.inl rfl) j hid)
      · rintro ⟨k', hk, hend⟩
        obtain rfl : k = k' := Option.some.inj (hleft.symm.trans hend)
        exact hj (hl.keeps k (.inr hk) j hid)

theorem later_of_reaches {more : List (PendingStep ω × PendingAnswer ω)} (hl : Later held id o h run s)
    (hreach : Reaches s more s') : Later held id o h (run ++ more) s' := by
  induction hreach generalizing run with
  | refl => exact (List.append_nil run).symm ▸ hl
  | next hstep _ ih => exact List.append_cons run _ _ ▸ ih (hl.step hstep)

/-! ## Every run -/

/-- **A handle gives up no request but its own, as long as no id is used again while an older handle has it.** What a
caller does with a handle takes no entry but that of the handle's id, and this only when the handle is read or given
up. A request that is inserted, under whatever id, waits until it is ended by right, or until one of the handles is
left that had its id when it was inserted. -/
theorem own_entry_unless_held {past : List (PendingStep ω × PendingAnswer ω)} (hpast : Reaches empty past s) :
    (∀ x a s' h, s.step? x = some (s', a) → x.caller? = some h → ∃ id, s.table.requestId? h = some id ∧
      ∀ j, s'.table.entries.get? j =
        if leftHandle? (x, a) = some h ∧ id = j then none else s.table.entries.get? j) ∧
    ∀ id o h s₁ later s₂, s.step? (.insert id o) = some (s₁, .handle h) → Reaches s₁ later s₂ →
      (s₂.table.entries.get? id = some ⟨h, o⟩ ↔ ∀ e ∈ later, ¬ Ends id o h e ∧
        ∀ k, s.table.requestId? k = some id → leftHandle? e ≠ some k) := by
  have hnumbered := numbered_of_reaches numbered_empty hpast
  refine ⟨fun x a s' h hstep hx => ?_, fun id o h s₁ later s₂ hins hlater => ?_⟩
  · obtain ⟨id, hid⟩ := exists_id_of_caller hstep hx
    refine ⟨id, hid, fun j => ?_⟩
    cases change_of_step hnumbered.distinct hstep with
    | inserted i o hins => cases hins ▸ PendingStep.insertedId?_of_caller hx
    | cleared _ hleft hentries =>
      rw [if_neg (by simp [hleft])]
      exact Option.ext fun e => by simp [hentries, PendingStep.clears_of_caller hx]
    | left k i hk hleft hi hgone =>
      obtain rfl : k = h := Option.some.inj (hk.symm.trans hx)
      obtain rfl : i = id := Option.some.inj (hi.symm.trans hid)
      simp [hgone.entries, hleft]
  · have hins' : some (({ s with table := (s.table.insert id o).1 } : PendingRun ω),
        (.handle s.table.nextHandle : PendingAnswer ω)) = some (s₁, .handle h) := by
      rw [← Pending.insert_handle s.table id o]
      exact hins
    cases hins'
    rw [(later_of_reaches (later_insert hnumbered id o) hlater).entry]
    simp only [Leaves, List.nil_append, not_exists, not_and, ne_eq]

/-- A request that is answered and read. -/
def answeredRun : List (PendingStep Nat × PendingAnswer Nat) :=
  [(.insert 1 0, .handle 0), (.complete 1 (.ok 1 .null), .owner (some 0)), (.tell 0, .done),
    (.poll 0, .outcome (some (.ok (.ok 1 .null))))]

/-- Then nobody has a handle. -/
def answeredEnd : PendingRun Nat := ⟨⟨.empty, .empty, 1⟩, .empty, []⟩

/-- The id is used again. -/
def usedAgain : PendingRun Nat := ⟨⟨⟨[(1, ⟨1, 7⟩)]⟩, ⟨[(1, ⟨1, .awaited⟩)]⟩, 2⟩, .empty, []⟩

/-- Another caller waits too long, and a connection goes that does not carry the request. -/
def othersGiveUp : List (PendingStep Nat × PendingAnswer Nat) :=
  [(.insert 2 0, .handle 2), (.timeUp 2 5, .done), (.look 2, .outcome (some (.error (.timeout 5)))),
    (.removeOwnedBy (· == 0), .count 0), (.timeUp 1 9, .done)]

theorem own_entry_unless_held_again :
    Reaches empty answeredRun answeredEnd ∧ answeredEnd.step? (.insert 1 7) = some (usedAgain, .handle 1) ∧
      ∃ s, Reaches usedAgain othersGiveUp s ∧ s.table.entries.get? 1 = some ⟨1, 7⟩ := by
  have hpast : Reaches empty answeredRun answeredEnd :=
    .next rfl (.next rfl (.next rfl (.next rfl (.refl _))))
  have hins : answeredEnd.step? (.insert 1 7) = some (usedAgain, .handle 1) := rfl
  obtain ⟨s, hlater⟩ : ∃ s, Reaches usedAgain othersGiveUp s :=
    ⟨_, .next rfl (.next rfl (.next rfl (.next rfl (.next rfl (.refl _)))))⟩
  refine ⟨hpast, hins, s, hlater, ((own_entry_unless_held hpast).2 1 7 1 _ _ _ hins hlater).mpr fun e he => ⟨?_, ?_⟩⟩
  · simp only [othersGiveUp, List.mem_cons, List.not_mem_nil, or_false] at he
    rcases he with rfl | rfl | rfl | rfl | rfl <;>
      simp [Ends, PendingStep.clears, PendingStep.insertedId?, leftHandle?]
  · rintro k ⟨⟩

/-- An id is used again while the handle of its first request is there, which was answered. Whether this handle is
dropped, its time is up or it is read, the second request is lost. -/
theorem entry_lost_by_older_handle :
    ∃ s s₁, Reaches (empty : PendingRun Nat)
        [(.insert 1 0, .handle 0), (.complete 1 (.ok 1 .null), .owner (some 0))] s ∧
      s.step? (.insert 1 0) = some (s₁, .handle 1) ∧ s₁.table.entries.get? 1 = some ⟨1, 0⟩ ∧
      ∀ later ∈ ([[(.drop 0, .done)], [(.timeUp 0 5, .done), (.look 0, .outcome (some (.error (.timeout 5))))],
          [(.tell 0, .done), (.poll 0, .outcome (some (.ok (.ok 1 .null))))]] :
            List (List (PendingStep Nat × PendingAnswer Nat))),
        (∀ e ∈ later, ¬ Ends 1 0 1 e) ∧ ∃ s₂, Reaches s₁ later s₂ ∧ s₂.table.entries.get? 1 = none := by
  refine ⟨_, _, .next rfl (.next rfl (.refl _)), rfl, rfl, fun later hlater => ?_⟩
  simp only [List.mem_cons, List.not_mem_nil, or_false] at hlater
  rcases hlater with rfl | rfl | rfl
  · refine ⟨by simp [Ends, PendingStep.clears, PendingStep.insertedId?, leftHandle?], _, .next rfl (.refl _), rfl⟩
  · refine ⟨by simp [Ends, PendingStep.clears, PendingStep.insertedId?, leftHandle?], _,
      .next rfl (.next rfl (.refl _)), rfl⟩
  · refine ⟨by simp [Ends, PendingStep.clears, PendingStep.insertedId?, leftHandle?], _,
      .next rfl (.next rfl (.refl _)), rfl⟩

end PendingRun

end Rpc
