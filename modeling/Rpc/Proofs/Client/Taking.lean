import Rpc.Client.PendingSteps
import Rpc.Proofs.Client.Pending

/-!
# What a step does to waiting requests

- `PendingStep.takes`, `PendingStep.delivery`: which entries a step takes, and what it has for their handles;
- `PendingRun.Sound`: entries, handles and news belong together, as long as no id is used twice;
- `PendingRun.Advances`: all that a step other than an insert can do (`PendingRun.move_of_step`);
- `PendingRun.flush_take`, `PendingRun.expire_undisturbed`: steps that nothing comes between are the operations of
  the table.
-/

namespace Rpc

namespace PendingStep

variable {ω : Type}

/-- The entry of an id, with an owner and a handle, is one that the step takes, if it is still there. -/
def takes (id : UInt32) (owner : ω) (h : Nat) : PendingStep ω → Bool
  | .complete j _ | .remove j => j = id
  | .removeOwnedBy p => p owner
  | .clear => true
  | .look k | .drop k => k = h
  | _ => false

/-- What a step that takes an entry has for its handle. -/
def delivery : PendingStep ω → Delivery
  | .complete _ r => .response r
  | _ => .lost

/-- The id that a step inserts, if it does. -/
def insertedId? : PendingStep ω → Option UInt32
  | .insert id _ => some id
  | _ => none

end PendingStep

/-! ## Tables without a handle -/

namespace Pending

variable {ω : Type} {t t' : Pending ω} {h : Nat} {id : UInt32}

/-- A table without a handle and its entry. -/
structure Without (t t' : Pending ω) (h : Nat) (id : UInt32) : Prop where
  entries : ∀ j, t'.entries.get? j = if id = j then none else t.entries.get? j
  handles : ∀ k, t'.handles.get? k = if h = k then none else t.handles.get? k
  nextHandle : t'.nextHandle = t.nextHandle
  distinct : t.entries.keys.Nodup → t'.entries.keys.Nodup

theorem without_drop {x : Handle} (hx : t.handles.get? h = some x)
    (hown : ∀ e, t.entries.get? x.requestId = some e → e.handle = h) : Without t (t.drop h) h x.requestId where
  entries j := entries_drop hx j
  handles k := by
    rw [handles_drop hx]
    by_cases hk : h = k
    · simp only [if_pos hk]
    · have hne : (t.entries.get? x.requestId).map (·.handle) ≠ some k := by
        intro hmap
        obtain ⟨e, he, rfl⟩ := Option.map_eq_some_iff.mp hmap
        exact hk (hown e he).symm
      simp only [if_neg hk, if_neg hne]
  nextHandle := nextHandle_drop t h
  distinct hd := by
    rw [drop_of_some hx]
    exact nodup_settle (t := { t with handles := t.handles.erase h }) hd _ _

/-- It makes no difference whether the entry is taken first. -/
theorem without_remove_drop {x : Handle} (hx : t.handles.get? h = some x)
    (hown : ∀ e, t.entries.get? x.requestId = some e → e.handle = h) :
    Without t ((t.remove x.requestId).1.drop h) h x.requestId := by
  have hhandles (k : Nat) (hk : h ≠ k) : (t.remove x.requestId).1.handles.get? k = t.handles.get? k := by
    rw [remove, handles_settle, if_neg]
    intro hmap
    obtain ⟨e, he, rfl⟩ := Option.map_eq_some_iff.mp hmap
    exact hk (hown e he).symm
  have hentries (j : UInt32) :
      (t.remove x.requestId).1.entries.get? j = if x.requestId = j then none else t.entries.get? j :=
    entries_settle t _ j _
  obtain ⟨y, hy, hid⟩ : ∃ y, (t.remove x.requestId).1.handles.get? h = some y ∧ y.requestId = x.requestId := by
    rw [remove, handles_settle]
    split
    · exact ⟨x.told .lost, by rw [hx]; rfl, rfl⟩
    · exact ⟨x, hx, rfl⟩
  have hw := without_drop hy fun e he => by
    rw [hid, hentries, if_pos rfl] at he
    cases he
  rw [hid] at hw
  refine ⟨fun j => ?_, fun k => ?_, hw.nextHandle.trans (nextHandle_settle t _ _),
    fun hd => hw.distinct (nodup_settle hd _ _)⟩
  · rw [hw.entries, hentries]
    split <;> rfl
  · rw [hw.handles]
    split
    · rfl
    · rename_i hk
      exact hhandles k hk

end Pending

namespace PendingRun

variable {ω : Type} {s s' : PendingRun ω} {x : PendingStep ω} {a : PendingAnswer ω}

/-! ## Taking entries -/

theorem entries_take (s : PendingRun ω) (id j : UInt32) (d : Delivery) :
    (s.take id d).1.table.entries.get? j = if id = j then none else s.table.entries.get? j := by
  unfold take
  split
  next h =>
    by_cases hj : id = j
    · simp [← hj, h]
    · simp [hj]
  next => exact Table.get?_erase _ _ _

theorem take_owner (s : PendingRun ω) (id : UInt32) (d : Delivery) :
    (s.take id d).2 = (s.table.entries.get? id).map (·.owner) := by
  unfold take
  split
  next h => rw [h]; rfl
  next h => rw [h]; rfl

theorem mem_news_take {s : PendingRun ω} {id : UInt32} {d d' : Delivery} {h : Nat} :
    (h, d') ∈ (s.take id d).1.news ↔
      (h, d') ∈ s.news ∨ d' = d ∧ ∃ o, s.table.entries.get? id = some ⟨h, o⟩ := by
  unfold take
  split
  next hn => simp [hn]
  next e he =>
    rw [List.mem_append, List.mem_singleton, he]
    refine or_congr_right ⟨fun hp => ?_, ?_⟩
    · cases hp
      exact ⟨rfl, e.owner, rfl⟩
    · rintro ⟨hd, o, ho⟩
      cases ho
      rw [hd]

/-- Taking entries leaves handles alone. -/
theorem handles_takeAll (s : PendingRun ω) (ids : List UInt32) (d : Delivery) :
    (s.takeAll ids d).table.handles = s.table.handles ∧ (s.takeAll ids d).table.nextHandle = s.table.nextHandle := by
  induction ids generalizing s with
  | nil => exact ⟨rfl, rfl⟩
  | cons id ids ih =>
    have hone : (s.take id d).1.table.handles = s.table.handles ∧
        (s.take id d).1.table.nextHandle = s.table.nextHandle := by
      unfold take
      split <;> exact ⟨rfl, rfl⟩
    exact ⟨(ih _).1.trans hone.1, (ih _).2.trans hone.2⟩

theorem entries_takeAll (s : PendingRun ω) (ids : List UInt32) (d : Delivery) (j : UInt32) :
    (s.takeAll ids d).table.entries.get? j = if j ∈ ids then none else s.table.entries.get? j := by
  induction ids generalizing s with
  | nil => rfl
  | cons id ids ih =>
    show ((s.take id d).1.takeAll ids d).table.entries.get? j = _
    rw [ih, entries_take]
    by_cases hj : j ∈ ids <;> by_cases hi : id = j <;> simp [hj, hi, eq_comm]
    simp [Ne.symm hi]

theorem nodup_takeAll (hd : s.table.entries.keys.Nodup) (ids : List UInt32) (d : Delivery) :
    (s.takeAll ids d).table.entries.keys.Nodup := by
  induction ids generalizing s with
  | nil => exact hd
  | cons id ids ih =>
    have hone : (s.take id d).1.table.entries.keys.Nodup := by
      unfold take
      split
      · exact hd
      · exact Table.nodup_keys_erase hd id
    exact ih hone

theorem mem_news_takeAll {s : PendingRun ω} {ids : List UInt32} {d d' : Delivery} {h : Nat} :
    (h, d') ∈ (s.takeAll ids d).news ↔
      (h, d') ∈ s.news ∨ d' = d ∧ ∃ id ∈ ids, ∃ o, s.table.entries.get? id = some ⟨h, o⟩ := by
  induction ids generalizing s with
  | nil => simp [takeAll]
  | cons id ids ih =>
    show (h, d') ∈ ((s.take id d).1.takeAll ids d).news ↔ _
    rw [ih, mem_news_take]
    constructor
    · rintro ((hold | ⟨hd, o, ho⟩) | ⟨hd, j, hj, o, ho⟩)
      · exact .inl hold
      · exact .inr ⟨hd, id, List.mem_cons_self, o, ho⟩
      · rw [entries_take] at ho
        split at ho
        · cases ho
        · exact .inr ⟨hd, j, List.mem_cons_of_mem _ hj, o, ho⟩
    · rintro (hold | ⟨hd, j, hj, o, ho⟩)
      · exact .inl (.inl hold)
      · by_cases hji : id = j
        · exact .inl (.inr ⟨hd, o, hji ▸ ho⟩)
        · have hj' : j ∈ ids := (List.mem_cons.mp hj).resolve_left (Ne.symm hji)
          exact .inr ⟨hd, j, hj', o, by rw [entries_take, if_neg hji]; exact ho⟩

/-! ## What belongs together -/

/-- No id waits twice; an entry has a handle that waits under its id, and no news for that; a handle that waits has its
entry or news; the entry of a handle's id is its own. -/
structure Sound (s : PendingRun ω) : Prop where
  distinct : s.table.entries.keys.Nodup
  waits : ∀ id e, s.table.entries.get? id = some e → s.table.handles.get? e.handle = some ⟨id, .awaited⟩
  own : ∀ h y e, s.table.handles.get? h = some y → s.table.entries.get? y.requestId = some e → e.handle = h
  taken : ∀ h d id e, (h, d) ∈ s.news → s.table.entries.get? id = some e → e.handle ≠ h
  told : ∀ h d, (h, d) ∈ s.news → d ≠ .awaited
  pending : ∀ h id, s.table.handles.get? h = some ⟨id, .awaited⟩ →
    (∃ o, s.table.entries.get? id = some ⟨h, o⟩) ∨ ∃ d, (h, d) ∈ s.news
  fresh : ∀ h, (∃ y, s.table.handles.get? h = some y) ∨ (∃ d, (h, d) ∈ s.news) → h < s.table.nextHandle

theorem sound_empty : (empty : PendingRun ω).Sound :=
  ⟨List.Pairwise.nil, fun _ _ h => (nomatch h), fun _ _ _ h => (nomatch h), fun _ _ _ _ h => (nomatch h),
    fun _ _ h => (nomatch h), fun _ _ h => (nomatch h), fun _ h => h.elim (fun h => nomatch h) (fun h => nomatch h)⟩

/-- The handle of an entry is in no other entry. -/
theorem Sound.handle_inj (hs : s.Sound) {id j : UInt32} {e f : PendingEntry ω}
    (he : s.table.entries.get? id = some e) (hf : s.table.entries.get? j = some f) (h : e.handle = f.handle) :
    id = j := by
  have hi := hs.waits id e he
  rw [h, hs.waits j f hf] at hi
  exact (Handle.mk.inj (Option.some.inj hi)).1.symm

/-! ## One step -/

/-- What a step other than an insert does: it takes the entries that it takes, and there are news for their handles, or
these are gone; news come to their handles; handles go. -/
structure Advances (s : PendingRun ω) (x : PendingStep ω) (s' : PendingRun ω) : Prop where
  distinct : s'.table.entries.keys.Nodup
  nextHandle : s'.table.nextHandle = s.table.nextHandle
  entries : ∀ id e, s'.table.entries.get? id = some e ↔
    s.table.entries.get? id = some e ∧ x.takes id e.owner e.handle = false
  handles : ∀ k y', s'.table.handles.get? k = some y' →
    ∃ y, s.table.handles.get? k = some y ∧ y'.requestId = y.requestId ∧ (y' = y ∨ (k, y'.delivery) ∈ s.news)
  stays : ∀ id e, s'.table.entries.get? id = some e → s'.table.handles.get? e.handle = some ⟨id, .awaited⟩
  news : ∀ k d, (k, d) ∈ s'.news → (k, d) ∈ s.news ∨
    ∃ id o, s.table.entries.get? id = some ⟨k, o⟩ ∧ x.takes id o k = true ∧ d = x.delivery
  arises : ∀ id o k, s.table.entries.get? id = some ⟨k, o⟩ → x.takes id o k = true →
    (k, x.delivery) ∈ s'.news ∨ s'.table.handles.get? k = none
  remains : ∀ k d, (k, d) ∈ s.news → (k, d) ∈ s'.news ∨ ∀ y', s'.table.handles.get? k = some y' → y'.delivery = d

/-- A step that takes nothing and changes no handle. -/
theorem advances_of_same (hs : s.Sound) (htable : s'.table = s.table) (hnews : s'.news = s.news)
    (hx : ∀ id e, s.table.entries.get? id = some e → x.takes id e.owner e.handle = false) : Advances s x s' where
  distinct := htable ▸ hs.distinct
  nextHandle := by rw [htable]
  entries id e := by
    rw [htable]
    exact ⟨fun he => ⟨he, hx id e he⟩, fun he => he.1⟩
  handles k y' hy := ⟨y', htable ▸ hy, rfl, .inl rfl⟩
  stays id e he := by
    rw [htable] at he ⊢
    exact hs.waits id e he
  news k d hd := .inl (hnews ▸ hd)
  arises id o k he ht := by
    rw [hx id _ he] at ht
    cases ht
  remains k d hd := .inl (hnews ▸ hd)

/-- A step that takes the entries of some ids. -/
theorem advances_takeAll (hs : s.Sound) (ids : List UInt32)
    (hx : ∀ id e, s.table.entries.get? id = some e → (x.takes id e.owner e.handle = true ↔ id ∈ ids)) :
    Advances s x (s.takeAll ids x.delivery) where
  distinct := nodup_takeAll hs.distinct ids _
  nextHandle := (handles_takeAll s ids _).2
  entries id e := by
    rw [entries_takeAll]
    split
    next hid =>
      constructor
      · rintro ⟨⟩
      · rintro ⟨he, hf⟩
        rw [(hx id e he).mpr hid] at hf
        cases hf
    next hid => exact ⟨fun he => ⟨he, Bool.eq_false_iff.mpr fun ht => hid ((hx id e he).mp ht)⟩, fun he => he.1⟩
  handles k y' hy := ⟨y', (handles_takeAll s ids _).1 ▸ hy, rfl, .inl rfl⟩
  stays id e he := by
    rw [entries_takeAll] at he
    split at he
    · cases he
    · rw [(handles_takeAll s ids _).1]
      exact hs.waits id e he
  news k d hd := by
    rcases mem_news_takeAll.mp hd with hold | ⟨rfl, id, hid, o, ho⟩
    · exact .inl hold
    · exact .inr ⟨id, o, ho, (hx id _ ho).mpr hid, rfl⟩
  arises id o k he ht := .inl (mem_news_takeAll.mpr (.inr ⟨rfl, id, (hx id _ he).mp ht, o, he⟩))
  remains k d hd := .inl (mem_news_takeAll.mpr (.inl hd))

/-- A step after which a handle is gone, and its entry too. -/
theorem advances_without (hs : s.Sound) {h : Nat} {y : Handle} (hy : s.table.handles.get? h = some y)
    (hw : s.table.Without s'.table h y.requestId) (hnews : s'.news = s.news)
    (hx : ∀ id e, s.table.entries.get? id = some e → (x.takes id e.owner e.handle = true ↔ e.handle = h)) :
    Advances s x s' where
  distinct := hw.distinct hs.distinct
  nextHandle := hw.nextHandle
  entries id e := by
    rw [hw.entries]
    split
    next hid =>
      constructor
      · rintro ⟨⟩
      · rintro ⟨he, hf⟩
        rw [(hx id e he).mpr (hs.own h y e hy (hid ▸ he))] at hf
        cases hf
    next hid =>
      refine ⟨fun he => ⟨he, Bool.eq_false_iff.mpr fun ht => hid ?_⟩, fun he => he.1⟩
      have hwaits := hs.waits id e he
      rw [(hx id e he).mp ht, hy] at hwaits
      exact congrArg Handle.requestId (Option.some.inj hwaits)
  handles k y' hk := by
    rw [hw.handles] at hk
    split at hk
    · cases hk
    · exact ⟨y', hk, rfl, .inl rfl⟩
  stays id e he := by
    rw [hw.entries] at he
    split at he
    · cases he
    next hid =>
      have hwaits := hs.waits id e he
      rw [hw.handles, if_neg]
      · exact hwaits
      · intro heq
        rw [← heq, hy] at hwaits
        exact hid (congrArg Handle.requestId (Option.some.inj hwaits))
  news k d hd := .inl (hnews ▸ hd)
  arises id o k he ht := by
    refine .inr ?_
    rw [hw.handles, if_pos ((hx id _ he).mp ht).symm]
  remains k d hd := .inl (hnews ▸ hd)

/-- A step by which news come to their handle. -/
theorem advances_tell (hs : s.Sound) {k h : Nat} {d : Delivery} (hk : s.news[k]? = some (h, d)) :
    Advances s (.tell k) { s with table := s.table.deliver h d, news := s.news.eraseIdx k } := by
  have hmem : (h, d) ∈ s.news := List.mem_of_getElem? hk
  have hhandles (j : Nat) : (s.table.deliver h d).handles.get? j =
      if h = j then (s.table.handles.get? j).map (·.told d) else s.table.handles.get? j :=
    Table.get?_modify s.table.handles h j (·.told d)
  exact
    { distinct := hs.distinct
      nextHandle := rfl
      entries := fun id e => ⟨fun he => ⟨he, rfl⟩, fun he => he.1⟩
      handles := fun j y' hj => by
        rw [hhandles] at hj
        split at hj
        next hjh =>
          obtain ⟨y, hy, rfl⟩ := Option.map_eq_some_iff.mp hj
          exact ⟨y, hy, rfl, .inr (hjh ▸ hmem)⟩
        next => exact ⟨y', hj, rfl, .inl rfl⟩
      stays := fun id e he => by
        rw [hhandles, if_neg (Ne.symm (hs.taken h d id e hmem he))]
        exact hs.waits id e he
      news := fun j d' hd => .inl (List.mem_of_mem_eraseIdx hd)
      arises := fun _ _ _ _ ht => nomatch ht
      remains := fun j d' hd => by
        obtain ⟨i, hi⟩ := List.getElem?_of_mem hd
        by_cases hik : i = k
        · cases (hik ▸ hi).symm.trans hk
          refine .inr fun y' hy => ?_
          rw [hhandles, if_pos rfl] at hy
          obtain ⟨y, -, rfl⟩ := Option.map_eq_some_iff.mp hy
          rfl
        · exact .inl (List.mem_eraseIdx_iff_getElem?.mpr ⟨i, hik, hi⟩) }

/-- What belongs together stays together. -/
theorem Advances.sound (h : Advances s x s') (hs : s.Sound) : s'.Sound where
  distinct := h.distinct
  waits := h.stays
  own k y' e hk he := by
    obtain ⟨y, hy, hid, -⟩ := h.handles k y' hk
    rw [hid] at he
    exact hs.own k y e hy ((h.entries _ e).mp he).1
  taken k d id e hd he := by
    obtain ⟨hold, hkeep⟩ := (h.entries id e).mp he
    rcases h.news k d hd with hd | ⟨j, o, ho, ht, -⟩
    · exact hs.taken k d id e hd hold
    · rintro rfl
      obtain rfl : j = id := hs.handle_inj ho hold rfl
      have howner : o = e.owner := congrArg PendingEntry.owner (Option.some.inj (ho.symm.trans hold))
      rw [← howner, ht] at hkeep
      cases hkeep
  told k d hd := by
    rcases h.news k d hd with hd | ⟨id, o, -, -, rfl⟩
    · exact hs.told k d hd
    · cases x <;> exact nofun
  pending k id hk := by
    obtain ⟨y, hy, hid, hdel⟩ := h.handles k _ hk
    have hsame : y = ⟨id, .awaited⟩ := (hdel.resolve_right fun hd => hs.told k _ hd rfl).symm
    rcases hs.pending k id (hsame ▸ hy) with ⟨o, ho⟩ | ⟨d, hd⟩
    · cases ht : x.takes id o k with
      | false => exact .inl ⟨o, (h.entries id _).mpr ⟨ho, ht⟩⟩
      | true =>
        refine .inr ⟨x.delivery, (h.arises id o k ho ht).resolve_right fun hnone => ?_⟩
        rw [hnone] at hk
        cases hk
    · refine .inr ⟨d, (h.remains k d hd).resolve_right fun hall => ?_⟩
      exact hs.told k d hd (hall _ hk).symm
  fresh k hk := by
    rw [h.nextHandle]
    rcases hk with ⟨y', hy'⟩ | ⟨d, hd⟩
    · obtain ⟨y, hy, -⟩ := h.handles k y' hy'
      exact hs.fresh k (.inl ⟨y, hy⟩)
    · rcases h.news k d hd with hd | ⟨id, o, ho, -⟩
      · exact hs.fresh k (.inr ⟨d, hd⟩)
      · exact hs.fresh k (.inl ⟨_, hs.waits id _ ho⟩)

/-- An entry under a new id takes no other one's place. -/
theorem insert_new (hs : s.Sound) {id : UInt32} (hnew : ∀ h y, s.table.handles.get? h = some y → y.requestId ≠ id)
    (o : ω) :
    (∀ j, (s.table.insert id o).1.entries.get? j =
      if id = j then some ⟨s.table.nextHandle, o⟩ else s.table.entries.get? j) ∧
    ∀ k, (s.table.insert id o).1.handles.get? k =
      if s.table.nextHandle = k then some ⟨id, .awaited⟩ else s.table.handles.get? k := by
  refine ⟨fun j => Pending.entries_insert .., fun k => ?_⟩
  have hnone : s.table.entries.get? id = none := by
    cases he : s.table.entries.get? id with
    | none => rfl
    | some e => exact absurd rfl (hnew _ _ (hs.waits id e he))
  rw [Pending.handles_insert, Pending.handles_settle, hnone]
  rfl

theorem Sound.insert (hs : s.Sound) {id : UInt32} (hnew : ∀ h y, s.table.handles.get? h = some y → y.requestId ≠ id)
    (o : ω) : ({ s with table := (s.table.insert id o).1 } : PendingRun ω).Sound := by
  obtain ⟨hentries, hhandles⟩ := insert_new hs hnew o
  -- The new handle has neither an entry nor news from before.
  have hold {j : UInt32} {e : PendingEntry ω} (he : s.table.entries.get? j = some e) :
      s.table.nextHandle ≠ e.handle := Nat.ne_of_gt (hs.fresh _ (.inl ⟨_, hs.waits j e he⟩))
  have hnews {k : Nat} {d : Delivery} (hd : (k, d) ∈ s.news) : s.table.nextHandle ≠ k :=
    Nat.ne_of_gt (hs.fresh k (.inr ⟨d, hd⟩))
  refine ⟨Table.nodup_keys_set (Pending.nodup_settle hs.distinct _ _) id _, fun j e he => ?_, fun k y e hk he => ?_,
    fun k d j e hd he => ?_, hs.told, fun k j hk => ?_, fun k hk => ?_⟩
  · rw [hentries] at he
    rw [hhandles]
    split at he
    next hj =>
      cases he
      rw [if_pos rfl, hj]
    next =>
      rw [if_neg (hold he)]
      exact hs.waits j e he
  · rw [hhandles] at hk
    rw [hentries] at he
    split at hk
    next hkn =>
      cases hk
      rw [if_pos rfl] at he
      cases he
      exact hkn
    next =>
      rw [if_neg (Ne.symm (hnew k y hk))] at he
      exact hs.own k y e hk he
  · rw [hentries] at he
    split at he
    · cases he
      exact hnews hd
    · exact hs.taken k d j e hd he
  · rw [hhandles] at hk
    rw [hentries]
    split at hk
    next hkn =>
      cases hk
      exact .inl ⟨o, by rw [if_pos rfl, hkn]⟩
    next =>
      rw [if_neg (Ne.symm (hnew k _ hk))]
      exact hs.pending k j hk
  · show k < (s.table.insert id o).1.nextHandle
    rw [Pending.nextHandle_insert]
    rcases hk with ⟨y, hy⟩ | hd
    · rw [hhandles] at hy
      split at hy
      next hkn => exact hkn ▸ Nat.lt_succ_self _
      next => exact Nat.lt_succ_of_lt (hs.fresh k (.inl ⟨y, hy⟩))
    · exact Nat.lt_succ_of_lt (hs.fresh k (.inr hd))

/-! ## All steps -/

/-- The handle that a step and its answer leave behind, if they do. -/
def leftHandle? : PendingStep ω × PendingAnswer ω → Option Nat
  | (.drop h, _) | (.poll h, .outcome (some _)) | (.look h, .outcome (some _)) => some h
  | _ => none

/-- What a step and its answer give to a caller. -/
def outcome? : PendingStep ω × PendingAnswer ω → Option Outcome
  | (.poll _, .outcome o) | (.look _, .outcome o) => o
  | _ => none

/-- What a step does and tells. -/
inductive Move (s : PendingRun ω) (x : PendingStep ω) (a : PendingAnswer ω) (s' : PendingRun ω) : Prop
  | inserted (id : UInt32) (o : ω) (hx : x = .insert id o) (ha : a = .handle s.table.nextHandle)
      (hs' : s' = { s with table := (s.table.insert id o).1 })
  | quiet (hx : x.insertedId? = none) (hadv : Advances s x s') (hleft : leftHandle? (x, a) = none)
      (hout : outcome? (x, a) = none)
      (hhere : ∀ k, s'.table.handles.get? k = none → s.table.handles.get? k = none)
  | left (h : Nat) (y : Handle) (hx : x.insertedId? = none) (hadv : Advances s x s')
      (hleft : leftHandle? (x, a) = some h) (hy : s.table.handles.get? h = some y)
      (hgone : ∀ k, s'.table.handles.get? k = if h = k then none else s.table.handles.get? k)
      (hout : ∀ o, outcome? (x, a) = some o → (∃ l, read l y.delivery = some o) ∨
        (∃ w, s.table.entries.get? y.requestId = some ⟨h, w⟩) ∧ x = .look h ∧ ∃ after, o = .error (.timeout after))

theorem move_of_step (hs : s.Sound) (h : s.step? x = some (s', a)) : Move s x a s' := by
  cases x with
  | insert id o =>
    cases h
    exact .inserted id o rfl (congrArg _ (Pending.insert_handle _ id o)) rfl
  | complete id r =>
    cases h
    exact .quiet rfl (advances_takeAll (x := .complete id r) hs [id] fun j e _ => by
      simp [PendingStep.takes, eq_comm]) rfl rfl fun k hk => (handles_takeAll s [id] (.response r)).1 ▸ hk
  | remove id =>
    cases h
    exact .quiet rfl (advances_takeAll (x := .remove id) hs [id] fun j e _ => by
      simp [PendingStep.takes, eq_comm]) rfl rfl fun k hk => (handles_takeAll s [id] .lost).1 ▸ hk
  | removeOwnedBy p =>
    cases h
    refine .quiet rfl (advances_takeAll (x := .removeOwnedBy p) hs _ fun j e he => ?_) rfl rfl
      fun k hk => (handles_takeAll s _ .lost).1 ▸ hk
    rw [Pending.mem_ownedBy hs.distinct, he]
    simp [PendingStep.takes]
  | clear =>
    cases h
    refine .quiet rfl (advances_takeAll (x := .clear) hs _ fun j e he => ?_) rfl rfl
      fun k hk => (handles_takeAll s _ .lost).1 ▸ hk
    exact ⟨fun _ => List.mem_map.mpr ⟨(j, e), Table.mem_of_find he, rfl⟩, fun _ => rfl⟩
  | contains id =>
    cases h
    exact .quiet rfl (advances_of_same hs rfl rfl fun _ _ _ => rfl) rfl rfl fun _ hk => hk
  | tell k =>
    simp only [step?] at h
    split at h
    · cases h
    next k' d hk =>
      cases h
      refine .quiet rfl (advances_tell hs hk) rfl rfl fun j hj => ?_
      rw [show (s.table.deliver k' d).handles.get? j = _ from Table.get?_modify s.table.handles k' j (·.told d)] at hj
      split at hj
      · exact Option.map_eq_none_iff.mp hj
      · exact hj
  | poll k =>
    simp only [step?] at h
    split at h
    · cases h
    · cases h
    next l y hy _ =>
      split at h
      next hread =>
        cases h
        exact .quiet rfl (advances_of_same hs rfl rfl fun _ _ _ => rfl) rfl rfl fun _ hk => hk
      next o hread =>
        cases h
        have hw := Pending.without_drop hy fun e he => hs.own k y e hy he
        refine .left k y rfl (advances_without hs hy hw rfl fun id e he => ?_) rfl hy hw.handles
          fun o' ho => .inl ⟨_, hread.trans ho⟩
        -- What a handle gives was told, so that it has no entry.
        constructor
        · rintro ⟨⟩
        · intro hek
          have hwaits := hs.waits id e he
          rw [hek, hy] at hwaits
          cases hwaits
          cases hread
  | timeUp k after =>
    simp only [step?] at h
    split at h
    · cases h
      exact .quiet rfl (advances_of_same hs rfl rfl fun _ _ _ => rfl) rfl rfl fun _ hk => hk
    · cases h
  | look k =>
    simp only [step?] at h
    split at h
    next y after hy hl =>
      have howner : (s.table.remove y.requestId).2 = _ := Pending.settle_owner s.table y.requestId .lost
      split at h
      next t w hremove =>
        cases h
        rw [hremove] at howner
        obtain ⟨e, he, rfl⟩ := Option.map_eq_some_iff.mp howner.symm
        obtain rfl := hs.own k y e hy he
        have hw := Pending.without_remove_drop hy fun e he => hs.own _ y e hy he
        rw [hremove] at hw
        refine .left _ y rfl (advances_without hs hy hw rfl fun id e _ => ?_) rfl hy hw.handles fun o ho => ?_
        · simp [PendingStep.takes, eq_comm]
        · cases ho
          exact .inr ⟨⟨e.owner, he⟩, rfl, after, rfl⟩
      next hremove =>
        cases h
        rw [hremove] at howner
        have hnone := Option.map_eq_none_iff.mp howner.symm
        refine .quiet rfl (advances_of_same hs rfl rfl fun id e he => ?_) rfl rfl fun _ hk => hk
        refine Bool.eq_false_iff.mpr fun ht => ?_
        have hwaits := hs.waits id e he
        rw [← of_decide_eq_true ht, hy] at hwaits
        cases hwaits
        rw [hnone] at he
        cases he
    · cases h
  | drop k =>
    simp only [step?, Option.map_eq_some_iff] at h
    obtain ⟨y, hy, heq⟩ := h
    cases heq
    have hw := Pending.without_drop hy fun e he => hs.own k y e hy he
    refine .left k y rfl (advances_without hs hy hw rfl fun id e _ => ?_) rfl hy hw.handles fun o ho => ?_
    · simp [PendingStep.takes, eq_comm]
    · cases ho

/-! ## Steps with nothing in between -/

/-- The table when all news have come to their handles. -/
def flush (s : PendingRun ω) : Pending ω := s.news.foldl (fun t n => t.deliver n.1 n.2) s.table

theorem flush_entries (news : List (Nat × Delivery)) (t : Pending ω) (es : Table UInt32 (PendingEntry ω)) :
    news.foldl (fun t n => t.deliver n.1 n.2) { t with entries := es } =
      { news.foldl (fun t n => t.deliver n.1 n.2) t with entries := es } := by
  induction news generalizing t with
  | nil => rfl
  | cons n news ih => exact ih (t.deliver n.1 n.2)

theorem entries_flush (s : PendingRun ω) : s.flush.entries = s.table.entries := by
  have h : s.flush = { s.flush with entries := s.table.entries } := flush_entries s.news s.table s.table.entries
  rw [h]

/-- Taking an entry and bringing the news is settling it. -/
theorem flush_take (s : PendingRun ω) (id : UInt32) (d : Delivery) :
    (s.take id d).1.flush = (s.flush.settle id d).1 ∧ (s.take id d).2 = (s.flush.settle id d).2 := by
  unfold take Pending.settle
  rw [entries_flush]
  cases s.table.entries.get? id with
  | none => exact ⟨rfl, rfl⟩
  | some e =>
    refine ⟨?_, rfl⟩
    simp only [flush, List.foldl_append, List.foldl_cons, List.foldl_nil]
    rw [flush_entries]

/-- A caller whose time is up and who looks into the table at once. -/
theorem expire_undisturbed (hs : s.Sound) {h after : Nat} {id : UInt32} (hnews : s.news = [])
    (hy : s.table.handles.get? h = some ⟨id, .awaited⟩) (hl : s.late.get? h = none) :
    ∃ s₁ s₂, s.step? (.timeUp h after) = some (s₁, .done) ∧
      s₁.step? (.look h) = some (s₂, .outcome (s.table.expire h after).2) ∧
      s₂.table = (s.table.expire h after).1 := by
  obtain ⟨o, he⟩ : ∃ o, s.table.entries.get? id = some ⟨h, o⟩ := by
    refine (hs.pending h id hy).resolve_right ?_
    rintro ⟨d, hd⟩
    rw [hnews] at hd
    cases hd
  have hremove : s.table.remove id = ((s.table.remove id).1, some o) := by
    refine Prod.ext rfl ?_
    show (s.table.settle id .lost).2 = some o
    rw [Pending.settle_owner, he]
    rfl
  have hexpire : s.table.expire h after =
      ((s.table.remove id).1.drop h, some (.error (.timeout after))) := by
    simp only [Pending.expire, Pending.poll, Pending.outcome?, Pending.requestId?, hy, Option.bind_some,
      Pending.Delivery.outcome?, Option.map_some]
    rw [hremove]
  have hlate : (s.late.set h (.looking after)).get? h = some (.looking after) := by rw [Table.get?_set, if_pos rfl]
  refine ⟨{ s with late := s.late.set h (.looking after) },
    ({ s with table := (s.table.remove id).1, late := s.late.set h (.looking after) } : PendingRun ω).leave h,
    ?_, ?_, ?_⟩
  · simp only [step?, hy, hl]
  · simp only [step?, hy, hlate, hexpire]
    rw [hremove]
  · rw [hexpire]
    rfl

end PendingRun

end Rpc
