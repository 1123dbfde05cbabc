import Rpc.Client.Pending

/-!
# What becomes of waiting requests

- what each operation does to entries and handles (`entries_settle`, `handles_settle`, `entries_insert`, …);
- entries and the handles that wait belong together (`Sound`), which every operation keeps;
- `Loses`: what an operation does that only takes entries and handles away.
-/

namespace Rpc

/-- A handle that has been told what came of its request. -/
def Handle.told (d : Delivery) (h : Handle) : Handle := { h with delivery := d }

namespace Pending

variable {ω : Type} {t t' : Pending ω}

/-! ## Operations on entries -/

theorem entries_settle (t : Pending ω) (id j : UInt32) (d : Delivery) :
    (t.settle id d).1.entries.get? j = if id = j then none else t.entries.get? j := by
  unfold settle
  split
  · rename_i h
    by_cases hj : id = j
    · simp [← hj, h]
    · simp [hj]
  · exact Table.get?_erase _ _ _

theorem handles_settle (t : Pending ω) (id : UInt32) (d : Delivery) (k : Nat) :
    (t.settle id d).1.handles.get? k =
      if (t.entries.get? id).map (·.handle) = some k then (t.handles.get? k).map (·.told d)
      else t.handles.get? k := by
  unfold settle
  split
  · rename_i h
    simp [h]
  · rename_i e h
    rw [h, Option.map_some]
    simp only [Option.some.injEq]
    exact Table.get?_modify t.handles e.handle k (·.told d)

theorem nextHandle_settle (t : Pending ω) (id : UInt32) (d : Delivery) :
    (t.settle id d).1.nextHandle = t.nextHandle := by
  unfold settle
  split <;> rfl

theorem settle_owner (t : Pending ω) (id : UInt32) (d : Delivery) :
    (t.settle id d).2 = (t.entries.get? id).map (·.owner) := by
  unfold settle
  split
  next h => rw [h]; rfl
  next h => rw [h]; rfl

theorem nodup_settle (hd : t.entries.keys.Nodup) (id : UInt32) (d : Delivery) :
    (t.settle id d).1.entries.keys.Nodup := by
  unfold settle
  split
  · exact hd
  · exact Table.nodup_keys_erase hd id

theorem insert_handle (t : Pending ω) (id : UInt32) (o : ω) : (t.insert id o).2 = t.nextHandle :=
  nextHandle_settle t id .lost

theorem nextHandle_insert (t : Pending ω) (id : UInt32) (o : ω) : (t.insert id o).1.nextHandle = t.nextHandle + 1 :=
  congrArg (· + 1) (nextHandle_settle t id .lost)

theorem entries_insert (t : Pending ω) (id j : UInt32) (o : ω) :
    (t.insert id o).1.entries.get? j = if id = j then some ⟨t.nextHandle, o⟩ else t.entries.get? j := by
  show ((t.settle id .lost).1.entries.set id ⟨(t.settle id .lost).1.nextHandle, o⟩).get? j = _
  rw [Table.get?_set, nextHandle_settle, entries_settle]
  by_cases hj : id = j <;> simp [hj]

theorem handles_insert (t : Pending ω) (id : UInt32) (o : ω) (k : Nat) :
    (t.insert id o).1.handles.get? k =
      if t.nextHandle = k then some ⟨id, .awaited⟩ else (t.settle id .lost).1.handles.get? k := by
  show ((t.settle id .lost).1.handles.set (t.settle id .lost).1.nextHandle ⟨id, .awaited⟩).get? k = _
  rw [Table.get?_set, nextHandle_settle]

/-! ## Operations on handles -/

theorem drop_of_none {h : Nat} (hh : t.handles.get? h = none) : t.drop h = t := by
  unfold drop
  rw [hh]

theorem drop_of_some {h : Nat} {x : Handle} (hh : t.handles.get? h = some x) :
    t.drop h = ({ t with handles := t.handles.erase h }.remove x.requestId).1 := by
  unfold drop
  rw [hh]

theorem nextHandle_drop (t : Pending ω) (h : Nat) : (t.drop h).nextHandle = t.nextHandle := by
  cases hh : t.handles.get? h with
  | none => rw [drop_of_none hh]
  | some x =>
    rw [drop_of_some hh]
    exact nextHandle_settle _ _ _

theorem entries_drop {h : Nat} {x : Handle} (hh : t.handles.get? h = some x) (j : UInt32) :
    (t.drop h).entries.get? j = if x.requestId = j then none else t.entries.get? j := by
  rw [drop_of_some hh]
  exact entries_settle _ _ _ _

theorem handles_drop {h : Nat} {x : Handle} (hh : t.handles.get? h = some x) (k : Nat) :
    (t.drop h).handles.get? k =
      if h = k then none
      else if (t.entries.get? x.requestId).map (·.handle) = some k then (t.handles.get? k).map (·.told .lost)
      else t.handles.get? k := by
  rw [drop_of_some hh, remove, handles_settle]
  simp only [Table.get?_erase]
  by_cases hk : h = k <;> simp [hk]

/-- A handle that is read gives what it holds and is gone. -/
theorem poll_eq_some {h : Nat} {o : Outcome} (hp : t.poll h = (t', some o)) :
    t.outcome? h = some o ∧ t' = t.drop h := by
  unfold poll at hp
  split at hp
  · cases hp
  · rename_i o' ho
    simp only [Prod.mk.injEq, Option.some.injEq] at hp
    exact ⟨hp.2 ▸ ho, hp.1.symm⟩

/-- A handle whose time is up gives what it holds; if it holds nothing, its entry goes and it gives a timeout. -/
theorem expire_eq_some {h after : Nat} {o : Outcome} (he : t.expire h after = (t', some o)) :
    t.outcome? h = some o ∧ t' = t.drop h ∨
      t.outcome? h = none ∧ o = .error (.timeout after) ∧
        ∃ x, t.handles.get? h = some x ∧ t' = (t.remove x.requestId).1.drop h := by
  unfold expire at he
  split at he
  · rename_i t₁ o₁ hp
    simp only [Prod.mk.injEq, Option.some.injEq] at he
    obtain ⟨rfl, rfl⟩ := he
    exact .inl (poll_eq_some hp)
  · rename_i t₁ hp
    have hout : t.outcome? h = none ∧ t₁ = t := by
      unfold poll at hp
      split at hp
      · rename_i ho
        exact ⟨ho, (Prod.mk.inj hp).1.symm⟩
      · cases hp
    obtain ⟨hout, rfl⟩ := hout
    split at he
    · cases he
    · rename_i id hid
      obtain ⟨x, hx, rfl⟩ := Option.map_eq_some_iff.mp hid
      split at he
      · rename_i t₂ w hr
        simp only [Prod.mk.injEq, Option.some.injEq] at he
        exact .inr ⟨hout, he.2.symm, x, hx, by rw [hr]; exact he.1.symm⟩
      · cases he

/-- A handle that gives something is there. -/
theorem handle_of_outcome {h : Nat} {o : Outcome} (ho : t.outcome? h = some o) :
    ∃ x, t.handles.get? h = some x ∧ Delivery.outcome? x.delivery = some o :=
  Option.bind_eq_some_iff.mp ho

/-- A handle gives a response if it holds this response. -/
theorem outcome_eq_ok_iff {h : Nat} {r : Response} :
    t.outcome? h = some (.ok r) ↔ ∃ id, t.handles.get? h = some ⟨id, .response r⟩ := by
  constructor
  · intro ho
    obtain ⟨⟨id, d⟩, hx, hd⟩ := handle_of_outcome ho
    cases d <;> simp only [Delivery.outcome?, Option.some.injEq, Except.ok.injEq, reduceCtorEq] at hd
    exact ⟨id, hd ▸ hx⟩
  · rintro ⟨id, hx⟩
    simp [outcome?, hx, Delivery.outcome?]

/-! ## Entries and handles belong together -/

/-- No id waits twice; an entry has a handle that waits under the entry's id, and a handle that waits has an entry.
Handles to come are new. -/
structure Sound (t : Pending ω) : Prop where
  distinct : t.entries.keys.Nodup
  waits : ∀ id e, t.entries.get? id = some e → t.handles.get? e.handle = some ⟨id, .awaited⟩
  entry : ∀ h id, t.handles.get? h = some ⟨id, .awaited⟩ → ∃ o, t.entries.get? id = some ⟨h, o⟩
  fresh : ∀ h x, t.handles.get? h = some x → h < t.nextHandle

theorem sound_empty : (empty : Pending ω).Sound :=
  ⟨List.Pairwise.nil, fun _ _ h => (nomatch h), fun _ _ h => (nomatch h), fun _ _ h => (nomatch h)⟩

/-- The handle of an entry is in no other entry. -/
theorem Sound.handle_inj (ht : t.Sound) {id j : UInt32} {e f : PendingEntry ω} (he : t.entries.get? id = some e)
    (hf : t.entries.get? j = some f) (h : e.handle = f.handle) : id = j := by
  have hi := ht.waits id e he
  rw [h, ht.waits j f hf] at hi
  exact (Handle.mk.inj (Option.some.inj hi)).1.symm

theorem Sound.settle (ht : t.Sound) (id : UInt32) {d : Delivery} (hd : d ≠ .awaited) : (t.settle id d).1.Sound where
  distinct := nodup_settle ht.distinct id d
  waits j f hf := by
    rw [entries_settle] at hf
    split at hf
    · cases hf
    · rename_i hj
      have hne : (t.entries.get? id).map (·.handle) ≠ some f.handle := by
        intro h
        obtain ⟨e, he, heq⟩ := Option.map_eq_some_iff.mp h
        exact hj (ht.handle_inj he hf heq)
      rw [handles_settle, if_neg hne]
      exact ht.waits j f hf
  entry h j hh := by
    rw [handles_settle] at hh
    split at hh
    · obtain ⟨x, -, hx⟩ := Option.map_eq_some_iff.mp hh
      exact absurd (congrArg Handle.delivery hx) hd
    · rename_i hne
      obtain ⟨o, ho⟩ := ht.entry h j hh
      refine ⟨o, ?_⟩
      rw [entries_settle, if_neg fun he => hne (by rw [he, ho]; rfl)]
      exact ho
  fresh h x hx := by
    rw [nextHandle_settle]
    rw [handles_settle] at hx
    split at hx
    · obtain ⟨y, hy, -⟩ := Option.map_eq_some_iff.mp hx
      exact ht.fresh h y hy
    · exact ht.fresh h x hx

theorem Sound.insert (ht : t.Sound) (id : UInt32) (o : ω) : (t.insert id o).1.Sound := by
  have hs := ht.settle id (d := .lost) (fun h => nomatch h)
  refine ⟨Table.nodup_keys_set hs.distinct id _, fun j f hf => ?_, fun h j hh => ?_, fun h x hx => ?_⟩
  · rw [entries_insert] at hf
    rw [handles_insert]
    split at hf
    · rename_i hj
      cases hf
      simp [hj]
    · rename_i hj
      have hf' : (t.settle id .lost).1.entries.get? j = some f := by rw [entries_settle, if_neg hj]; exact hf
      have hw := hs.waits j f hf'
      have hlt := hs.fresh _ _ hw
      rw [nextHandle_settle] at hlt
      rw [if_neg (Nat.ne_of_gt hlt)]
      exact hw
  · rw [handles_insert] at hh
    rw [entries_insert]
    split at hh
    · rename_i hn
      cases hh
      exact ⟨o, by simp [hn]⟩
    · obtain ⟨w, hw⟩ := hs.entry h j hh
      rw [entries_settle] at hw
      split at hw
      · cases hw
      · rename_i hj
        exact ⟨w, by rw [if_neg hj]; exact hw⟩
  · rw [nextHandle_insert]
    rw [handles_insert] at hx
    split at hx
    · omega
    · have := hs.fresh h x hx
      rw [nextHandle_settle] at this
      omega

theorem Sound.drop (ht : t.Sound) (h : Nat) : (t.drop h).Sound := by
  cases hh : t.handles.get? h with
  | none => rw [drop_of_none hh]; exact ht
  | some x =>
    refine ⟨?_, fun j f hf => ?_, fun k j hk => ?_, fun k y hy => ?_⟩
    · rw [drop_of_some hh]
      exact nodup_settle (t := { t with handles := t.handles.erase h }) ht.distinct _ _
    · rw [entries_drop hh] at hf
      split at hf
      · cases hf
      · rename_i hj
        have hw := ht.waits j f hf
        have hne : h ≠ f.handle := by
          intro he
          rw [← he, hh] at hw
          exact hj (congrArg Handle.requestId (Option.some.inj hw))
        have hne' : (t.entries.get? x.requestId).map (·.handle) ≠ some f.handle := by
          intro he
          obtain ⟨e, he, heq⟩ := Option.map_eq_some_iff.mp he
          exact hj (ht.handle_inj he hf heq)
        rw [handles_drop hh, if_neg hne, if_neg hne']
        exact hw
    · rw [handles_drop hh] at hk
      split at hk
      · cases hk
      · split at hk
        · obtain ⟨y, -, hy⟩ := Option.map_eq_some_iff.mp hk
          cases congrArg Handle.delivery hy
        · rename_i hne
          obtain ⟨o, ho⟩ := ht.entry k j hk
          refine ⟨o, ?_⟩
          rw [entries_drop hh, if_neg fun he => hne (by rw [he, ho]; rfl)]
          exact ho
    · rw [nextHandle_drop]
      rw [handles_drop hh] at hy
      split at hy
      · cases hy
      · split at hy
        · obtain ⟨z, hz, -⟩ := Option.map_eq_some_iff.mp hy
          exact ht.fresh k z hz
        · exact ht.fresh k y hy

theorem Sound.removeAll (ht : t.Sound) (ids : List UInt32) : (t.removeAll ids).Sound := by
  induction ids generalizing t with
  | nil => exact ht
  | cons id ids ih => exact ih (ht.settle id fun h => nomatch h)

/-- The ids of entries with certain owners. -/
theorem mem_ownedBy (hd : t.entries.keys.Nodup) {p : ω → Bool} {id : UInt32} :
    id ∈ t.ownedBy p ↔ ∃ e, t.entries.get? id = some e ∧ p e.owner = true := by
  unfold ownedBy
  rw [Table.mem_keys_filter]
  simp only [Table.mem_entries_iff hd]

theorem Sound.mem_ownedBy (ht : t.Sound) {p : ω → Bool} {id : UInt32} :
    id ∈ t.ownedBy p ↔ ∃ e, t.entries.get? id = some e ∧ p e.owner = true := Pending.mem_ownedBy ht.distinct

theorem entries_removeAll (t : Pending ω) (ids : List UInt32) (j : UInt32) :
    (t.removeAll ids).entries.get? j = if j ∈ ids then none else t.entries.get? j := by
  induction ids generalizing t with
  | nil => simp [removeAll]
  | cons id ids ih =>
    have h := ih (t.remove id).1
    simp only [removeAll, List.foldl_cons] at h ⊢
    rw [h, remove, entries_settle]
    by_cases hj : j ∈ ids
    · simp [hj]
    · by_cases hi : id = j
      · simp [hi]
      · simp [hj, hi, Ne.symm hi]

/-- A handle that waits goes on waiting when the entry of another id is taken. -/
theorem Sound.awaited_settle (ht : t.Sound) {h : Nat} {id j : UInt32} (hne : j ≠ id) (d : Delivery)
    (hh : t.handles.get? h = some ⟨id, .awaited⟩) :
    (t.settle j d).1.handles.get? h = some ⟨id, .awaited⟩ := by
  obtain ⟨o, ho⟩ := ht.entry h id hh
  have hother : (t.entries.get? j).map (·.handle) ≠ some h := by
    intro he
    obtain ⟨e, he, heq⟩ := Option.map_eq_some_iff.mp he
    exact hne (ht.handle_inj (f := ⟨h, o⟩) he ho heq)
  rw [handles_settle, if_neg hother]
  exact hh

theorem Sound.awaited_insert (ht : t.Sound) {h : Nat} {id j : UInt32} (hne : j ≠ id) (o : ω)
    (hh : t.handles.get? h = some ⟨id, .awaited⟩) :
    (t.insert j o).1.handles.get? h = some ⟨id, .awaited⟩ := by
  rw [handles_insert, if_neg (Nat.ne_of_gt (ht.fresh h _ hh))]
  exact ht.awaited_settle hne .lost hh

theorem Sound.awaited_removeAll (ht : t.Sound) {ids : List UInt32} {h : Nat} {id : UInt32} (hid : id ∉ ids)
    (hh : t.handles.get? h = some ⟨id, .awaited⟩) : (t.removeAll ids).handles.get? h = some ⟨id, .awaited⟩ := by
  induction ids generalizing t with
  | nil => exact hh
  | cons j ids ih =>
    simp only [List.mem_cons, not_or] at hid
    exact ih (ht.settle j fun h => nomatch h) hid.2 (ht.awaited_settle (Ne.symm hid.1) .lost hh)

/-! ## Operations that only take away -/

/-- Entries have gone and handles have gone or were told that their request is lost; nothing else has changed. -/
structure Loses (t t' : Pending ω) : Prop where
  entries : ∀ id e, t'.entries.get? id = some e → t.entries.get? id = some e
  handles : ∀ h x, t'.handles.get? h = some x →
    t.handles.get? h = some x ∨ ∃ y, t.handles.get? h = some y ∧ x = y.told .lost
  nextHandle : t'.nextHandle = t.nextHandle

theorem Loses.refl (t : Pending ω) : Loses t t := ⟨fun _ _ h => h, fun _ _ h => .inl h, rfl⟩

theorem Loses.trans {t₁ t₂ t₃ : Pending ω} (h : Loses t₁ t₂) (h' : Loses t₂ t₃) : Loses t₁ t₃ where
  entries id e he := h.entries id e (h'.entries id e he)
  handles k x hx := by
    rcases h'.handles k x hx with hx | ⟨y, hy, rfl⟩
    · exact h.handles k x hx
    · rcases h.handles k y hy with hy | ⟨z, hz, rfl⟩
      · exact .inr ⟨y, hy, rfl⟩
      · exact .inr ⟨z, hz, rfl⟩
  nextHandle := h'.nextHandle.trans h.nextHandle

theorem loses_remove (t : Pending ω) (id : UInt32) : Loses t (t.remove id).1 where
  entries j e he := by
    rw [remove, entries_settle] at he
    split at he
    · cases he
    · exact he
  handles h x hx := by
    rw [remove, handles_settle] at hx
    split at hx
    · obtain ⟨y, hy, rfl⟩ := Option.map_eq_some_iff.mp hx
      exact .inr ⟨y, hy, rfl⟩
    · exact .inl hx
  nextHandle := nextHandle_settle t id .lost

theorem loses_removeAll (t : Pending ω) (ids : List UInt32) : Loses t (t.removeAll ids) := by
  induction ids generalizing t with
  | nil => exact .refl t
  | cons id ids ih => exact (loses_remove t id).trans (ih _)

theorem loses_drop (t : Pending ω) (h : Nat) : Loses t (t.drop h) := by
  cases hh : t.handles.get? h with
  | none => rw [drop_of_none hh]; exact .refl t
  | some x =>
    refine ⟨fun j e he => ?_, fun k y hy => ?_, nextHandle_drop t h⟩
    · rw [entries_drop hh] at he
      split at he
      · cases he
      · exact he
    · rw [handles_drop hh] at hy
      split at hy
      · cases hy
      · split at hy
        · obtain ⟨z, hz, rfl⟩ := Option.map_eq_some_iff.mp hy
          exact .inr ⟨z, hz, rfl⟩
        · exact .inl hy

/-- A dropped handle is gone. -/
theorem handles_drop_self (t : Pending ω) (h : Nat) : (t.drop h).handles.get? h = none := by
  cases hh : t.handles.get? h with
  | none => rw [drop_of_none hh]; exact hh
  | some x => simp [handles_drop hh]

/-- A handle that is gone stays away when only more is lost. -/
theorem Loses.handle_none {h : Nat} (hl : Loses t t') (hh : t.handles.get? h = none) : t'.handles.get? h = none := by
  cases hx : t'.handles.get? h with
  | none => rfl
  | some x =>
    rcases hl.handles h x hx with hy | ⟨y, hy, -⟩
    · rw [hh] at hy; cases hy
    · rw [hh] at hy; cases hy

/-- A handle that waits goes on waiting when a handle with another id is dropped. -/
theorem Sound.awaited_drop (ht : t.Sound) {h k : Nat} {id : UInt32}
    (hid : ∀ x, t.handles.get? h = some x → x.requestId ≠ id) (hk : t.handles.get? k = some ⟨id, .awaited⟩) :
    (t.drop h).handles.get? k = some ⟨id, .awaited⟩ := by
  cases hx : t.handles.get? h with
  | none => rw [drop_of_none hx]; exact hk
  | some x =>
    have hne : h ≠ k := by
      rintro rfl
      exact hid _ hk rfl
    obtain ⟨o, ho⟩ := ht.entry k id hk
    have hother : (t.entries.get? x.requestId).map (·.handle) ≠ some k := by
      intro he
      obtain ⟨e, he, heq⟩ := Option.map_eq_some_iff.mp he
      exact hid x hx (ht.handle_inj (f := ⟨k, o⟩) he ho heq)
    rw [handles_drop hx, if_neg hne, if_neg hother]
    exact hk

/-! ## What a handle gives stays the same -/

/-- A handle that holds what it gives has no entry. -/
theorem Sound.entry_ne_of_outcome (ht : t.Sound) {h : Nat} {o : Outcome} (ho : t.outcome? h = some o) (id : UInt32) :
    (t.entries.get? id).map (·.handle) ≠ some h := by
  intro hm
  obtain ⟨e, he, rfl⟩ := Option.map_eq_some_iff.mp hm
  obtain ⟨x, hx, hd⟩ := handle_of_outcome ho
  cases (ht.waits id e he).symm.trans hx
  cases hd

theorem Sound.outcome_settle (ht : t.Sound) {h : Nat} {o : Outcome} (ho : t.outcome? h = some o) (id : UInt32)
    (d : Delivery) : (t.settle id d).1.outcome? h = some o := by
  unfold outcome?
  rw [handles_settle, if_neg (ht.entry_ne_of_outcome ho id)]
  exact ho

theorem Sound.outcome_insert (ht : t.Sound) {h : Nat} {o : Outcome} (ho : t.outcome? h = some o) (id : UInt32)
    (w : ω) : (t.insert id w).1.outcome? h = some o := by
  obtain ⟨x, hx, -⟩ := handle_of_outcome ho
  unfold outcome?
  rw [handles_insert, if_neg (Nat.ne_of_gt (ht.fresh h x hx))]
  exact ht.outcome_settle ho id .lost

theorem Sound.outcome_removeAll (ht : t.Sound) {h : Nat} {o : Outcome} (ho : t.outcome? h = some o)
    (ids : List UInt32) : (t.removeAll ids).outcome? h = some o := by
  induction ids generalizing t with
  | nil => exact ho
  | cons id ids ih => exact ih (ht.settle id fun h => nomatch h) (ht.outcome_settle ho id .lost)

theorem Sound.outcome_drop (ht : t.Sound) {h k : Nat} {o : Outcome} (hk : k ≠ h) (ho : t.outcome? h = some o) :
    (t.drop k).outcome? h = some o := by
  cases hx : t.handles.get? k with
  | none => rw [drop_of_none hx]; exact ho
  | some x =>
    unfold outcome?
    rw [handles_drop hx, if_neg hk, if_neg (ht.entry_ne_of_outcome ho _)]
    exact ho

end Pending

end Rpc
