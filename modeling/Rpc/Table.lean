/-!
# Tables

A finite map as the list of its entries, in the order in which their keys came (`Table`). Setting a key again keeps
its place. The main statements say what each operation does to `get?` and to `total`, and that no operation makes a
key stand twice.
-/

namespace Rpc

/-- A finite map from `κ` to `α`, in the order in which the keys came. -/
structure Table (κ α : Type) where
  entries : List (κ × α)

namespace Table

variable {κ α : Type}

/-- The table without entries. -/
def empty : Table κ α := ⟨[]⟩

instance : Inhabited (Table κ α) := ⟨empty⟩

/-- The number of entries. -/
def size (t : Table κ α) : Nat := t.entries.length

/-- There are no entries. -/
def isEmpty (t : Table κ α) : Bool := t.entries.isEmpty

/-- The keys. -/
def keys (t : Table κ α) : List κ := t.entries.map (·.1)

/-- The values. -/
def values (t : Table κ α) : List α := t.entries.map (·.2)

/-- The sum of a number over all values. -/
def total (t : Table κ α) (f : α → Nat) : Nat := t.values.foldr (fun a n => f a + n) 0

/-- The entries that pass a test. -/
def filter (t : Table κ α) (p : κ → α → Bool) : Table κ α := ⟨t.entries.filter fun (k, a) => p k a⟩

/-- The table with every value changed. -/
def map {β : Type} (t : Table κ α) (f : κ → α → β) : Table κ β := ⟨t.entries.map fun (k, a) => (k, f k a)⟩

variable [DecidableEq κ]

/-- The value of a key in a list of entries. -/
def find (k : κ) : List (κ × α) → Option α
  | [] => none
  | (k', a) :: rest => if k' = k then some a else find k rest

/-- The value of a key. -/
def get? (t : Table κ α) (k : κ) : Option α := find k t.entries

/-- The key has a value. -/
def contains (t : Table κ α) (k : κ) : Bool := (t.get? k).isSome

/-- A list of entries with the value of a key set, in its place or at the end. -/
def setIn (k : κ) (a : α) : List (κ × α) → List (κ × α)
  | [] => [(k, a)]
  | (k', a') :: rest => if k' = k then (k, a) :: rest else (k', a') :: setIn k a rest

/-- The table with the value of a key set. -/
def set (t : Table κ α) (k : κ) (a : α) : Table κ α := ⟨setIn k a t.entries⟩

/-- The table without a key. -/
def erase (t : Table κ α) (k : κ) : Table κ α := ⟨t.entries.filter fun (k', _) => k' ≠ k⟩

/-- The table with the value of a key changed, if it has one. -/
def modify (t : Table κ α) (k : κ) (f : α → α) : Table κ α :=
  match t.get? k with
  | none => t
  | some a => t.set k (f a)

/-! ## Look-up after a change -/

@[simp] theorem get?_empty (k : κ) : (empty : Table κ α).get? k = none := rfl

theorem find_setIn (k j : κ) (a : α) (es : List (κ × α)) :
    find j (setIn k a es) = if k = j then some a else find j es := by
  induction es with
  | nil => simp [setIn, find]
  | cons e es ih =>
    obtain ⟨k', a'⟩ := e
    by_cases h : k' = k
    · subst h
      by_cases hj : k' = j <;> simp [setIn, find, hj]
    · by_cases hj : k' = j
      · subst hj
        simp [setIn, find, h, Ne.symm h]
      · simp [setIn, find, h, hj, ih]

/-- Setting a key changes the value of that key only. -/
theorem get?_set (t : Table κ α) (k j : κ) (a : α) :
    (t.set k a).get? j = if k = j then some a else t.get? j :=
  find_setIn k j a t.entries

/-- Setting a key that has a value gives no other key one. -/
theorem isSome_get?_set {t : Table κ α} {k : κ} {a : α} (h : t.get? k = some a) (b : α) (j : κ) :
    ((t.set k b).get? j).isSome = (t.get? j).isSome := by
  rw [get?_set]
  split
  · rename_i hj
    rw [← hj, h]
    rfl
  · rfl

/-- Erasing a key takes the value of that key only. -/
theorem get?_erase (t : Table κ α) (k j : κ) :
    (t.erase k).get? j = if k = j then none else t.get? j := by
  obtain ⟨es⟩ := t
  simp only [get?, erase]
  induction es with
  | nil => simp [find]
  | cons e es ih =>
    obtain ⟨k', a'⟩ := e
    by_cases h : k' = k
    · subst h
      by_cases hj : k' = j
      · simpa [hj] using ih
      · simpa [find, hj] using ih
    · by_cases hj : k' = j
      · subst hj
        simp [find, h, Ne.symm h]
      · simpa [find, h, hj] using ih

/-- Changing the value of a key changes it if there is one. -/
theorem get?_modify (t : Table κ α) (k j : κ) (f : α → α) :
    (t.modify k f).get? j = if k = j then (t.get? j).map f else t.get? j := by
  unfold modify
  cases h : t.get? k with
  | none =>
    by_cases hj : k = j
    · subst hj
      simp [h]
    · simp [hj]
  | some a =>
    rw [get?_set]
    by_cases hj : k = j
    · subst hj
      simp [h]
    · simp [hj]

theorem setIn_setIn (k : κ) (a b : α) (es : List (κ × α)) : setIn k b (setIn k a es) = setIn k b es := by
  induction es with
  | nil => simp [setIn]
  | cons e es ih =>
    obtain ⟨k', a'⟩ := e
    by_cases h : k' = k
    · simp [setIn, h]
    · simp [setIn, h, ih]

/-- Two changes of one value are one. -/
theorem modify_modify (t : Table κ α) (k : κ) (f g : α → α) :
    (t.modify k f).modify k g = t.modify k (fun a => g (f a)) := by
  cases h : t.get? k with
  | none => simp only [modify, h]
  | some a =>
    have hs : (t.set k (f a)).get? k = some (f a) := by rw [get?_set, if_pos rfl]
    simp only [modify, h, hs]
    exact congrArg Table.mk (setIn_setIn k (f a) (g (f a)) t.entries)

/-- Changing every value changes the value of each key. -/
theorem get?_map {β : Type} (t : Table κ α) (f : κ → α → β) (j : κ) :
    (t.map f).get? j = (t.get? j).map (f j) := by
  obtain ⟨es⟩ := t
  simp only [get?, map]
  induction es with
  | nil => rfl
  | cons e es ih =>
    obtain ⟨k, a⟩ := e
    by_cases h : k = j
    · subst h
      simp [find]
    · simp [find, h, ih]

/-! ## Sums -/

/-- A value that is set takes the place of the one that was there. -/
theorem total_set (t : Table κ α) (f : α → Nat) (k : κ) (a : α) :
    (t.set k a).total f + ((t.get? k).map f).getD 0 = t.total f + f a := by
  obtain ⟨es⟩ := t
  simp only [set, get?, total, values]
  induction es with
  | nil => simp [setIn, find]
  | cons e es ih =>
    obtain ⟨j, b⟩ := e
    by_cases hj : j = k
    · simp only [setIn, find, if_pos hj, List.map_cons, List.foldr_cons, Option.map_some, Option.getD_some]
      omega
    · simp only [setIn, find, if_neg hj, List.map_cons, List.foldr_cons]
      omega

/-- A value that is changed takes the place of what it was. -/
theorem total_modify {t : Table κ α} {k : κ} {a : α} (h : t.get? k = some a) (f : α → Nat) (g : α → α) :
    (t.modify k g).total f + f a = t.total f + f (g a) := by
  have hs := t.total_set f k (g a)
  rw [h] at hs
  unfold modify
  rw [h]
  exact hs

/-- A change that is nothing to the number of a value is nothing to the sum. -/
theorem total_modify_eq (t : Table κ α) (k : κ) {f : α → Nat} {g : α → α} (h : ∀ a, f (g a) = f a) :
    (t.modify k g).total f = t.total f := by
  cases ha : t.get? k with
  | none => rw [modify, ha]
  | some a =>
    have hs := total_modify ha f g
    rw [h a] at hs
    exact Nat.add_right_cancel hs

/-- A change that makes the number of a value no greater makes the sum no greater. -/
theorem total_modify_le (t : Table κ α) (k : κ) {f : α → Nat} {g : α → α} (h : ∀ a, f (g a) ≤ f a) :
    (t.modify k g).total f ≤ t.total f := by
  cases ha : t.get? k with
  | none => exact Nat.le_of_eq (by rw [modify, ha])
  | some a =>
    have hs := total_modify ha f g
    have hle := h a
    omega

omit [DecidableEq κ] in
theorem total_filter_le (f : α → Nat) (p : κ × α → Bool) (es : List (κ × α)) :
    ((es.filter p).map (·.2)).foldr (fun a n => f a + n) 0 ≤ (es.map (·.2)).foldr (fun a n => f a + n) 0 := by
  induction es with
  | nil => exact Nat.le_refl _
  | cons e es ih =>
    by_cases hp : p e = true
    · rw [List.filter_cons_of_pos hp]
      exact Nat.add_le_add_left ih _
    · rw [List.filter_cons_of_neg hp]
      exact Nat.le_trans ih (Nat.le_add_left _ _)

/-- A value that is erased is no longer in the sum. -/
theorem total_erase {t : Table κ α} {k : κ} {a : α} (h : t.get? k = some a) (f : α → Nat) :
    (t.erase k).total f + f a ≤ t.total f := by
  obtain ⟨es⟩ := t
  simp only [erase, get?, total, values] at h ⊢
  induction es with
  | nil => cases h
  | cons e es ih =>
    obtain ⟨j, b⟩ := e
    by_cases hj : j = k
    · simp only [find, if_pos hj, Option.some.injEq] at h
      subst h
      have hle := total_filter_le f (fun x => decide (x.1 ≠ k)) es
      rw [List.filter_cons_of_neg (by simpa using hj)]
      simp only [List.map_cons, List.foldr_cons]
      omega
    · simp only [find, if_neg hj] at h
      have hsum := ih h
      rw [List.filter_cons_of_pos (by simpa using hj)]
      simp only [List.map_cons, List.foldr_cons]
      omega

omit [DecidableEq κ] in
/-- Changes that are nothing to the number of each value are nothing to the sum. -/
theorem total_map (t : Table κ α) {f : α → Nat} {g : κ → α → α} (h : ∀ k a, f (g k a) = f a) :
    (t.map g).total f = t.total f := by
  obtain ⟨es⟩ := t
  simp only [map, total, values]
  induction es with
  | nil => rfl
  | cons e es ih => simp only [List.map_cons, List.foldr_cons, ih, h]

omit [DecidableEq κ] in
theorem exists_of_total_pos {t : Table κ α} {f : α → Nat} (h : 0 < t.total f) :
    ∃ k a, (k, a) ∈ t.entries ∧ 0 < f a := by
  obtain ⟨es⟩ := t
  simp only [total, values] at h ⊢
  induction es with
  | nil => cases h
  | cons e es ih =>
    obtain ⟨k, a⟩ := e
    by_cases ha : 0 < f a
    · exact ⟨k, a, List.mem_cons_self, ha⟩
    · have hes : 0 < (es.map (·.2)).foldr (fun a n => f a + n) 0 := by
        simp only [List.map_cons, List.foldr_cons] at h
        omega
      obtain ⟨j, b, hb, hpos⟩ := ih hes
      exact ⟨j, b, List.mem_cons_of_mem _ hb, hpos⟩

omit [DecidableEq κ] in
/-- What is no greater for each entry is no greater in the sum. -/
theorem total_le_total {t : Table κ α} {f g : α → Nat} (h : ∀ k a, (k, a) ∈ t.entries → f a ≤ g a) :
    t.total f ≤ t.total g := by
  obtain ⟨es⟩ := t
  simp only [total, values] at h ⊢
  induction es with
  | nil => exact Nat.le_refl 0
  | cons e es ih =>
    obtain ⟨k, a⟩ := e
    have hrest := ih fun k a hmem => h k a (List.mem_cons_of_mem _ hmem)
    exact Nat.add_le_add (h k a List.mem_cons_self) hrest

/-! ## Keys that stand once -/

/-- What a list of entries gives for a key is one of its entries. -/
theorem mem_of_find {k : κ} {a : α} {es : List (κ × α)} (h : find k es = some a) : (k, a) ∈ es := by
  induction es with
  | nil => simp [find] at h
  | cons e es ih =>
    obtain ⟨k', a'⟩ := e
    by_cases hk : k' = k
    · subst hk
      simp only [find, if_true, Option.some.injEq] at h
      exact h ▸ List.mem_cons_self
    · simp only [find, hk, if_false] at h
      exact List.mem_cons_of_mem _ (ih h)

theorem find_of_mem {k : κ} {a : α} {es : List (κ × α)} (hd : (es.map (·.1)).Nodup) (h : (k, a) ∈ es) :
    find k es = some a := by
  induction es with
  | nil => cases h
  | cons e es ih =>
    rw [List.map_cons, List.nodup_cons] at hd
    rcases List.mem_cons.mp h with rfl | h
    · simp [find]
    · have hk : e.1 ≠ k := fun he => hd.1 (he ▸ List.mem_map_of_mem h)
      simpa [find, hk] using ih hd.2 h

/-- With every key standing once, the entries are what look-up gives. -/
theorem mem_entries_iff {t : Table κ α} (hd : t.keys.Nodup) {k : κ} {a : α} :
    (k, a) ∈ t.entries ↔ t.get? k = some a :=
  ⟨find_of_mem hd, mem_of_find⟩

theorem keys_setIn (k : κ) (a : α) (es : List (κ × α)) :
    (setIn k a es).map (·.1) = if k ∈ es.map (·.1) then es.map (·.1) else es.map (·.1) ++ [k] := by
  induction es with
  | nil => simp [setIn]
  | cons e es ih =>
    obtain ⟨k', a'⟩ := e
    by_cases h : k' = k
    · simp [setIn, h]
    · have h' : k ≠ k' := Ne.symm h
      simp only [setIn, if_neg h, List.map_cons, ih, List.mem_cons, h', false_or]
      split <;> simp

theorem nodup_keys_set {t : Table κ α} (hd : t.keys.Nodup) (k : κ) (a : α) : (t.set k a).keys.Nodup := by
  unfold keys set
  rw [keys_setIn]
  split
  · exact hd
  · rename_i hk
    exact List.nodup_append.mpr ⟨hd, by simp, fun x hx y hy he =>
      hk (List.mem_singleton.mp hy ▸ he ▸ hx)⟩

/-- Changing the value of a key leaves the keys as they are. -/
theorem keys_modify (t : Table κ α) (k : κ) (f : α → α) : (t.modify k f).keys = t.keys := by
  unfold modify
  cases ha : t.get? k with
  | none => rfl
  | some a =>
    have hmem : k ∈ t.entries.map (·.1) := List.mem_map_of_mem (mem_of_find ha)
    unfold keys set
    rw [keys_setIn, if_pos hmem]

theorem nodup_keys_erase {t : Table κ α} (hd : t.keys.Nodup) (k : κ) : (t.erase k).keys.Nodup :=
  (List.filter_sublist.map _).nodup hd

/-- With every key standing once, the value that is erased is all that the sum loses. -/
theorem total_erase_of_nodup {t : Table κ α} (hd : t.keys.Nodup) {k : κ} {a : α} (h : t.get? k = some a)
    (f : α → Nat) : (t.erase k).total f + f a = t.total f := by
  obtain ⟨es⟩ := t
  simp only [erase, get?, total, values, keys] at hd h ⊢
  induction es with
  | nil => cases h
  | cons e es ih =>
    obtain ⟨j, b⟩ := e
    rw [List.map_cons, List.nodup_cons] at hd
    by_cases hj : j = k
    · simp only [find, if_pos hj, Option.some.injEq] at h
      subst h hj
      have hall : ∀ x ∈ es, decide (x.1 ≠ j) = true := fun x hx =>
        decide_eq_true fun he => hd.1 (List.mem_map.mpr ⟨x, hx, he⟩)
      rw [List.filter_cons_of_neg (by simp), List.filter_eq_self.mpr hall]
      simp only [List.map_cons, List.foldr_cons]
      omega
    · simp only [find, if_neg hj] at h
      have hsum := ih hd.2 h
      rw [List.filter_cons_of_pos (by simpa using hj)]
      simp only [List.map_cons, List.foldr_cons]
      omega

omit [DecidableEq κ] in
/-- The keys of the entries that pass a test. -/
theorem mem_keys_filter {t : Table κ α} {p : κ → α → Bool} {k : κ} :
    k ∈ (t.filter p).keys ↔ ∃ a, (k, a) ∈ t.entries ∧ p k a = true := by
  simp [keys, filter]

end Table

end Rpc
