import Rpc.Proofs.Bytes.Yields
import Rpc.Proofs.Codec.Bodies

/-!
# What comes out of a body

Whatever form a body has, what is read from it is put together by a few functions: objects from entries in any order
(`Value.ofEntries`), requests and responses from drafts. These keep to what a format can hold (`Value.Fits`), so that
a payload that was read can be written and read again.
-/

namespace Rpc

namespace Value

variable {float : Binary64 → Bool} {key : String → Bool} {depth : Nat} {k : String} {v : Value}

/-! ## Objects -/

theorem mem_of_mem_insertEntry {e : String × Value} {entries : List (String × Value)}
    (h : e ∈ insertEntry k v entries) : e = (k, v) ∨ e ∈ entries := by
  induction entries with
  | nil => exact .inl (List.mem_singleton.mp h)
  | cons e' entries ih =>
    simp only [insertEntry] at h
    split at h
    · exact List.mem_cons.mp h
    · split at h
      · exact (List.mem_cons.mp h).imp_right (List.mem_cons_of_mem e')
      · rcases List.mem_cons.mp h with rfl | h
        · exact .inr List.mem_cons_self
        · exact (ih h).imp_right (List.mem_cons_of_mem e')

/-- An entry goes to its place. -/
theorem isAscending_insertEntry {entries : List (String × Value)} (h : IsAscending entries) :
    IsAscending (insertEntry k v entries) := by
  induction entries with
  | nil => exact List.pairwise_singleton _ _
  | cons e entries ih =>
    obtain ⟨hhead, htail⟩ := List.pairwise_cons.mp h
    simp only [insertEntry]
    split
    · next hlt =>
      refine List.pairwise_cons.mpr ⟨fun e' he' => ?_, h⟩
      rcases List.mem_cons.mp he' with rfl | he'
      · exact hlt
      · exact String.lt_trans hlt (hhead e' he')
    · next hnot =>
      split
      · next heq => exact List.pairwise_cons.mpr ⟨fun e' he' => heq ▸ hhead e' he', htail⟩
      · next hne =>
        have hlt : e.1 < k := Std.lt_of_le_of_ne (String.not_lt.mp hnot) (Ne.symm hne)
        refine List.pairwise_cons.mpr ⟨fun e' he' => ?_, ih htail⟩
        rcases mem_of_mem_insertEntry he' with rfl | he'
        · exact hlt
        · exact hhead e' he'

/-- The entries of an object are among the given ones and in order. -/
theorem foldl_insertEntry_spec (entries : List (String × Value)) {front : List (String × Value)}
    (h : IsAscending front) :
    IsAscending (entries.foldl (fun es e => insertEntry e.1 e.2 es) front) ∧
      ∀ e ∈ entries.foldl (fun es e => insertEntry e.1 e.2 es) front, e ∈ front ∨ e ∈ entries := by
  induction entries generalizing front with
  | nil => exact ⟨h, fun _ he => .inl he⟩
  | cons e entries ih =>
    obtain ⟨hascending, hmem⟩ := ih (isAscending_insertEntry (k := e.1) (v := e.2) h)
    refine ⟨hascending, fun e' he' => ?_⟩
    rcases hmem e' he' with he' | he'
    · rcases mem_of_mem_insertEntry he' with rfl | he'
      · exact .inr List.mem_cons_self
      · exact .inl he'
    · exact .inr (List.mem_cons_of_mem e he')

/-! ## Values that a format can hold -/

/-- The value is one that a format can hold, and nested no deeper than so many levels. -/
def Fits (float : Binary64 → Bool) (key : String → Bool) (depth : Nat) (v : Value) : Prop :=
  v.isWithin float key ∧ v.depth ≤ depth

theorem fits_scalar {x : Value} (hwithin : x.isWithin float key) (hdepth : x.depth = 0) : Fits float key depth x :=
  ⟨hwithin, hdepth ▸ Nat.zero_le depth⟩

theorem fits_ofInt? {n : Int} (h : ofInt? n = some v) : Fits float key depth v := by
  unfold ofInt? at h
  split at h
  · cases h
    exact fits_scalar ‹_› rfl
  · cases h

theorem fits_array {items : List Value} (h : ∀ v ∈ items, Fits float key depth v) :
    Fits float key (depth + 1) (.array items) :=
  ⟨itemsWithin_iff.mpr fun v hv => (h v hv).1,
    Nat.succ_le_succ (depthItems_le_iff.mpr fun v hv => (h v hv).2)⟩

theorem fits_ofEntries {entries : List (String × Value)} (h : ∀ e ∈ entries, key e.1 ∧ Fits float key depth e.2) :
    Fits float key (depth + 1) (ofEntries entries) := by
  have hnone : IsAscending [] := List.Pairwise.nil
  obtain ⟨hascending, hmem⟩ := foldl_insertEntry_spec entries hnone
  have hfits : ∀ e ∈ entries.foldl (fun es e => insertEntry e.1 e.2 es) [], key e.1 ∧ Fits float key depth e.2 :=
    fun e he => h e ((hmem e he).resolve_left List.not_mem_nil)
  refine ⟨?_, Nat.succ_le_succ (depthEntries_le_iff.mpr fun e he => (hfits e he).2.2)⟩
  have hwithin := entriesWithin_iff.mpr fun e he => ⟨(hfits e he).1, (hfits e he).2.1⟩
  exact Bool.and_eq_true_iff.mpr ⟨decide_eq_true hascending, hwithin⟩

/-! ## What a value is made of -/

section MadeOf

variable (float : Binary64 → Bool) (key : String → Bool)

mutual

/-- The doubles in the value and the keys of the objects in it are among the given ones. -/
def isMadeOf : Value → Bool
  | .float x => float x
  | .array items => itemsMadeOf items
  | .object entries => entriesMadeOf entries
  | .null | .bool _ | .int _ | .string _ => true

/-- Those in the items are. -/
def itemsMadeOf : List Value → Bool
  | [] => true
  | v :: rest => isMadeOf v && itemsMadeOf rest

/-- Those in the entries are. -/
def entriesMadeOf : List (String × Value) → Bool
  | [] => true
  | (k, v) :: rest => key k && isMadeOf v && entriesMadeOf rest

end

end MadeOf

section Both

variable {float' : Binary64 → Bool} {key' : String → Bool}

mutual

/-- What a value is made of is among both. -/
theorem isWithin_both : ∀ {v : Value}, v.isWithin float key → v.isMadeOf float' key' →
    v.isWithin (fun x => float x && float' x) fun k => key k && key' k
  | .null, _, _ | .bool _, _, _ | .string _, _, _ => rfl
  | .int _, h, _ => h
  | .float _, h, hmade => Bool.and_eq_true_iff.mpr ⟨h, hmade⟩
  | .array items, h, hmade => @itemsWithin_both items h hmade
  | .object entries, h, hmade => by
    obtain ⟨hascending, hentries⟩ := Bool.and_eq_true_iff.mp h
    exact Bool.and_eq_true_iff.mpr ⟨hascending, entriesWithin_both hentries hmade⟩

theorem itemsWithin_both : ∀ {items : List Value}, itemsWithin float key items → itemsMadeOf float' key' items →
    itemsWithin (fun x => float x && float' x) (fun k => key k && key' k) items
  | [], _, _ => rfl
  | v :: rest, h, hmade => by
    obtain ⟨hv, hrest⟩ := Bool.and_eq_true_iff.mp h
    obtain ⟨hvmade, hrestmade⟩ := Bool.and_eq_true_iff.mp hmade
    exact Bool.and_eq_true_iff.mpr ⟨isWithin_both hv hvmade, itemsWithin_both hrest hrestmade⟩

theorem entriesWithin_both : ∀ {entries : List (String × Value)}, entriesWithin float key entries →
    entriesMadeOf float' key' entries →
    entriesWithin (fun x => float x && float' x) (fun k => key k && key' k) entries
  | [], _, _ => rfl
  | (k, v) :: rest, h, hmade => by
    obtain ⟨hkv, hrest⟩ := Bool.and_eq_true_iff.mp h
    obtain ⟨hk, hv⟩ := Bool.and_eq_true_iff.mp hkv
    obtain ⟨hkvmade, hrestmade⟩ := Bool.and_eq_true_iff.mp hmade
    obtain ⟨hkmade, hvmade⟩ := Bool.and_eq_true_iff.mp hkvmade
    have hkboth := Bool.and_eq_true_iff.mpr ⟨hk, hkmade⟩
    exact Bool.and_eq_true_iff.mpr ⟨Bool.and_eq_true_iff.mpr ⟨hkboth, isWithin_both hv hvmade⟩,
      entriesWithin_both hrest hrestmade⟩

end

end Both

end Value

/-! ## Drafts -/

section Drafts

variable {float : Binary64 → Bool} {key : String → Bool} {depth : Nat}

/-- The arguments that were read fit. -/
def RequestDraft.Fits (float : Binary64 → Bool) (key : String → Bool) (depth : Nat) (d : RequestDraft) : Prop :=
  ∀ vs, d.args = some vs → ∀ v ∈ vs, v.Fits float key depth

/-- The result that was read fits. -/
def ResponseDraft.Fits (float : Binary64 → Bool) (key : String → Bool) (depth : Nat) (d : ResponseDraft) : Prop :=
  ∀ v, d.result = some v → v.Fits float key depth

theorem RequestDraft.fits_empty : RequestDraft.Fits float key depth {} := by
  intro vs h
  cases h

theorem ResponseDraft.fits_empty : ResponseDraft.Fits float key depth {} := by
  intro v h
  cases h

theorem RequestDraft.Fits.finish {d : RequestDraft} {r : Request} (h : d.Fits float key depth)
    (hfinish : d.finish? = some r) : ∀ v ∈ r.args, v.Fits float key depth := by
  obtain ⟨_, -, hfinish⟩ := Option.bind_eq_some_iff.mp hfinish
  obtain ⟨_, -, hfinish⟩ := Option.bind_eq_some_iff.mp hfinish
  obtain ⟨_, -, hfinish⟩ := Option.bind_eq_some_iff.mp hfinish
  obtain ⟨vs, hvs, hfinish⟩ := Option.bind_eq_some_iff.mp hfinish
  cases hfinish
  exact h vs hvs

/-- A result that is missing is null, which fits. -/
theorem ResponseDraft.Fits.finish {d : ResponseDraft} {f : ResponseFields} (h : d.Fits float key depth)
    (hfinish : d.finish? = some f) : f.result.Fits float key depth := by
  obtain ⟨_, -, hfinish⟩ := Option.bind_eq_some_iff.mp hfinish
  cases hfinish
  dsimp only
  cases hresult : d.result with
  | none => exact Value.fits_scalar rfl rfl
  | some v => exact h v hresult

end Drafts

namespace Reader

variable {α draft : Type} {read : Reader α} {set : Option α → draft} {P : α → Prop} {I : draft → Prop}

/-- Reading a field keeps an invariant of the draft. -/
def FieldsKeep (field : String → draft → Option (Reader draft)) (I : draft → Prop) : Prop :=
  ∀ ⦃name : String⦄ ⦃d : draft⦄ ⦃read : Reader draft⦄, field name d = some read → I d → Yields read I

/-- A field that comes once is what stands behind its name. -/
theorem Yields.once (old : Option α) (hread : Yields read P) (hset : ∀ a, P a → I (set (some a))) :
    Yields (do let a ← read; let new ← Reader.ofOption (Rpc.once old a); Pure.pure (set new)) I := by
  refine hread.bind fun a ha => ?_
  refine Yields.bind (P := fun new => new = some a) (.ofOption fun new hnew => ?_) fun new hnew => ?_
  · cases old with
    | none => exact (Option.some.inj hnew).symm
    | some _ => cases hnew
  · subst hnew
    exact .pure (hset a ha)

end Reader

/-! ## Payloads -/

/-- What is sent in the place of a result is a value of the payload, or null. -/
theorem Response.wireResult_of_values {P : Value → Prop} {r : Response} (hnull : P .null)
    (h : ∀ v ∈ (Payload.response r).values, P v) : P r.wireResult := by
  obtain ⟨requestId, error | result⟩ := r
  · exact hnull
  · exact h result (List.mem_singleton.mpr rfl)

/-- The fields of a response that is accepted are those of the response: the two that exclude each other are not both
there. -/
theorem ResponseFields.eq_of_toResponse {f : ResponseFields} {r : Response} (h : f.toResponse = .ok r) :
    f = ⟨r.requestId, r.wireResult, r.error?⟩ := by
  obtain ⟨requestId, result, error⟩ := f
  cases error with
  | none =>
    cases h
    rfl
  | some e =>
    cases result with
    | null =>
      cases h
      rfl
    | _ => cases h

/-- What a serializer accepts is what the reader of its record does. -/
theorem Serializer.of_ofRecords_eq_ok {name : String} {writeRequest : Request → Bytes} {writeResponse : Response → Bytes}
    {readRequest : Bytes → Except BodyError Request} {readResponse : Bytes → Except BodyError Response}
    {type : MessageType} {body : Bytes} {p : Payload}
    (h : (Serializer.ofRecords name writeRequest writeResponse readRequest readResponse).deserialize type body = .ok p) :
    p.fits type ∧ (∀ r, p = .request r → readRequest body = .ok r) ∧
      ∀ r, p = .response r → readResponse body = .ok r := by
  simp only [Serializer.ofRecords] at h
  cases type with
  | request =>
    cases hread : readRequest body with
    | error e =>
      rw [hread] at h
      cases h
    | ok r =>
      rw [hread] at h
      cases h
      refine ⟨rfl, ?_, ?_⟩
      · rintro _ ⟨⟩
        rfl
      · rintro _ ⟨⟩
  | response =>
    cases hread : readResponse body with
    | error e =>
      rw [hread] at h
      cases h
    | ok r =>
      rw [hread] at h
      cases h
      refine ⟨rfl, ?_, ?_⟩
      · rintro _ ⟨⟩
      · rintro _ ⟨⟩
        rfl
  | heartbeatRequest | heartbeatResponse =>
    cases h
    refine ⟨rfl, ?_, ?_⟩
    · rintro _ ⟨⟩
    · rintro _ ⟨⟩

end Rpc
