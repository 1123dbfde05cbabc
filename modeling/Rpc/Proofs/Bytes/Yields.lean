import Rpc.Bytes.Reader

/-!
# What readers give

`Reader.Yields x P`: whatever bytes `x` takes, the value has the property `P`. A reader yields what its parts do: those
of a sequence (`Reader.Yields.bind`), the items of a list (`Reader.Yields.count`, `Reader.Yields.untilStop`,
`Reader.Yields.separated`).
-/

namespace Rpc.Reader

variable {α β : Type} {P : α → Prop} {Q : β → Prop} {x y : Reader α} {a : α}

/-- All values that a reader gives have a property. -/
def Yields (x : Reader α) (P : α → Prop) : Prop := ∀ ⦃bs : Bytes⦄ ⦃a : α⦄ ⦃rest : Bytes⦄, x bs = some (a, rest) → P a

namespace Yields

theorem any (x : Reader α) : Yields x fun _ => True := fun _ _ _ _ => trivial

theorem pure (h : P a) : Yields (Pure.pure a) P := by
  intro bs b rest hx
  cases hx
  exact h

theorem failure : Yields (Alternative.failure : Reader α) P := fun _ _ _ hx => nomatch hx

theorem bind {f : α → Reader β} (hx : Yields x P) (hf : ∀ a, P a → Yields (f a) Q) : Yields (x >>= f) Q := by
  intro bs b rest h
  obtain ⟨⟨a, middle⟩, ha, hb⟩ := Option.bind_eq_some_iff.mp h
  exact hf a (hx ha) hb

/-- Of a first part nothing needs to be known. -/
theorem after {x : Reader β} {f : β → Reader α} (hf : ∀ b, Yields (f b) P) : Yields (x >>= f) P :=
  (any x).bind fun b _ => hf b

theorem ofOption {o : Option α} (h : ∀ a, o = some a → P a) : Yields (Reader.ofOption o) P := by
  intro bs a rest hx
  cases o with
  | none => cases hx
  | some _ =>
    cases hx
    exact h a rfl

theorem ite {c : Prop} [Decidable c] (hx : c → Yields x P) (hy : ¬ c → Yields y P) :
    Yields (if c then x else y) P := by
  split
  · exact hx ‹_›
  · exact hy ‹_›

/-- A reader that depends on the bytes in front of it. -/
theorem here {x : Bytes → Reader α} (h : ∀ bs, Yields (x bs) P) : Yields (fun bs => x bs bs) P :=
  fun bs _ _ hx => h bs hx

/-! ## Lists -/

theorem countFrom (h : Yields x P) (n : Nat) {done : List α} (hdone : ∀ a ∈ done, P a) :
    Yields (Reader.countFrom x n done) fun as => ∀ a ∈ as, P a := by
  induction n generalizing done with
  | zero =>
    intro bs as rest hx
    cases hx
    exact fun a ha => hdone a (List.mem_reverse.mp ha)
  | succ n ih =>
    intro bs as rest hx
    rw [Reader.countFrom] at hx
    split at hx
    · cases hx
    · next a middle ha => exact ih (List.forall_mem_cons.mpr ⟨h ha, hdone⟩) hx

theorem count (h : Yields x P) (n : Nat) : Yields (Reader.count x n) fun as => ∀ a ∈ as, P a :=
  h.countFrom n (List.forall_mem_nil P)

theorem untilStop (h : Yields x P) (stop : UInt8) : Yields (Reader.untilStop x stop) fun as => ∀ a ∈ as, P a := by
  suffices hfrom : ∀ (fuel : Nat) {done : List α}, (∀ a ∈ done, P a) →
      Yields (Reader.untilStopFrom x stop fuel done) fun as => ∀ a ∈ as, P a from
    fun bs _ _ hx => hfrom (bs.length + 1) (List.forall_mem_nil P) hx
  intro fuel
  induction fuel with
  | zero => exact fun _ _ _ _ hx => nomatch hx
  | succ fuel ih =>
    intro done hdone bs as rest hx
    cases bs with
    | nil => cases hx
    | cons b bs =>
      rw [Reader.untilStopFrom] at hx
      split at hx
      · cases hx
        exact fun a ha => hdone a (List.mem_reverse.mp ha)
      · split at hx
        · cases hx
        · next a middle ha => exact ih (List.forall_mem_cons.mpr ⟨h ha, hdone⟩) hx

theorem separated (blanks : Reader Unit) (h : Yields x P) (comma close : UInt8) :
    Yields (Reader.separated blanks x comma close) fun as => ∀ a ∈ as, P a := by
  have hfrom : ∀ (fuel : Nat) {done : List α}, (∀ a ∈ done, P a) →
      Yields (Reader.separatedFrom blanks x comma close fuel done) fun as => ∀ a ∈ as, P a := by
    intro fuel
    induction fuel with
    | zero => exact fun _ _ _ _ hx => nomatch hx
    | succ fuel ih =>
      intro done hdone bs as rest hx
      rw [Reader.separatedFrom] at hx
      split at hx
      · cases hx
      · next a middle ha =>
        have hmore : ∀ b ∈ a :: done, P b := List.forall_mem_cons.mpr ⟨h ha, hdone⟩
        repeat' split at hx
        all_goals first | cases hx | skip
        · exact fun b hb => hmore b (List.mem_reverse.mp hb)
        · exact ih hmore hx
  intro bs as rest hx
  rw [Reader.separated] at hx
  repeat' split at hx
  all_goals first | cases hx | skip
  · exact List.forall_mem_nil P
  · exact hfrom _ (List.forall_mem_nil P) hx

end Yields

end Rpc.Reader
