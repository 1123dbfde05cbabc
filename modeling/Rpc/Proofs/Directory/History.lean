import Mathlib
import Rpc.Directory.History

/-!
# What a directory answers

A directory answers what its history says, and its version tells whether its answers have changed.

- `Directory.get?_next`: what a step does to the addresses of every service;
- `Directory.known_iff`, `Directory.listed_iff`: the answers from a whole history;
- `Directory.grown_run`: the order of the addresses;
- `Directory.run_eq_of_version`: steps that are not counted change nothing;
- `Directory.answers_history`: the main statement.
-/

namespace Rpc

namespace Directory

variable {d d₀ : Directory} {defined : String → Option (List SocketAddress)} {steps rest : List DirectoryStep}
  {step : DirectoryStep} {s : String} {a : SocketAddress} {before after addresses : List SocketAddress}

/-! ## Answers -/

theorem resolve_eq_ok_iff : d.resolve s = .ok addresses ↔ d.services.get? s = some addresses := by
  unfold resolve
  cases d.services.get? s <;> simp

theorem resolve_eq_error_iff : d.resolve s = .error (.unknownService s) ↔ d.services.get? s = none := by
  unfold resolve
  cases d.services.get? s <;> simp

theorem resolve_eq_resolve_iff {d' : Directory} :
    d.resolve s = d'.resolve s ↔ d.services.get? s = d'.services.get? s := by
  unfold resolve
  cases d.services.get? s <;> cases d'.services.get? s <;> simp

theorem resolve_eq_or (d : Directory) (s : String) :
    d.resolve s = .ok (d.addresses s) ∨ d.resolve s = .error (.unknownService s) := by
  unfold resolve addresses
  cases d.services.get? s <;> simp

theorem get?_of_mem (h : a ∈ d.addresses s) : d.services.get? s = some (d.addresses s) := by
  unfold addresses at h ⊢
  cases hs : d.services.get? s with
  | none =>
    rw [hs] at h
    cases h
  | some addresses => rfl

/-! ## One step -/

theorem register_of_mem (h : a ∈ d.addresses s) : d.next (.register s a) = d := if_pos h

theorem register_of_notMem (h : a ∉ d.addresses s) :
    d.next (.register s a) = d.change s (d.addresses s ++ [a]) := if_neg h

theorem deregister_of_mem (h : a ∈ d.addresses s) :
    d.next (.deregister s a) = d.change s ((d.addresses s).filter (· ≠ a)) :=
  congrArg Prod.fst (if_pos h)

theorem deregister_of_notMem (h : a ∉ d.addresses s) : d.next (.deregister s a) = d :=
  congrArg Prod.fst (if_neg h)

theorem get?_change (d : Directory) (s t : String) (addresses : List SocketAddress) :
    (d.change s addresses).services.get? t = if s = t then some addresses else d.services.get? t :=
  Table.get?_set ..

theorem get?_change_self (d : Directory) (s : String) (addresses : List SocketAddress) :
    (d.change s addresses).services.get? s = some addresses := by
  rw [get?_change, if_pos rfl]

/-- A step changes the service that it is about and counts that, or it changes nothing. -/
theorem next_eq_or (d : Directory) (step : DirectoryStep) :
    d.next step = d ∨ ∃ addresses, d.next step = d.change step.service addresses := by
  cases step with
  | register s a =>
    by_cases ha : a ∈ d.addresses s
    · exact .inl (register_of_mem ha)
    · exact .inr ⟨_, register_of_notMem ha⟩
  | deregister s a =>
    by_cases ha : a ∈ d.addresses s
    · exact .inr ⟨_, deregister_of_mem ha⟩
    · exact .inl (deregister_of_notMem ha)
  | assign s addresses => exact .inr ⟨addresses, rfl⟩

/-- What a step does to the addresses of the service that it is about. -/
theorem get?_next (d : Directory) (step : DirectoryStep) :
    (d.next step).services.get? step.service = step.revise (d.services.get? step.service) := by
  cases step with
  | register s a =>
    show (d.next (.register s a)).services.get? s =
      some (if a ∈ d.addresses s then d.addresses s else d.addresses s ++ [a])
    by_cases ha : a ∈ d.addresses s
    · rw [register_of_mem ha, if_pos ha, get?_of_mem ha]
    · rw [register_of_notMem ha, if_neg ha, get?_change_self]
  | deregister s a =>
    show (d.next (.deregister s a)).services.get? s = (d.services.get? s).map (·.filter (· ≠ a))
    by_cases ha : a ∈ d.addresses s
    · rw [deregister_of_mem ha, get?_change_self, get?_of_mem ha]
      rfl
    · rw [deregister_of_notMem ha]
      cases hs : d.services.get? s with
      | none => rfl
      | some addresses =>
        have haddresses : d.addresses s = addresses := congrArg (Option.getD · []) hs
        rw [haddresses] at ha
        have hall : addresses.filter (· ≠ a) = addresses :=
          List.filter_eq_self.mpr fun b hb => decide_eq_true (ne_of_mem_of_not_mem hb ha)
        exact congrArg some hall.symm
  | assign s addresses => exact get?_change_self ..

/-- A step changes nothing about another service. -/
theorem get?_next_of_ne (d : Directory) (h : step.service ≠ s) : (d.next step).services.get? s = d.services.get? s := by
  rcases d.next_eq_or step with hd | ⟨addresses, hd⟩
  · rw [hd]
  · rw [hd, get?_change, if_neg h]

/-- A registration or its opposite that changes no answer is not counted. -/
theorem next_eq_of_same (hstep : ∀ s addresses, step ≠ .assign s addresses)
    (hsame : (d.next step).services.get? step.service = d.services.get? step.service) : d.next step = d := by
  cases step with
  | register s a =>
    by_cases ha : a ∈ d.addresses s
    · exact register_of_mem ha
    · exfalso
      have hs : some (d.addresses s ++ [a]) = d.services.get? s := by
        rw [← get?_change_self d, ← register_of_notMem ha]
        exact hsame
      have haddresses : d.addresses s ++ [a] = d.addresses s := congrArg (Option.getD · []) hs
      exact ha (haddresses ▸ List.mem_append_right _ (List.mem_singleton_self a))
  | deregister s a =>
    by_cases ha : a ∈ d.addresses s
    · exfalso
      have hs : some ((d.addresses s).filter (· ≠ a)) = d.services.get? s := by
        rw [← get?_change_self d, ← deregister_of_mem ha]
        exact hsame
      have haddresses : (d.addresses s).filter (· ≠ a) = d.addresses s := congrArg (Option.getD · []) hs
      rw [← haddresses] at ha
      exact of_decide_eq_true (List.mem_filter.mp ha).2 rfl
    · exact deregister_of_notMem ha
  | assign s addresses => exact absurd rfl (hstep s addresses)

/-! ## Runs -/

theorem run_snoc (d : Directory) (steps : List DirectoryStep) (step : DirectoryStep) :
    d.run (steps ++ [step]) = (d.run steps).next step := by
  simp only [run, List.foldl_append, List.foldl_cons, List.foldl_nil]

theorem run_append (d : Directory) (steps rest : List DirectoryStep) : d.run (steps ++ rest) = (d.run steps).run rest :=
  List.foldl_append

theorem version_next (d : Directory) (step : DirectoryStep) :
    d.version ≤ (d.next step).version ∧ (d.next step).version ≤ d.version + 1 := by
  rcases d.next_eq_or step with h | ⟨addresses, h⟩
  · rw [h]
    exact ⟨Nat.le_refl _, Nat.le_succ _⟩
  · rw [h]
    exact ⟨Nat.le_succ _, Nat.le_refl _⟩

theorem version_run (d : Directory) (steps : List DirectoryStep) :
    d.version ≤ (d.run steps).version ∧ (d.run steps).version ≤ d.version + steps.length := by
  induction steps using List.reverseRecOn with
  | nil => exact ⟨Nat.le_refl _, Nat.le_refl _⟩
  | append_singleton steps step ih =>
    have hstep := (d.run steps).version_next step
    rw [run_snoc, List.length_append, List.length_singleton]
    omega

/-- **Equal versions are equal directories,** however much was done in between. -/
theorem run_eq_of_version (h : (d.run steps).version = d.version) : d.run steps = d := by
  induction steps using List.reverseRecOn with
  | nil => rfl
  | append_singleton steps step ih =>
    obtain ⟨hle, -⟩ := d.version_run steps
    rw [run_snoc] at h ⊢
    -- The version never goes down, so no step in between was counted.
    rcases (d.run steps).next_eq_or step with hstep | ⟨addresses, hstep⟩
    · rw [hstep] at h ⊢
      exact ih h
    · rw [hstep] at h
      exact absurd h (Nat.ne_of_gt (Nat.lt_succ_of_le hle))

/-! ## What a history says -/

theorem known_snoc : Known defined (steps ++ [step]) s ↔ Known defined steps s ∨ step.defines s := by
  simp only [Known, List.mem_append, List.mem_singleton, or_and_right, exists_or, exists_eq_left, or_assoc]

theorem listed_snoc : Listed defined (steps ++ [step]) s a ↔
    if step.decides s a then step.lists a = true else Listed defined steps s a := by
  unfold Listed
  rw [List.filter_append]
  by_cases h : step.decides s a
  · rw [List.filter_cons_of_pos h, List.filter_nil, List.getLast?_concat, if_pos h]
  · rw [List.filter_cons_of_neg h, List.filter_nil, List.append_nil, if_neg h]

/-- The services that are known are those that a history makes known. -/
theorem known_iff (h : ∀ s, d₀.services.get? s = defined s) (steps : List DirectoryStep) (s : String) :
    ((d₀.run steps).services.get? s).isSome ↔ Known defined steps s := by
  induction steps using List.reverseRecOn with
  | nil => simp [run, Known, h]
  | append_singleton steps step ih =>
    rw [run_snoc, known_snoc, ← ih]
    by_cases hs : step.service = s
    · subst hs
      rw [get?_next]
      cases step <;> simp [DirectoryStep.service, DirectoryStep.defines, DirectoryStep.revise]
    · rw [get?_next_of_ne _ hs]
      cases step <;> simp_all [DirectoryStep.service, DirectoryStep.defines]

theorem mem_revise (step : DirectoryStep) (listed : Option (List SocketAddress)) (a : SocketAddress) :
    a ∈ (step.revise listed).getD [] ↔
      if step.decides step.service a then step.lists a = true else a ∈ listed.getD [] := by
  cases step with
  | register s b =>
    simp only [DirectoryStep.revise, DirectoryStep.decides, DirectoryStep.service, DirectoryStep.lists,
      Option.getD_some]
    grind
  | deregister s b =>
    simp only [DirectoryStep.revise, DirectoryStep.decides, DirectoryStep.service, DirectoryStep.lists]
    cases listed <;> grind
  | assign s addresses => simp [DirectoryStep.revise, DirectoryStep.decides, DirectoryStep.service, DirectoryStep.lists]

/-- What a step does to an address of a service. -/
theorem mem_addresses_next (d : Directory) (step : DirectoryStep) (s : String) (a : SocketAddress) :
    a ∈ (d.next step).addresses s ↔ if step.decides s a then step.lists a = true else a ∈ d.addresses s := by
  unfold addresses
  by_cases hs : step.service = s
  · subst hs
    rw [get?_next, mem_revise]
  · have hstep : step.decides s a = false := by cases step <;> simp_all [DirectoryStep.service, DirectoryStep.decides]
    rw [get?_next_of_ne _ hs, hstep, if_neg Bool.false_ne_true]

/-- The addresses of a service are those that a history lists. -/
theorem listed_iff (h : ∀ s, d₀.services.get? s = defined s) (steps : List DirectoryStep) (s : String)
    (a : SocketAddress) : a ∈ (d₀.run steps).addresses s ↔ Listed defined steps s a := by
  induction steps using List.reverseRecOn with
  | nil =>
    show a ∈ (d₀.services.get? s).getD [] ↔ ∃ addresses, defined s = some addresses ∧ a ∈ addresses
    rw [h]
    cases defined s <;> simp
  | append_singleton steps step ih => rw [run_snoc, mem_addresses_next, listed_snoc, ih]

/-! ## The order of the addresses -/

theorem kept_snoc (steps : List DirectoryStep) (s : String) (a : SocketAddress) (before : List SocketAddress) :
    kept (steps ++ [.deregister s a]) s before = (kept steps s before).filter (· ≠ a) := by
  unfold kept
  rw [List.filter_filter]
  refine List.filter_congr fun b _ => ?_
  simp [and_comm]

theorem kept_snoc_of_ne (h : ∀ a, step ≠ .deregister s a) (before : List SocketAddress) :
    kept (steps ++ [step]) s before = kept steps s before := by
  unfold kept
  refine List.filter_congr fun b _ => ?_
  simp [(h b).symm]

theorem adds_snoc (steps : List DirectoryStep) (step : DirectoryStep) (s : String) :
    (steps ++ [step]).filterMap (·.adds? s) = steps.filterMap (·.adds? s) ++ (step.adds? s).toList := by
  rw [List.filterMap_append]
  cases h : step.adds? s <;> simp [h]

theorem addresses_register (d : Directory) (s : String) (a : SocketAddress) :
    (d.next (.register s a)).addresses s =
      if a ∈ d.addresses s then d.addresses s else d.addresses s ++ [a] :=
  congrArg (Option.getD · []) (d.get?_next (.register s a))

theorem addresses_deregister (d : Directory) (s : String) (a : SocketAddress) :
    (d.next (.deregister s a)).addresses s = (d.addresses s).filter (· ≠ a) := by
  have hs : (d.next (.deregister s a)).services.get? s = (d.services.get? s).map (·.filter (· ≠ a)) :=
    d.get?_next (.deregister s a)
  unfold addresses
  rw [hs]
  cases d.services.get? s <;> rfl

theorem addresses_next_of_ne (d : Directory) (h : step.service ≠ s) : (d.next step).addresses s = d.addresses s :=
  congrArg (Option.getD · []) (d.get?_next_of_ne h)

/-- What is done to another service changes nothing of this. -/
theorem Grown.of_ne (h : Grown steps s before after) (hs : step.service ≠ s) :
    Grown (steps ++ [step]) s before after := by
  have hkept : kept (steps ++ [step]) s before = kept steps s before :=
    kept_snoc_of_ne (fun a ha => hs (congrArg DirectoryStep.service ha)) before
  have hadds : step.adds? s = none := by cases step <;> simp_all [DirectoryStep.service, DirectoryStep.adds?]
  unfold Grown
  rw [hkept, adds_snoc, hadds, Option.toList_none, List.append_nil]
  exact h

theorem Grown.register (h : Grown steps s before after) (a : SocketAddress) :
    Grown (steps ++ [.register s a]) s before (if a ∈ after then after else after ++ [a]) := by
  obtain ⟨new, hafter, hnew, hnodup, hfresh⟩ := h
  have hkept : kept (steps ++ [.register s a]) s before = kept steps s before :=
    kept_snoc_of_ne (fun _ => DirectoryStep.noConfusion) before
  have hadds : (DirectoryStep.register s a).adds? s = some a := if_pos rfl
  unfold Grown
  rw [hkept, adds_snoc, hadds, Option.toList_some]
  split
  · exact ⟨new, hafter, hnew.trans (List.sublist_append_left _ _), hnodup, hfresh⟩
  · rename_i ha
    rw [hafter, List.mem_append, not_or] at ha
    refine ⟨new ++ [a], by rw [hafter, List.append_assoc], hnew.append (List.Sublist.refl _), ?_, ?_⟩
    · exact List.nodup_append.mpr ⟨hnodup, List.nodup_singleton a, fun b hb c hc =>
        List.mem_singleton.mp hc ▸ ne_of_mem_of_not_mem hb ha.2⟩
    · intro b hb
      rcases List.mem_append.mp hb with hb | hb
      · exact hfresh b hb
      · exact List.mem_singleton.mp hb ▸ ha.1

theorem Grown.deregister (h : Grown steps s before after) (a : SocketAddress) :
    Grown (steps ++ [.deregister s a]) s before (after.filter (· ≠ a)) := by
  obtain ⟨new, hafter, hnew, hnodup, hfresh⟩ := h
  have hadds : (DirectoryStep.deregister s a).adds? s = none := rfl
  unfold Grown
  rw [kept_snoc, adds_snoc, hadds, Option.toList_none, List.append_nil]
  refine ⟨new.filter (· ≠ a), by rw [hafter, List.filter_append], List.filter_sublist.trans hnew,
    hnodup.filter _, fun b hb hmem => hfresh b (List.mem_filter.mp hb).1 (List.mem_filter.mp hmem).1⟩

/-- **The order of addresses,** as long as the service is not given all of its addresses anew. -/
theorem grown_run (d : Directory) (h : ∀ step ∈ steps, step.assigns s = false) :
    Grown steps s (d.addresses s) ((d.run steps).addresses s) := by
  induction steps using List.reverseRecOn with
  | nil => exact ⟨[], by simp [run, kept, List.filter_eq_self.mpr], List.Sublist.refl _, List.nodup_nil, nofun⟩
  | append_singleton steps step ih =>
    have hgrown := ih fun step hstep => h step (List.mem_append_left _ hstep)
    rw [run_snoc]
    by_cases hs : step.service = s
    · cases step with
      | register s' a =>
        obtain rfl : s' = s := hs
        rw [addresses_register]
        exact hgrown.register a
      | deregister s' a =>
        obtain rfl : s' = s := hs
        rw [addresses_deregister]
        exact hgrown.deregister a
      | assign s' addresses =>
        have hassigns : DirectoryStep.assigns s (.assign s' addresses) = false := h _ (by simp)
        exact absurd hs (of_decide_eq_false hassigns)
    · rw [addresses_next_of_ne _ hs]
      exact hgrown.of_ne hs

/-! ## Definitions -/

theorem get?_foldl_set (services : List (String × List SocketAddress)) (t : Table String (List SocketAddress))
    (s : String) : (services.foldl (fun t (name, addresses) => t.set name addresses) t).get? s =
      (services.reverse.lookup s).or (t.get? s) := by
  induction services generalizing t with
  | nil => rfl
  | cons service services ih =>
    rw [List.foldl_cons, ih, Table.get?_set, List.reverse_cons, List.lookup_append, Option.or_assoc, List.lookup_cons]
    by_cases hs : service.1 = s
    · simp [hs]
    · simp [hs, beq_false_of_ne (Ne.symm hs)]

/-- An entry of a document, and what it defines. -/
def Reads (entry : String × Toml.Value) (service : String × List SocketAddress) : Prop :=
  service.1 = entry.1 ∧ addressesOfToml? entry.2 = some service.2

theorem reads_of_mapM {entries : List (String × Toml.Value)} {services : List (String × List SocketAddress)}
    (h : entries.mapM (fun (name, v) => (addressesOfToml? v).map (name, ·)) = some services) :
    List.Forall₂ Reads entries services := by
  induction entries generalizing services with
  | nil =>
    cases h
    exact .nil
  | cons entry entries ih =>
    rw [List.mapM_cons] at h
    simp only [Option.pure_def, Option.bind_eq_bind, Option.bind_eq_some_iff, Option.map_eq_some_iff,
      Option.some.injEq] at h
    obtain ⟨_, ⟨addresses, haddresses, rfl⟩, services, hservices, rfl⟩ := h
    exact .cons ⟨rfl, haddresses⟩ (ih hservices)

theorem lookup_of_reads {entries : List (String × Toml.Value)} {services : List (String × List SocketAddress)}
    (h : List.Forall₂ Reads entries services) (s : String) :
    services.lookup s = (entries.lookup s).bind addressesOfToml? := by
  induction h with
  | nil => rfl
  | cons hread _ ih =>
    obtain ⟨hname, haddresses⟩ := hread
    rw [List.lookup_cons, List.lookup_cons, hname]
    split
    · exact haddresses.symm
    · exact ih

/-- A directory begins with what its definition lists, and its version with nothing. -/
theorem Loaded.begins (h : Loaded d defined) : (∀ s, d.services.get? s = defined s) ∧ d.version = 0 := by
  cases h with
  | new => exact ⟨fun _ => rfl, rfl⟩
  | @text text document d hdocument hd =>
    have hdefined : ofDocument? document = some d := by
      unfold ofToml at hd
      rw [hdocument, Option.bind_some] at hd
      split at hd
      · rename_i d' hd'
        exact hd'.trans (congrArg some (Except.ok.inj hd))
      · cases hd
    unfold ofDocument? at hdefined
    unfold definition?
    cases hservices : document.lookup "services" with
    | none =>
      rw [hservices] at hdefined
      cases hdefined
      exact ⟨fun _ => rfl, rfl⟩
    | some v =>
      rw [hservices] at hdefined
      obtain ⟨services, hv, hd⟩ := Option.bind_eq_some_iff.mp hdefined
      cases hd
      cases v with
      | table entries =>
        refine ⟨fun s => ?_, rfl⟩
        have hreads := List.forall₂_reverse_iff.mpr (reads_of_mapM hv)
        rw [get?_foldl_set, Table.get?_empty, Option.or_none]
        exact lookup_of_reads hreads s
      | _ => cases hv

/-! ## The main statement -/

/-- **A directory answers what its history says.** A service is unknown as long as the definition does not name it and
nothing was registered or assigned for it. The addresses of a known one are those of which the last step that says
something about them, or else the definition, says so; they stand in the order in which they came. A step changes the
answer about no other service. Each step that changes an answer is counted, and a registration or its opposite that
changes none is not; where the version is the same, so is every answer. -/
theorem answers_history (h : Loaded d₀ defined) (past : List DirectoryStep) :
    let d := d₀.run past
    (∀ s, d.resolve s = .error (.unknownService s) ↔ ¬ Known defined past s) ∧
      (∀ s, Known defined past s → d.resolve s = .ok (d.addresses s)) ∧
      (∀ s a, a ∈ d.addresses s ↔ Listed defined past s a) ∧
      (∀ s rest, (∀ step ∈ rest, step.assigns s = false) →
        Grown rest s (d.addresses s) ((d₀.run (past ++ rest)).addresses s)) ∧
      (∀ s addresses, (d₀.run (past ++ [.assign s addresses])).resolve s = .ok addresses) ∧
      (∀ step s, step.service ≠ s → (d₀.run (past ++ [step])).resolve s = d.resolve s) ∧
      (∀ step s, (d₀.run (past ++ [step])).resolve s ≠ d.resolve s →
        (d₀.run (past ++ [step])).version = d.version + 1) ∧
      (∀ step, (∀ s addresses, step ≠ .assign s addresses) →
        (∀ s, (d₀.run (past ++ [step])).resolve s = d.resolve s) →
        (d₀.run (past ++ [step])).version = d.version) ∧
      (∀ rest, (d₀.run (past ++ rest)).version = d.version →
        ∀ s, (d₀.run (past ++ rest)).resolve s = d.resolve s) ∧
      d.version ≤ past.length := by
  intro d
  obtain ⟨hbegins, hversion⟩ := h.begins
  have hknown (s : String) : (d.services.get? s).isSome ↔ Known defined past s := known_iff hbegins past s
  refine ⟨fun s => ?_, fun s hs => ?_, listed_iff hbegins past, fun s rest hrest => ?_, fun s addresses => ?_,
    fun step s hs => ?_, fun step s hs => ?_, fun step hstep hsame => ?_, fun rest hrest s => ?_, ?_⟩
  · rw [resolve_eq_error_iff, ← hknown, Bool.not_eq_true, Option.isSome_eq_false_iff, Option.isNone_iff_eq_none]
  · refine (d.resolve_eq_or s).resolve_right fun he => ?_
    rw [resolve_eq_error_iff] at he
    rw [← hknown, he] at hs
    cases hs
  · rw [run_append]
    exact d.grown_run hrest
  · rw [run_snoc, resolve_eq_ok_iff]
    exact get?_change_self ..
  · rw [run_snoc, resolve_eq_resolve_iff]
    exact d.get?_next_of_ne hs
  · rw [run_snoc] at hs ⊢
    rcases d.next_eq_or step with hd | ⟨addresses, hd⟩
    · exact absurd (congrArg (resolve · s) hd) hs
    · exact congrArg version hd
  · rw [run_snoc]
    refine congrArg version (next_eq_of_same hstep ?_)
    rw [← resolve_eq_resolve_iff, ← run_snoc]
    exact hsame step.service
  · rw [run_append] at hrest ⊢
    rw [run_eq_of_version hrest]
  · have hle := (d₀.version_run past).2
    rw [hversion, Nat.zero_add] at hle
    exact hle

/-- A document lists one address of `Echo`. It is given another one twice and the first one, the one that came twice
is taken away again and `Users` gets it: then `Echo` has the first one only, after three changes that count, and with
the other one registered once more it has both, the first one before it. -/
theorem answers_history_echo :
    let one : SocketAddress := .v4 0x0A000001 80
    let two : SocketAddress := .v4 0x0A000002 80
    let text := "services.Echo = [\"10.0.0.1:80\"]"
    let past : List DirectoryStep :=
      [.assign "Echo" [two, one, two], .register "Echo" one, .deregister "Echo" two, .register "Users" two]
    ∃ document d₀, Toml.parse? text = some document ∧ ofToml text = .ok d₀ ∧
      (d₀.run past).resolve "Missing" = .error (.unknownService "Missing") ∧
      (d₀.run past).resolve "Echo" = .ok [one] ∧
      two ∉ (d₀.run past).addresses "Echo" ∧ two ∈ (d₀.run past).addresses "Users" ∧
      Grown [.register "Echo" two] "Echo" [one] [one, two] ∧
      (d₀.run (past ++ [.register "Users" one])).resolve "Echo" = .ok [one] ∧
      (d₀.run (past ++ [.register "Echo" two])).version = 4 ∧
      (d₀.run (past ++ [.deregister "Echo" two])).version = 3 ∧ (d₀.run past).version = 3 := by
  intro one two text past
  have hdocument : Toml.parse? text = some [("services", .table [("Echo", .array [.string "10.0.0.1:80"])])] := by cbv
  have hd : ofToml text = .ok ⟨⟨[("Echo", [one])]⟩, 0⟩ := by
    rw [ofToml, hdocument]
    cbv
  obtain ⟨hunknown, hknown, hlisted, hgrown, -, hother, hcounted, huncounted, -, -⟩ :=
    answers_history (.text hdocument hd) past
  set d := run ⟨⟨[("Echo", [one])]⟩, 0⟩ past
  have hone : d.addresses "Echo" = [one] := by decide
  have hversion : d.version = 3 := by decide
  have hmissing : ¬ Known (definition? [("services", .table [("Echo", .array [.string "10.0.0.1:80"])])]) past
      "Missing" := by
    rintro (h | h) <;> exact absurd h (by decide)
  have hecho : d.resolve "Echo" = .ok [one] := hone ▸ hknown "Echo" (.inr ⟨_, List.mem_cons_self, rfl⟩)
  have htwo : two ∉ d.addresses "Echo" := fun h => Bool.false_ne_true ((hlisted "Echo" two).mp h)
  have husers : two ∈ d.addresses "Users" :=
    (hlisted "Users" two).mpr (rfl : DirectoryStep.lists two (.register "Users" two) = true)
  have hlater : (run ⟨⟨[("Echo", [one])]⟩, 0⟩ (past ++ [.register "Echo" two])).addresses "Echo" = [one, two] := by
    decide
  have hboth := hgrown "Echo" [.register "Echo" two] (by decide)
  rw [hone, hlater] at hboth
  have hmore := hcounted (.register "Echo" two) "Echo" (by decide)
  have hsame := huncounted (.deregister "Echo" two) (fun _ _ => DirectoryStep.noConfusion) fun s =>
    congrArg (resolve · s) (deregister_of_notMem htwo)
  exact ⟨_, _, hdocument, hd, (hunknown "Missing").mpr hmissing, hecho, htwo, husers, hboth,
    (hother (.register "Users" one) "Echo" (by decide)).trans hecho, hmore.trans (congrArg (· + 1) hversion),
    hsame.trans hversion, hversion⟩

end Directory

end Rpc
