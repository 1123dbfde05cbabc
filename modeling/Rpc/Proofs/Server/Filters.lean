import Rpc.Proofs.Server.LocalCall
import Rpc.Server.Callouts

/-!
# What comes of asking a chain of filters

- `FilterChain.Decides`: who is asked about a call, what becomes of the filters, and the result, by the first filter
  that does not allow the call; `FilterChain.decides_run`: so it is with every chain, as the calls noted down show;
- `FilterChain.runBy_append`: filters behind others are asked if those allow the call, in every monad;
- `FilterChain.sieve`: each filter after the calls that all filters before it allowed; `FilterChain.after_eq_sieve`:
  this is what calls, one after the other, leave behind;
- `Pipeline.first_refusal_decides`: the main statement.
-/

namespace Rpc

variable {σ : Type} {M : Type → Type}

/-! ## One filter -/

namespace Filter

variable (f : Filter σ) (call : Call)

/-- The filter after it was asked about a call. -/
def told : Filter σ := (f.ask call).1

/-- What the filter says to a call. -/
def verdict : Verdict := (f.ask call).2

/-- A filter keeps its name. -/
theorem name_told : (f.told call).name = f.name := by
  cases f with
  | traffic limiter => rfl
  | custom name state decide => rfl

/-- The filter after calls, the first of them first. -/
def toldAll (calls : List Call) : Filter σ := calls.foldl told f

/-- The calls that the filter allows, if it is asked about them one after the other. -/
def passed (f : Filter σ) : List Call → List Call
  | [] => []
  | call :: calls =>
    if f.verdict call = .allow then call :: passed (f.told call) calls else passed (f.told call) calls

end Filter

/-- The error for the caller of a call that a filter does not allow. -/
inductive Verdict.Refuses (name : String) : Verdict → RemoteError → Prop
  | deny {e : RemoteError} : e.kind = .filtered → e.filter = some name → Refuses name .deny e
  | fault {reason : String} {e : RemoteError} : e.kind = .filterFault → e.filter = some name → e.message = reason →
      Refuses name (.fault reason) e
  | crash {c : Crash} {e : RemoteError} : e.kind = .filterFault → e.filter = some name → e.message = c.message →
      Refuses name (.crash c) e

namespace Verdict

variable {v : Verdict} {name : String} {e : RemoteError}

/-- A call is allowed, or there is an error for its caller. -/
theorem error?_eq_none_iff : v.error? name = none ↔ v = .allow := by
  cases v <;> simp [error?]

theorem refuses_of_error? (h : v.error? name = some e) : v.Refuses name e := by
  cases v with
  | allow => cases h
  | deny =>
    cases h
    exact .deny rfl rfl
  | fault reason =>
    cases h
    exact .fault rfl rfl rfl
  | crash c =>
    cases h
    exact .crash rfl rfl rfl

end Verdict

namespace FilterChain

variable {call : Call} {f : Filter σ} {fs gs later asked : FilterChain σ} {e : RemoteError}
  {result : Except RemoteError Unit}

/-! ## One call -/

theorem run_cons_of_allow (hf : f.verdict call = .allow) (fs : FilterChain σ) :
    run call (f :: fs) = (f.told call :: (fs.run call).1, (fs.run call).2) := by
  have herror : (f.ask call).2.error? (f.ask call).1.name = none := Verdict.error?_eq_none_iff.mpr hf
  simp only [run, herror]
  rfl

theorem run_cons_of_error (he : (f.verdict call).error? f.name = some e) (fs : FilterChain σ) :
    run call (f :: fs) = (f.told call :: fs, .error e) := by
  rw [← f.name_told call] at he
  have herror : (f.ask call).2.error? (f.ask call).1.name = some e := he
  simp only [run, herror]
  rfl

/-- A chain that is asked with calls as they are is asked as by `run`. -/
theorem runBy_direct [Monad M] [LawfulMonad M] (call : Call) (fs : FilterChain σ) :
    runBy .direct call fs = (pure (fs.run call) : M _) := by
  induction fs with
  | nil => rfl
  | cons f fs ih =>
    simp only [runBy, run, Callouts.direct, pure_bind] at ih ⊢
    split <;> simp_all

/-- **Filters behind others** are asked if those allow the call, whatever asking does. -/
theorem runBy_append [Monad M] [LawfulMonad M] (out : Callouts σ M) (call : Call) (fs gs : FilterChain σ) :
    runBy out call (fs ++ gs) = (do
      match ← fs.runBy out call with
      | (fs, .ok ()) =>
        let (gs, result) ← gs.runBy out call
        pure (fs ++ gs, result)
      | (fs, .error e) => pure (fs ++ gs, .error e)) := by
  induction fs with
  | nil => simp [runBy]
  | cons f fs ih =>
    simp only [List.cons_append, runBy, ih, bind_assoc]
    refine bind_congr fun (f, verdict) => ?_
    cases verdict.error? f.name with
    | some e => simp
    | none =>
      simp only [bind_assoc]
      refine bind_congr fun (fs, result) => ?_
      cases result with
      | error e => simp
      | ok => simp

/-- So it is with calls as they are. -/
theorem run_append (call : Call) (fs gs : FilterChain σ) :
    run call (fs ++ gs) =
      match fs.run call with
      | (fs, .ok ()) => (fs ++ (gs.run call).1, (gs.run call).2)
      | (fs, .error e) => (fs ++ gs, .error e) := by
  have happend := runBy_append (M := Id) .direct call fs gs
  simp only [runBy_direct, pure_bind] at happend
  exact happend

/-- What comes of asking a chain about a call: what becomes of the filters, who is asked, one after the other, and the
result. If all filters allow the call, each is asked; else those up to the first that does not, and those behind it are
left as they are. -/
inductive Decides (call : Call) :
    (fs new : FilterChain σ) → (asked : List (Filter σ)) → (result : Except RemoteError Unit) → Prop
  | allowed {fs : FilterChain σ} : (∀ f ∈ fs, f.verdict call = .allow) →
      Decides call fs (fs.map (·.told call)) fs (.ok ())
  | refused {before later : FilterChain σ} {f : Filter σ} {e : RemoteError} :
      (∀ g ∈ before, g.verdict call = .allow) → (f.verdict call).Refuses f.name e →
      Decides call (before ++ f :: later) (before.map (·.told call) ++ f.told call :: later) (before ++ [f]) (.error e)

/-- A filter in front that allows the call is asked first. -/
theorem Decides.cons (hf : f.verdict call = .allow) (h : Decides call fs gs asked result) :
    Decides call (f :: fs) (f.told call :: gs) (f :: asked) result := by
  cases h with
  | allowed hall => exact .allowed (List.forall_mem_cons.mpr ⟨hf, hall⟩)
  | refused hbefore hrefuses => exact .refused (List.forall_mem_cons.mpr ⟨hf, hbefore⟩) hrefuses

/-- Exactly a chain of filters that all allow the call has no error. -/
theorem Decides.ok_iff (h : Decides call fs gs asked result) :
    result = .ok () ↔ ∀ f ∈ fs, f.verdict call = .allow := by
  cases h with
  | allowed hall => exact ⟨fun _ => hall, fun _ => rfl⟩
  | @refused before later f e _ hrefuses =>
    refine ⟨fun h => (by cases h), fun hall => ?_⟩
    rw [hall f (by simp)] at hrefuses
    cases hrefuses

theorem run_ask_noted (call : Call) (f : Filter σ) (log : List (Contact σ)) :
    (Callouts.noted.ask call f).run log = pure (f.ask call, log ++ [.asked f call]) := rfl

/-- **What comes of a call, by the first filter that does not allow it.** The filters that are asked are noted down. -/
theorem decides_run (call : Call) (fs : FilterChain σ) :
    ∃ asked : List (Filter σ), Decides call fs (fs.run call).1 asked (fs.run call).2 ∧
      ∀ log, (fs.runBy .noted call).run log = pure (fs.run call, log ++ asked.map (.asked · call)) := by
  induction fs with
  | nil => exact ⟨[], .allowed (List.forall_mem_nil _), fun log => by simp [runBy, run]⟩
  | cons f fs ih =>
    cases he : (f.verdict call).error? f.name with
    | none =>
      obtain ⟨asked, hdecides, hlog⟩ := ih
      have hf := Verdict.error?_eq_none_iff.mp he
      have herror : (f.ask call).2.error? (f.ask call).1.name = none := Verdict.error?_eq_none_iff.mpr hf
      rw [run_cons_of_allow hf]
      refine ⟨f :: asked, hdecides.cons hf, fun log => ?_⟩
      simp only [runBy, StateT.run_bind, run_ask_noted, pure_bind, herror, hlog, StateT.run_pure, List.map_cons,
        List.append_assoc, List.singleton_append]
      rfl
    | some e =>
      have herror : (f.ask call).2.error? (f.ask call).1.name = some e := f.name_told call ▸ he
      rw [run_cons_of_error he]
      refine ⟨[f], .refused (List.forall_mem_nil _) (Verdict.refuses_of_error? he), fun log => ?_⟩
      simp only [runBy, StateT.run_bind, run_ask_noted, pure_bind, herror, StateT.run_pure, List.map_cons,
        List.map_nil]
      rfl

/-! ## Calls one after the other -/

/-- The chain after calls, the first of them first. -/
def after (fs : FilterChain σ) (calls : List Call) : FilterChain σ := calls.foldl (fun fs call => (fs.run call).1) fs

/-- Each filter after the calls, among some, that all filters before it allowed. -/
def sieve (calls : List Call) : FilterChain σ → FilterChain σ
  | [] => []
  | f :: fs => f.toldAll calls :: sieve (f.passed calls) fs

theorem sieve_nil (fs : FilterChain σ) : fs.sieve [] = fs := by
  induction fs with
  | nil => rfl
  | cons f fs ih => exact congrArg (f :: ·) ih

/-- One call more, in front of all others. -/
theorem sieve_cons (call : Call) (calls : List Call) (fs : FilterChain σ) :
    fs.sieve (call :: calls) = (fs.run call).1.sieve calls := by
  induction fs generalizing calls with
  | nil => rfl
  | cons f fs ih =>
    cases he : (f.verdict call).error? f.name with
    | none =>
      have hf := Verdict.error?_eq_none_iff.mp he
      rw [run_cons_of_allow hf]
      simp only [sieve, Filter.passed, hf, if_true, ih]
      rfl
    | some e =>
      have hf : f.verdict call ≠ .allow := fun hf => by simp [hf, Verdict.error?] at he
      rw [run_cons_of_error he]
      simp only [sieve, Filter.passed, hf, if_false]
      rfl

/-- **What calls leave behind:** each filter was asked about those that all filters before it allowed. -/
theorem after_eq_sieve (fs : FilterChain σ) (calls : List Call) : fs.after calls = fs.sieve calls := by
  unfold after
  induction calls generalizing fs with
  | nil => exact (sieve_nil fs).symm
  | cons call calls ih => rw [List.foldl_cons, ih, sieve_cons]

end FilterChain

/-! ## Requests -/

/-- A message that brings the request of a call. -/
def Call.message (call : Call) (serializer compressor : UInt8) : Message :=
  ⟨.request, serializer, compressor, call.requestId, .request call.request⟩

/-- What is done with a message that brings a request, once the filters have been asked. -/
def Message.judged (m : Message) (r : Request) : Except RemoteError Unit → Admission
  | .ok () => .invoke ⟨{ m with payload := .empty }, r⟩
  | .error e => .reply (m.reply (.err m.requestId e))

namespace Pipeline

variable (p : Pipeline σ) (call : Call) (serializer compressor : UInt8)

/-- The pipeline after its filters were asked about a call. -/
def told : Pipeline σ := { p with filters := (p.filters.run call).1 }

theorem after_filters (calls : List Call) : (p.after calls).filters = p.filters.after calls := by
  unfold after FilterChain.after
  induction calls generalizing p with
  | nil => rfl
  | cons call calls ih =>
    rw [List.foldl_cons, ih]
    rfl

theorem receive_message :
    p.receive call.peer call.now (call.message serializer compressor) =
      (p.told call, (call.message serializer compressor).judged call.request (p.filters.run call).2) := by
  simp only [receive, Call.message]
  split
  · next h =>
    rw [told, show p.filters.run call = _ from h]
    rfl
  · next h =>
    rw [told, show p.filters.run call = _ from h]
    rfl

/-- The filters that are asked about a request are noted down. -/
theorem receiveBy_message {asked : List (Filter σ)} {log : List (Contact σ)}
    (h : (p.filters.runBy .noted call).run log = pure (p.filters.run call, log ++ asked.map (.asked · call))) :
    (p.receiveBy .noted call.peer call.now (call.message serializer compressor)).run log =
      pure ((p.told call, (call.message serializer compressor).judged call.request (p.filters.run call).2),
        log ++ asked.map (.asked · call)) := by
  simp only [receiveBy, Call.message, StateT.run_bind]
  rw [show (p.filters.runBy .noted ⟨call.peer, call.requestId, call.request, call.now⟩).run log = _ from h, pure_bind]
  unfold told
  cases hrun : p.filters.run call with
  | mk filters result => cases result <;> rfl

/-- **A chain decides about a request by the first filter that does not allow it.** After any calls, the filters are
asked about the next one up to the first that does not allow it, once each and in their order, and those behind it are
left as they are (`FilterChain.Decides`). The request is to be invoked exactly if all filters allow it, and is answered
with the error otherwise. Each filter has then been asked about exactly those calls that all filters before it allowed.
A chain behind another is asked exactly if the other allows the call. -/
theorem first_refusal_decides (past : List Call) :
    let q := p.after past
    let m := call.message serializer compressor
    (∃ asked : List (Filter σ),
      (q.receiveBy .noted call.peer call.now m).run [] =
        (q.receive call.peer call.now m, asked.map (.asked · call)) ∧
      FilterChain.Decides call q.filters (q.receive call.peer call.now m).1.filters asked (q.filters.run call).2) ∧
    ((q.receive call.peer call.now m).2 = .invoke ⟨{ m with payload := .empty }, call.request⟩ ↔
      ∀ f ∈ q.filters, f.verdict call = .allow) ∧
    (∀ e, (q.filters.run call).2 = .error e →
      (q.receive call.peer call.now m).2 = .reply (m.reply (.err call.requestId e))) ∧
    q.filters = p.filters.sieve past ∧
    ∀ fs gs : FilterChain σ, FilterChain.run call (fs ++ gs) =
      match fs.run call with
      | (fs, .ok ()) => (fs ++ (gs.run call).1, (gs.run call).2)
      | (fs, .error e) => (fs ++ gs, .error e) := by
  intro q m
  obtain ⟨asked, hdecides, hlog⟩ := q.filters.decides_run call
  have hreceive : q.receive call.peer call.now m = (q.told call, m.judged call.request (q.filters.run call).2) :=
    q.receive_message call serializer compressor
  have hnoted := q.receiveBy_message call serializer compressor (hlog [])
  rw [hreceive]
  refine ⟨⟨asked, hnoted, hdecides⟩, ?_, fun e he => ?_, ?_, FilterChain.run_append call⟩
  · rw [← hdecides.ok_iff]
    cases (q.filters.run call).2 with
    | ok => exact ⟨fun _ => rfl, fun _ => rfl⟩
    | error e => simp [Message.judged]
  · rw [he]
    rfl
  · rw [show q.filters = p.filters.after past from p.after_filters past, FilterChain.after_eq_sieve]

end Pipeline

end Rpc
