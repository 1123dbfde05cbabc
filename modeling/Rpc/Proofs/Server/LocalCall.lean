import Mathlib.Data.List.Induction
import Rpc.Proofs.Server.Turn
import Rpc.Server.LocalCall
import Rpc.Session

/-!
# Looking at a request and making the call

What the reader of a connection decides about a request is what comes of the same call without a network: it makes the
reply itself, or leaves an invocation that leads to it (`Pipeline.look_request`). Filters learn the same from both
(`Pipeline.look_eq`).
-/

namespace Rpc

/-- Filters that remember nothing are the same after a call. -/
theorem FilterChain.run_of_forgetful {σ : Type} {fs : FilterChain σ} (h : ∀ f ∈ fs, ∀ call, (f.ask call).1 = f)
    (call : Call) : (fs.run call).1 = fs := by
  induction fs with
  | nil => rfl
  | cons f fs ih =>
    have hf := h f List.mem_cons_self call
    have hfs := ih fun g hg => h g (List.mem_cons_of_mem f hg)
    simp only [run]
    split
    · exact congrArg (· :: fs) hf
    · dsimp only
      rw [hf, hfs]

namespace Pipeline

variable {σ : Type} (p : Pipeline σ) (peer : SocketAddress) (now : Instant)

theorem respond_services (call : Call) : (p.respond call).1.services = p.services := rfl

@[simp] theorem after_nil : p.after [] = p := rfl

theorem after_snoc (past : List Call) (call : Call) :
    p.after (past ++ [call]) = ((p.after past).respond call).1 := by
  simp [after]

/-- Calls change nothing but what the filters remember. -/
theorem after_services (calls : List Call) : (p.after calls).services = p.services := by
  unfold after
  induction calls generalizing p with
  | nil => rfl
  | cons call calls ih =>
    rw [List.foldl_cons, ih]
    exact p.respond_services call

/-- What the methods give is up to the services only. -/
theorem responseTo_of_services {p q : Pipeline σ} (h : q.services = p.services) : q.responseTo = p.responseTo := by
  funext id request verdict
  cases verdict with
  | error e => rfl
  | ok u =>
    simp only [responseTo]
    rw [h]

/-- The response to a call that is made after others is up to what the filters say to it then. -/
theorem respondAfter_eq (past : List Call) (call : Call) :
    p.respondAfter past call = p.responseTo call.requestId call.request (p.verdictAfter past call) := by
  show (p.after past).responseTo call.requestId call.request (p.verdictAfter past call) = _
  rw [responseTo_of_services (p.after_services past)]

/-- Filters that remember nothing say the same after any calls. -/
theorem verdictAfter_of_forgetful (h : ∀ f ∈ p.filters, ∀ call, (f.ask call).1 = f) (past : List Call) (call : Call) :
    p.verdictAfter past call = (p.filters.run call).2 := by
  have hafter : ∀ calls : List Call, (p.after calls).filters = p.filters := by
    intro calls
    induction calls using List.reverseRecOn with
    | nil => rfl
    | append_singleton calls call ih =>
      rw [after_snoc]
      show ((p.after calls).filters.run call).1 = p.filters
      rw [ih]
      exact FilterChain.run_of_forgetful h call
  unfold verdictAfter
  rw [hafter]

/-- Where no filter is asked, nothing is learnt. -/
theorem look_eq (i : Inbound) :
    (p.look peer now i).1 = (i.call? peer now).elim p fun call => (p.respond call).1 := by
  cases i with
  | error e => rfl
  | ok m =>
    simp only [look, receive, Inbound.call?]
    cases m.type with
    | request =>
      cases m.payload with
      | request r =>
        simp only [Option.elim_some, respond]
        split <;> simp_all
      | empty | response => rfl
    | heartbeatRequest | response | heartbeatResponse => rfl

/-- **What the reader decides about a request leads to the response of the local call.** -/
theorem look_request (x : RemoteCall) :
    (p.look peer now (.ok x.message)).2 =
        .reply (x.message.reply (p.respond ⟨peer, x.requestId, x.request, now⟩).2) ∨
      ∃ i, (p.look peer now (.ok x.message)).2 = .invoke i ∧ i.message.requestId = x.requestId ∧
        (i.run p.services).result = x.message.reply (p.respond ⟨peer, x.requestId, x.request, now⟩).2 := by
  simp only [look, receive, RemoteCall.message, Message.request, respond]
  split
  · rename_i filters hf
    right
    rw [hf]
    exact ⟨_, rfl, rfl, rfl⟩
  · rename_i filters error hf
    left
    rw [hf]
    rfl

/-- The call about which filters are asked for a request. -/
theorem call_request (x : RemoteCall) :
    Inbound.call? peer now (.ok x.message) = some ⟨peer, x.requestId, x.request, now⟩ := rfl

end Pipeline

end Rpc
