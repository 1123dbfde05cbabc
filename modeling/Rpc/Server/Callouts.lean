import Rpc.Server.Pipeline

/-!
# Calls of filters and methods

Filters and methods are not a server's own code. From `FilterChain.runBy` to `Pipeline.dispatchBy` the way of a message
to its reply is written with the calls of filters and methods as steps of a monad (`Callouts`), so that other things can
be seen of them than what they give.

- `Callouts.direct`: the calls as they are;
- `Callouts.noted`: each call is noted down (`Contact`), in the order in which they are made.
-/

namespace Rpc

variable {σ : Type} {M : Type → Type}

/-- How filters are asked and methods are run. -/
structure Callouts (σ : Type) (M : Type → Type) where
  ask : Call → Filter σ → M (Filter σ × Verdict)
  perform : Method → List Value → M (Timed MethodEnding)

/-- A call of a filter or of a method. -/
inductive Contact (σ : Type) where
  | asked (f : Filter σ) (call : Call)
  | performed (method : Method) (args : List Value)

namespace Callouts

/-- Calls as they are. -/
def direct [Monad M] : Callouts σ M where
  ask call f := pure (f.ask call)
  perform method args := pure (method.run args)

/-- Calls, each noted down behind those before it. -/
def noted : Callouts σ (StateM (List (Contact σ))) where
  ask call f := modifyGet fun log => (f.ask call, log ++ [.asked f call])
  perform method args := modifyGet fun log => (method.run args, log ++ [.performed method args])

end Callouts

variable [Monad M]

/-- Asks the filters, up to the first that does not allow the request. -/
def FilterChain.runBy (out : Callouts σ M) (call : Call) :
    FilterChain σ → M (FilterChain σ × Except RemoteError Unit)
  | [] => pure ([], .ok ())
  | f :: fs => do
    let (f, verdict) ← out.ask call f
    match verdict.error? f.name with
    | some e => pure (f :: fs, .error e)
    | none => do
      let (fs, result) ← runBy out call fs
      pure (f :: fs, result)

/-- Runs the method that a request names. -/
def ServiceTable.invokeBy (out : Callouts σ M) (t : ServiceTable) (r : Request) :
    M (Timed (Except RemoteError Value)) :=
  match t.resolve r with
  | .error e => pure (.now (.error e))
  | .ok method => do
    let ending ← out.perform method r.args
    pure (ending.map replyOf)

/-- Runs the method of an admitted request; the reply. -/
def Invocation.runBy (out : Callouts σ M) (i : Invocation) (services : ServiceTable) : M (Timed Message) := do
  let outcome ← services.invokeBy out i.request
  pure (outcome.map fun outcome => i.message.reply ⟨i.message.requestId, outcome⟩)

namespace Pipeline

/-- What is to be done with a message from a peer. -/
def receiveBy (out : Callouts σ M) (p : Pipeline σ) (peer : SocketAddress) (now : Instant) (m : Message) :
    M (Pipeline σ × Admission) :=
  match m.type with
  | .heartbeatRequest => pure (p, .reply m.heartbeatReply)
  | .request =>
    match m.payload with
    | .request request => do
      match ← p.filters.runBy out ⟨peer, m.requestId, request, now⟩ with
      | (filters, .ok ()) => pure ({ p with filters := filters }, .invoke ⟨{ m with payload := .empty }, request⟩)
      | (filters, .error e) => pure ({ p with filters := filters }, .reply (m.reply (.err m.requestId e)))
    | _ => pure (p, .reply (m.reply (.err m.requestId ⟨.badRequest, "request has no body", none⟩)))
  | _ => pure (p, .ignore)

/-- The reply to a message from a peer, if there is to be one. -/
def dispatchBy (out : Callouts σ M) (p : Pipeline σ) (peer : SocketAddress) (now : Instant) (m : Message) :
    M (Pipeline σ × Timed (Option Message)) := do
  match ← p.receiveBy out peer now m with
  | (p, .reply reply) => pure (p, .now (some reply))
  | (p, .invoke i) => do
    let reply ← i.runBy out p.services
    pure (p, reply.map some)
  | (p, .ignore) => pure (p, .now none)

end Pipeline

end Rpc
