import Rpc.Server.Pipeline

/-!
# Calls without a network

What a pipeline answers to calls that are made on the spot, one after the other: the error of the first filter that
does not allow a call, or what its method gives (`Pipeline.respond`). Filters remember the calls that they were asked
about (`Pipeline.after`).
-/

namespace Rpc

namespace Pipeline

variable {σ : Type}

/-- The response to a request, once the filters have been asked: their error, or what the method gives. -/
def responseTo (p : Pipeline σ) (requestId : UInt32) (request : Request) : Except RemoteError Unit → Response
  | .error e => .err requestId e
  | .ok () => ⟨requestId, (p.services.invoke request).result⟩

/-- The response to a call, and the pipeline after it. -/
def respond (p : Pipeline σ) (call : Call) : Pipeline σ × Response :=
  let (filters, verdict) := p.filters.run call
  ({ p with filters := filters }, p.responseTo call.requestId call.request verdict)

/-- The pipeline after calls, the first of them first. -/
def after (p : Pipeline σ) (calls : List Call) : Pipeline σ := calls.foldl (fun p call => (p.respond call).1) p

/-- What the filters say to a call that is made after others. -/
def verdictAfter (p : Pipeline σ) (past : List Call) (call : Call) : Except RemoteError Unit :=
  ((p.after past).filters.run call).2

/-- The response to a call that is made after others. -/
def respondAfter (p : Pipeline σ) (past : List Call) (call : Call) : Response := ((p.after past).respond call).2

end Pipeline

end Rpc
