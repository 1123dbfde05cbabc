import Rpc.Frame
import Rpc.Server.Filter

/-!
# From messages to replies

- `Pipeline.receive`: what is to be done with a message; only requests meet filters, and only those that all filters
  allow are invoked (`Admission`);
- `Pipeline.dispatch`: a message through to its reply, under the id, serializer and compressor of the message;
- `Pipeline.reject`: the reply to a request whose body cannot be read.
-/

namespace Rpc

/-- What guards and runs the methods of a server. -/
structure Pipeline (σ : Type) where
  filters : FilterChain σ
  services : ServiceTable
  codecs : CodecRegistry

/-- A request that all filters allowed, and the message that brought it. -/
structure Invocation where
  message : Message
  request : Request

/-- What is to be done with a message. -/
inductive Admission where
  | reply (m : Message)
  | invoke (i : Invocation)
  | ignore

/-- Runs the method of an admitted request; the reply. -/
def Invocation.run (i : Invocation) (services : ServiceTable) : Timed Message :=
  (services.invoke i.request).map fun outcome => i.message.reply ⟨i.message.requestId, outcome⟩

namespace Pipeline

variable {σ : Type}

/-- What is to be done with a message from a peer. -/
def receive (p : Pipeline σ) (peer : SocketAddress) (now : Instant) (m : Message) : Pipeline σ × Admission :=
  match m.type with
  | .heartbeatRequest => (p, .reply m.heartbeatReply)
  | .request =>
    match m.payload with
    | .request request =>
      match p.filters.run ⟨peer, m.requestId, request, now⟩ with
      | (filters, .ok ()) => ({ p with filters := filters }, .invoke ⟨{ m with payload := .empty }, request⟩)
      | (filters, .error e) => ({ p with filters := filters }, .reply (m.reply (.err m.requestId e)))
    | _ => (p, .reply (m.reply (.err m.requestId ⟨.badRequest, "request has no body", none⟩)))
  | _ => (p, .ignore)

/-- The reply to a message from a peer, if there is to be one. -/
def dispatch (p : Pipeline σ) (peer : SocketAddress) (now : Instant) (m : Message) :
    Pipeline σ × Timed (Option Message) :=
  match p.receive peer now m with
  | (p, .reply reply) => (p, .now (some reply))
  | (p, .invoke i) => (p, (i.run p.services).map some)
  | (p, .ignore) => (p, .now none)

/-- The reply to a frame whose body cannot be read, if it is a request. Where its serializer or compressor is unknown,
the reply is CBOR or not compressed. -/
def reject (p : Pipeline σ) (e : FrameError) : Option Message :=
  let h := e.header
  if h.type ≠ MessageType.request.toByte then none
  else some
    { type := .response
      serializer := if (p.codecs.serializer h.serializer).isOk then h.serializer else serializerCbor
      compressor := if (p.codecs.compressor h.compressor).isOk then h.compressor else compressorOff
      requestId := h.requestId
      payload := .response (.err h.requestId ⟨.badRequest, e.source.message, none⟩) }

/-- The reply to what came in from a peer. -/
def answer (p : Pipeline σ) (peer : SocketAddress) (now : Instant) (i : Inbound) :
    Pipeline σ × Timed (Option Message) :=
  match i with
  | .ok m => p.dispatch peer now m
  | .error e => (p, .now (p.reject e))

end Pipeline

end Rpc
