import Rpc.Proofs.Server.LocalCall
import Rpc.Proofs.Session.Stages

/-!
# What is said in a session

- `Placed`: a request that was sent, and the call with its id and its value at its place among those about which the
  filters were asked;
- `Intelligible`: both sides understand the requests that were sent and the replies to them;
- `Proper`: what is at a stage of a call was said by a caller, or is what the same call gives without a network;
- `Asks.look`, `Replies.stage`: what the readers on both sides make of it.
-/

namespace Rpc

variable {σ : Type}

/-- A connection comes from an address. -/
def Connected (run : SessionRun) (n : Nat) (peer : SocketAddress) : Prop :=
  ∃ now note, (.connect n peer now, note) ∈ run

/-- A request was sent on a connection, and the filters were asked, after `past`, about a call from the address of the
connection, with the id of the request and its value. -/
structure Placed (run : SessionRun) (n : Nat) (x : RemoteCall) (past : List Call) (call : Call) : Prop where
  sent : (n, x) ∈ requests run
  connected : Connected run n call.peer
  asked : ∃ rest, calls run = past ++ call :: rest
  requestId : call.requestId = x.requestId
  request : call.request = x.request

/-- What a client says on a connection. -/
inductive Asks (run : SessionRun) (n : Nat) : Message → Prop
  | request {x : RemoteCall} : (n, x) ∈ requests run → Asks run n x.message
  | probe (id : UInt32) : Asks run n (.heartbeat id)

/-- What a server says on a connection, if its filters and methods are those of `p` at the start. -/
inductive Replies (p : Pipeline σ) (run : SessionRun) (n : Nat) : Message → Prop
  | response {x : RemoteCall} {past : List Call} {call : Call} : Placed run n x past call →
      Replies p run n (x.message.reply (p.respondAfter past call))
  | alive (id : UInt32) : Replies p run n (Message.heartbeat id).heartbeatReply

/-- What is at a stage was said, or is about to be. -/
inductive Proper (p : Pipeline σ) (run : SessionRun) (n : Nat) : Stage → Prop
  | asked {m : Message} : Asks run n m → Proper p run n (.asked (.ok m))
  | invoked {i : Invocation} {x : RemoteCall} {past : List Call} {call : Call} : Placed run n x past call →
      i.message.requestId = x.requestId → (i.run p.services).result = x.message.reply (p.respondAfter past call) →
      Proper p run n (.invoked i)
  | replied {m : Message} : Replies p run n m → Proper p run n (.replied m)
  | answered {m : Message} : Replies p run n m → Proper p run n (.answered (.ok m))
  | held {x : RemoteCall} {past : List Call} {call : Call} : Placed run n x past call →
      Proper p run n (.held x.requestId (p.respondAfter past call))

/-- Both sides understand what is said on a run: the frames of requests and replies fit both, and the codecs of the one
side restore what the other side has encoded. -/
structure Intelligible (p : Pipeline σ) (a b : FrameCodec) (run : SessionRun) : Prop where
  short : a.maxFrameLength < 2 ^ 32 ∧ b.maxFrameLength < 2 ^ 32
  request : ∀ n x, (n, x) ∈ requests run → FrameCodec.Understood a b x.message
  response : ∀ n x past call, Placed run n x past call →
    FrameCodec.Understood b a (x.message.reply (p.respondAfter past call))

/-! ## A longer run -/

section
variable {p : Pipeline σ} {a b : FrameCodec} {run : SessionRun} {n : Nat} {x : RemoteCall} {past : List Call}
  {call : Call} {m : Message} (l : SessionRun)

theorem mem_requests_append (h : (n, x) ∈ requests run) : (n, x) ∈ requests (run ++ l) := by
  rw [requests_append]
  exact List.mem_append_left _ h

theorem Connected.mono {peer : SocketAddress} (h : Connected run n peer) : Connected (run ++ l) n peer := by
  obtain ⟨now, note, h⟩ := h
  exact ⟨now, note, List.mem_append_left _ h⟩

theorem Placed.mono (h : Placed run n x past call) : Placed (run ++ l) n x past call := by
  obtain ⟨rest, hrest⟩ := h.asked
  refine ⟨mem_requests_append l h.sent, h.connected.mono l, ⟨rest ++ calls l, ?_⟩, h.requestId, h.request⟩
  rw [calls_append, hrest, List.append_assoc, List.cons_append]

theorem Asks.mono (h : Asks run n m) : Asks (run ++ l) n m := by
  cases h with
  | request hx => exact .request (mem_requests_append l hx)
  | probe id => exact .probe id

theorem Replies.mono (h : Replies p run n m) : Replies p (run ++ l) n m := by
  cases h with
  | response hx => exact .response (hx.mono l)
  | alive id => exact .alive id

theorem Proper.mono {y : Stage} (h : Proper p run n y) : Proper p (run ++ l) n y := by
  cases h with
  | asked hm => exact .asked (hm.mono l)
  | invoked hx hid hrun => exact .invoked (hx.mono l) hid hrun
  | replied hm => exact .replied (hm.mono l)
  | answered hm => exact .answered (hm.mono l)
  | held hx => exact .held (hx.mono l)

/-- What is understood on a run is understood up to any point of it. -/
theorem Intelligible.before (h : Intelligible p a b (run ++ l)) : Intelligible p a b run :=
  ⟨h.short, fun n x hx => h.request n x (mem_requests_append l hx),
    fun n x past call hx => h.response n x past call (hx.mono l)⟩

/-- Where a request is understood, headers fit both sides. -/
theorem Intelligible.headers (h : Intelligible p a b run) (hx : (n, x) ∈ requests run) :
    headerLength ≤ a.maxFrameLength ∧ headerLength ≤ b.maxFrameLength := by
  obtain ⟨frame, he, hlen⟩ := (h.request n x hx).frame
  have hhead := FrameCodec.headerLength_le_of_encode he
  exact ⟨Nat.le_trans hhead (FrameCodec.length_of_encode he), Nat.le_trans hhead hlen⟩

section
variable (hh : headerLength ≤ a.maxFrameLength ∧ headerLength ≤ b.maxFrameLength)
include hh

theorem Intelligible.asks (h : Intelligible p a b run) (hm : Asks run n m) : FrameCodec.Understood a b m := by
  cases hm with
  | request hx => exact h.request n _ hx
  | probe id => exact FrameCodec.understood_heartbeat hh.1 hh.2 rfl rfl

theorem Intelligible.replies (h : Intelligible p a b run) (hm : Replies p run n m) :
    FrameCodec.Understood b a m := by
  cases hm with
  | response hx => exact h.response n _ _ _ hx
  | alive id => exact FrameCodec.understood_heartbeat hh.2 hh.1 rfl rfl

end

end

/-! ## From stage to stage -/

section
variable {p : Pipeline σ} {run : SessionRun} {n : Nat}

/-- What the reader of a client takes is the response of a local call, or nothing to hand on. -/
theorem Replies.stage {m : Message} (h : Replies p run n m) {y : Stage} (hy : Inbound.stage? (.ok m) = some y) :
    Proper p run n y := by
  cases h with
  | @response x past call hx =>
    cases hy
    exact .held hx
  | alive id => cases hy

/-- What the reader of a server decides about a request or a heartbeat leads to the response of a local call, or to the
answer to the heartbeat. -/
theorem Asks.look {m : Message} (h : Asks run n m) {peer : SocketAddress} (hpeer : Connected run n peer)
    (now : Instant) {e : SessionStep} {note : SessionNote}
    (hnote : note.call = Inbound.call? peer now (.ok m)) {y : Stage}
    (hy : ((p.after (calls run)).look peer now (.ok m)).2.stage? = some y) :
    Proper p (run ++ [(e, note)]) n y := by
  cases h with
  | @request x hx =>
    rw [Pipeline.call_request] at hnote
    have hplaced : Placed (run ++ [(e, note)]) n x (calls run) ⟨peer, x.requestId, x.request, now⟩ := by
      refine ⟨mem_requests_append _ hx, hpeer.mono _, ⟨[], ?_⟩, rfl, rfl⟩
      rw [calls_snoc, hnote]
      rfl
    rcases (p.after (calls run)).look_request peer now x with hlook | ⟨i, hlook, hid, hrun⟩
    · rw [hlook] at hy
      cases hy
      exact .replied (.response hplaced)
    · rw [hlook] at hy
      cases hy
      rw [Pipeline.after_services] at hrun
      exact .invoked hplaced hid hrun
  | probe id =>
    cases hy
    exact .replied (.alive id)

end

end Rpc
