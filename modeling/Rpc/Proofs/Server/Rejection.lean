import Rpc.Proofs.Frame.RoundTrip
import Rpc.Server.Connection

/-!
# Requests that cannot be read

A request whose body cannot be read is answered under its own serializer and compressor where the server knows them, and
under CBOR and no compressor otherwise. A server need not know CBOR.

- `FrameCodec.parse_of_decode_error`: an error about a frame has the header of the frame;
- `FrameCodec.writeReplies_of_unknown`: under a serializer that is not known nothing is written, neither a reply nor an
  error in its place;
- `Pipeline.reject_in_known_codecs`: the main statement; `Pipeline.reject_in_unknown_serializer`: a server with JSON
  alone.
-/

namespace Rpc

variable {σ : Type}

namespace CodecRegistry

/-- There is a serializer of this id. -/
def KnowsSerializer (r : CodecRegistry) (id : UInt8) : Prop := ∃ s, r.serializer id = .ok s

/-- There is a compressor of this id, or the id means none. -/
def KnowsCompressor (r : CodecRegistry) (id : UInt8) : Prop := ∃ k, r.compressor id = .ok k

variable {r : CodecRegistry} {id : UInt8}

theorem isOk_serializer_iff : (r.serializer id).isOk = true ↔ r.KnowsSerializer id := by
  unfold KnowsSerializer
  cases r.serializer id <;> simp [Except.isOk, Except.toBool]

theorem isOk_compressor_iff : (r.compressor id).isOk = true ↔ r.KnowsCompressor id := by
  unfold KnowsCompressor
  cases r.compressor id <;> simp [Except.isOk, Except.toBool]

/-- In place of a serializer that is not known CBOR is taken, known or not. -/
theorem knowsSerializer_orCbor :
    r.KnowsSerializer (if (r.serializer id).isOk then id else serializerCbor) ↔
      r.KnowsSerializer id ∨ r.KnowsSerializer serializerCbor := by
  split
  · next hs => exact ⟨fun h => .inl h, fun _ => isOk_serializer_iff.mp hs⟩
  · next hs => exact ⟨.inr, fun h => h.resolve_left fun h => hs (isOk_serializer_iff.mpr h)⟩

/-- In place of a compressor that is not known none is taken, which is known everywhere. -/
theorem knowsCompressor_orOff : r.KnowsCompressor (if (r.compressor id).isOk then id else compressorOff) := by
  split
  · next hk => exact isOk_compressor_iff.mp hk
  · exact ⟨none, rfl⟩

end CodecRegistry

namespace FrameCodec

variable {c : FrameCodec} {m : Message} {e : FrameError} {buf rest : Bytes}

/-- An error about a frame has the header that stands at the front of the buffer. -/
theorem parse_of_decode_error (h : c.decode buf = .item (.error e) rest) :
    FrameHeader.parse c.maxFrameLength buf = .ok e.header := by
  obtain ⟨header, -, hparse, -, he, -⟩ := decode_eq_item h
  cases hbody : c.decodeBody header ((buf.take header.fullLength).drop headerLength) with
  | ok m =>
    rw [hbody] at he
    cases he
  | error source =>
    rw [hbody] at he
    cases he
    exact hparse

/-- A message with a body has no frame under a serializer that is not known. -/
theorem encode_of_unknown (hm : m.type.isHeartbeat = false) (hs : ¬ c.codecs.KnowsSerializer m.serializer) :
    ∃ e, c.encode m = .error e := by
  cases h : c.encode m with
  | error e => exact ⟨e, rfl⟩
  | ok frame =>
    obtain ⟨body, hbody, -⟩ := encodeOnto_eq_ok_iff.mp h
    obtain ⟨s, -, hser, -⟩ := encodeBody_codecs hbody hm
    exact absurd ⟨s, hser⟩ hs

/-- Nor has an error in the place of a response, so that the writer ends there. -/
theorem writeReplies_of_unknown (hm : m.type = .response) (hs : ¬ c.codecs.KnowsSerializer m.serializer)
    (ms : List Message) : c.writeReplies (m :: ms) = ([], false) := by
  obtain ⟨e, he⟩ := encode_of_unknown (by rw [hm]; rfl) hs
  obtain ⟨e', he'⟩ := encode_of_unknown (m := encodingFailure m e) rfl hs
  simp only [writeReplies, encodeReply, he, hm, if_true, he', Except.map]

end FrameCodec

namespace Pipeline

/-- **What a request is answered with that cannot be read.** Nothing but requests is answered. A request gets a response
under its id with the error that it is a bad request, its own serializer and compressor where they are known, and always
a compressor that is known. The serializer is known exactly if the request's own is or CBOR is; where it is not, nothing
is written in place of the reply, and of the replies behind it none. -/
theorem reject_in_known_codecs {p : Pipeline σ} {c : FrameCodec} {buf rest : Bytes} {e : FrameError}
    (hp : p.codecs = c.codecs) (h : c.decode buf = .item (.error e) rest) :
    FrameHeader.parse c.maxFrameLength buf = .ok e.header ∧
    (e.header.type ≠ MessageType.request.toByte → p.reject e = none) ∧
    (e.header.type = MessageType.request.toByte → ∃ m response error, p.reject e = some m ∧
      m.type = .response ∧ m.requestId = e.header.requestId ∧ m.payload = .response response ∧
      response.requestId = e.header.requestId ∧ response.outcome = .error error ∧ error.kind = .badRequest ∧
      (c.codecs.KnowsSerializer e.header.serializer → m.serializer = e.header.serializer) ∧
      (c.codecs.KnowsCompressor e.header.compressor → m.compressor = e.header.compressor) ∧
      c.codecs.KnowsCompressor m.compressor ∧
      (c.codecs.KnowsSerializer m.serializer ↔
        c.codecs.KnowsSerializer e.header.serializer ∨ c.codecs.KnowsSerializer serializerCbor) ∧
      (¬ c.codecs.KnowsSerializer m.serializer → ∀ ms, c.writeReplies (m :: ms) = ([], false))) := by
  refine ⟨FrameCodec.parse_of_decode_error h, fun htype => if_pos htype, fun htype => ?_⟩
  unfold reject
  rw [← hp]
  exact ⟨_, _, _, if_neg (not_not_intro htype), rfl, rfl, rfl, rfl, rfl, rfl,
    fun hs => if_pos (CodecRegistry.isOk_serializer_iff.mpr hs),
    fun hk => if_pos (CodecRegistry.isOk_compressor_iff.mpr hk),
    CodecRegistry.knowsCompressor_orOff, CodecRegistry.knowsSerializer_orCbor,
    fun hs ms => FrameCodec.writeReplies_of_unknown rfl (by rw [← hp]; exact hs) ms⟩

/-! ### A server with JSON alone -/

/-- JSON and nothing else. -/
def jsonAlone : FrameCodec := { codecs := CodecRegistry.empty.registerSerializer serializerJson .json }

/-- A server with JSON alone, no filters and no services. -/
def jsonServer : Pipeline Unit := ⟨[], .empty, jsonAlone.codecs⟩

/-- The frame of request 7 with a body of one byte. -/
def requestFrame (serializer compressor : UInt8) : Bytes :=
  magic ++ [1, 0, 0, 0, 17, 1, serializer, compressor, 0, 0, 0, 7, 0]

/-- A request in JSON under a compressor that is not known is answered in JSON, without a compressor. -/
theorem reject_in_known_codecs_json :
    jsonAlone.decode (requestFrame serializerJson 9) =
      .item (.error ⟨⟨17, 1, serializerJson, 9, 7⟩, .unknownCompressor 9⟩) [] ∧
    ∃ m, jsonServer.reject ⟨⟨17, 1, serializerJson, 9, 7⟩, .unknownCompressor 9⟩ = some m ∧
      m.serializer = serializerJson ∧ jsonAlone.codecs.KnowsCompressor m.compressor := by
  have h : jsonAlone.decode (requestFrame serializerJson 9) =
      .item (.error ⟨⟨17, 1, serializerJson, 9, 7⟩, .unknownCompressor 9⟩) [] := by cbv
  obtain ⟨m, -, -, hm, -, -, -, -, -, -, hserializer, -, hcompressor, -⟩ :=
    (reject_in_known_codecs (p := jsonServer) rfl h).2.2 rfl
  exact ⟨h, m, hm, hserializer ⟨.json, rfl⟩, hcompressor⟩

/-- **A server with JSON alone answers a request in CBOR, which it does not know, in CBOR,** so that neither this reply
nor any behind it is written. -/
theorem reject_in_unknown_serializer :
    ∃ e m, jsonAlone.codecs.KnowsSerializer serializerJson ∧
      jsonAlone.decode (requestFrame serializerCbor compressorOff) = .item (.error e) [] ∧
      e.header.type = MessageType.request.toByte ∧ jsonServer.reject e = some m ∧
      ¬ jsonAlone.codecs.KnowsSerializer m.serializer ∧ ∀ ms, jsonAlone.writeReplies (m :: ms) = ([], false) := by
  have hunknown : ¬ jsonAlone.codecs.KnowsSerializer serializerCbor := by
    rintro ⟨s, hs⟩
    cases hs
  exact ⟨⟨⟨17, 1, serializerCbor, compressorOff, 7⟩, .unknownSerializer 1⟩, _, ⟨.json, rfl⟩, by cbv, rfl, rfl, hunknown,
    FrameCodec.writeReplies_of_unknown rfl hunknown⟩

end Pipeline

end Rpc
