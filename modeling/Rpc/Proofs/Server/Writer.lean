import Rpc.Proofs.Codec.ErrorLengths
import Rpc.Proofs.Frame.Cuts
import Rpc.Proofs.Server.Rejection
import Rpc.Server.Writer

/-!
# A frame for each reply

With the built-in codecs a reply has a frame unless it is too long, and then the error in its place is not: it says no
more than two numbers, and these have few digits.

- `CodecRegistry.Sends`: what a pipeline replies to frames (`FrameCodec.sends_of_answers`);
- `FrameCodec.encode_encodingFailure`: an error that says how long a frame would be has a frame;
- `FrameCodec.StandsFor`: the frame that is written for a reply;
- `Outlet.writeReplies_eq`: what goes through the buffer of a connection are the frames of its replies;
- `FrameCodec.every_reply_written`: the main statement.
-/

namespace Rpc

variable {σ : Type}

/-! ## Replies -/

/-- A reply to a heartbeat, or one to a request under codecs that are known. -/
inductive CodecRegistry.Sends (r : CodecRegistry) : Message → Prop
  | heartbeat {serializer compressor : UInt8} {id : UInt32} :
      Sends r ⟨.heartbeatResponse, serializer, compressor, id, .empty⟩
  | response {serializer compressor : UInt8} {id : UInt32} {response : Response} :
      r.KnowsSerializer serializer → r.KnowsCompressor compressor →
      Sends r ⟨.response, serializer, compressor, id, .response response⟩

/-- Replies are under the codecs of what they reply to. -/
theorem Pipeline.sends_dispatch {p : Pipeline σ} {r : CodecRegistry} {peer : SocketAddress} {now : Instant}
    {m reply : Message}
    (hm : m.type.isHeartbeat = false → r.KnowsSerializer m.serializer ∧ r.KnowsCompressor m.compressor)
    (h : (p.dispatch peer now m).2.result = some reply) : r.Sends reply := by
  obtain ⟨type, serializer, compressor, id, payload⟩ := m
  cases type with
  | heartbeatRequest =>
    cases h
    exact .heartbeat
  | response | heartbeatResponse => cases h
  | request =>
    obtain ⟨hs, hk⟩ := hm rfl
    cases payload with
    | request q =>
      simp only [dispatch, receive] at h
      cases hrun : p.filters.run ⟨peer, id, q, now⟩ with
      | mk filters result =>
        rw [hrun] at h
        cases result <;> (cases h; exact .response hs hk)
    | empty | response =>
      cases h
      exact .response hs hk

namespace FrameCodec

variable {c : FrameCodec} {m : Message} {buf rest body : Bytes}

theorem knows_of_decodeBody {header : FrameHeader} (h : c.decodeBody header body = .ok m)
    (hm : m.type.isHeartbeat = false) :
    c.codecs.KnowsSerializer m.serializer ∧ c.codecs.KnowsCompressor m.compressor := by
  unfold decodeBody at h
  split at h
  · cases h
  · dsimp only at h
    split at h
    · next hb =>
      cases h
      rw [hb] at hm
      cases hm
    · obtain ⟨k, hk, h⟩ := exists_of_bind_ok h
      cases k
      all_goals
        obtain ⟨plain, -, h⟩ := exists_of_bind_ok h
        obtain ⟨s, hs, h⟩ := exists_of_bind_ok h
        obtain ⟨payload, -, h⟩ := exists_of_bind_ok h
        cases h
        exact ⟨⟨s, hs⟩, ⟨_, hk⟩⟩

theorem knows_of_decode (h : c.decode buf = .item (.ok m) rest) (hm : m.type.isHeartbeat = false) :
    c.codecs.KnowsSerializer m.serializer ∧ c.codecs.KnowsCompressor m.compressor := by
  obtain ⟨header, -, -, -, hi, -⟩ := decode_eq_item h
  cases hbody : c.decodeBody header ((buf.take header.fullLength).drop headerLength) with
  | error e =>
    rw [hbody] at hi
    cases hi
  | ok m' =>
    rw [hbody] at hi
    cases hi
    exact knows_of_decodeBody hbody hm

/-- A server with these codecs, at some time, answers a frame that it takes off some buffer with this message. -/
def Answers (c : FrameCodec) (m : Message) : Prop :=
  ∃ (σ : Type) (p : Pipeline σ) (peer : SocketAddress) (now : Instant) (buf rest : Bytes) (i : Inbound),
    p.codecs = c.codecs ∧ c.decode buf = .item i rest ∧ (p.answer peer now i).2.result = some m

/-- **Replies are under codecs that the server knows,** if it knows CBOR. -/
theorem sends_of_answers (hcbor : c.codecs.KnowsSerializer serializerCbor) (h : c.Answers m) : c.codecs.Sends m := by
  obtain ⟨σ, p, peer, now, buf, rest, i, hp, hdecode, hanswer⟩ := h
  cases i with
  | ok m' => exact p.sends_dispatch (knows_of_decode hdecode) hanswer
  | error e =>
    simp only [Pipeline.answer, Timed.now, Pipeline.reject] at hanswer
    split at hanswer
    · cases hanswer
    · cases hanswer
      rw [← hp] at hcbor ⊢
      exact .response (CodecRegistry.knowsSerializer_orCbor.mpr (.inr hcbor)) CodecRegistry.knowsCompressor_orOff

end FrameCodec

/-! ## Bodies under built-in codecs -/

/-- A built-in serializer has a body for every response, for an error one that is not much longer than its message. -/
theorem CodecRegistry.serialize_builtin {id : UInt8} {s : Serializer} (h : CodecRegistry.builtin.serializer id = .ok s)
    (r : Response) :
    ∃ plain, s.serialize (.response r) = .ok plain ∧
      ∀ id kind text n, r = .err id ⟨kind, text, none⟩ → Json.Plain n text → plain.length ≤ n + 154 := by
  rcases serializer_builtin h with rfl | rfl
  · refine ⟨Cbor.writeResponse r [], rfl, ?_⟩
    rintro id kind text n rfl htext
    exact Cbor.adds_writeResponse id kind htext.length_le []
  · refine ⟨Json.writeResponse r [], rfl, ?_⟩
    rintro id kind text n rfl htext
    exact Nat.le_trans (Json.adds_writeResponse id kind htext []) (by simp)

namespace FrameCodec

variable {c : FrameCodec} {m : Message} {serializer compressor : UInt8} {id : UInt32}

/-- A response under built-in codecs has a body, and that of an error is not much longer than its message. -/
theorem exists_body (hc : c.codecs = .builtin) (hs : c.codecs.KnowsSerializer serializer)
    (hk : c.codecs.KnowsCompressor compressor) (id : UInt32) (r : Response) :
    ∃ body, c.encodeBody ⟨.response, serializer, compressor, id, .response r⟩ = .ok body ∧
      ∀ id kind text n, r = .err id ⟨kind, text, none⟩ → Json.Plain n text →
        8 * body.length ≤ 11 * (n + 154) + 163 := by
  obtain ⟨s, hs⟩ := hs
  obtain ⟨k, hk⟩ := hk
  obtain ⟨plain, hplain, hlength⟩ := CodecRegistry.serialize_builtin (hc ▸ hs) r
  have hbody : c.encodeBody ⟨.response, serializer, compressor, id, .response r⟩ =
      k.elim (.ok plain) (·.compress plain) := by
    simp only [encodeBody, Payload.fits, MessageType.isHeartbeat, hs, hplain, hk, Bool.not_true, Bool.false_eq_true,
      if_false, bind, Except.bind]
    cases k <;> rfl
  cases k with
  | none =>
    refine ⟨plain, hbody, fun id kind text n hr htext => ?_⟩
    have := hlength id kind text n hr htext
    omega
  | some k =>
    obtain ⟨-, rfl⟩ := CodecRegistry.compressor_builtin (hc ▸ hk)
    refine ⟨Gzip.compress plain, hbody, fun id kind text n hr htext => ?_⟩
    have := hlength id kind text n hr htext
    have := Gzip.length_compress_le plain
    omega

/-- A message has a frame if it has a body that fits. -/
theorem encode_of_body {body : Bytes} (h : c.encodeBody m = .ok body)
    (hlen : headerLength + body.length ≤ c.maxFrameLength) : c.encode m = .ok (frameOf m body) :=
  encodeOnto_eq_ok_iff.mpr ⟨body, h, hlen, rfl⟩

/-- A message with a body that does not fit is too long. -/
theorem encode_of_long {body : Bytes} (h : c.encodeBody m = .ok body)
    (hlen : c.maxFrameLength < headerLength + body.length) :
    c.encode m = .error (.protocol (.frameTooLarge (headerLength + body.length) c.maxFrameLength)) := by
  rw [encode, encodeOnto_eq, h]
  exact if_pos hlen

/-! ## Errors in the place of replies -/

/-- What the error says: how long the frame would be, and how long it can be. -/
theorem plain_tooLarge {size max : Nat} (hsize : size < 2 ^ 64) (hmax : max < 2 ^ 32) :
    Json.Plain 103 ("result could not be encoded: " ++ (EncodeError.protocol (.frameTooLarge size max)).message) := by
  have hlead : Json.Plain 29 "result could not be encoded: " := Json.plain_of_all (by cbv) (by cbv)
  have hprotocol : Json.Plain 16 "Protocol error: " := Json.plain_of_all (by cbv) (by cbv)
  have hframe : Json.Plain 11 "Frame size " := Json.plain_of_all (by cbv) (by cbv)
  have hexceeds : Json.Plain 17 " exceeds maximum " := Json.plain_of_all (by cbv) (by cbv)
  have hsize : Json.Plain 20 (toString size) := Json.plain_toString (by decide) (Nat.lt_trans hsize (by decide))
  have hmax : Json.Plain 10 (toString max) := Json.plain_toString (by decide) (Nat.lt_trans hmax (by decide))
  exact hlead.append (hprotocol.append (((hframe.append hsize).append hexceeds).append hmax))

/-- **An error that says how long a frame would be has a frame.** -/
theorem encode_encodingFailure (hc : c.codecs = .builtin) (hmin : 512 ≤ c.maxFrameLength)
    (hmax : c.maxFrameLength < 2 ^ 32) (hs : c.codecs.KnowsSerializer m.serializer)
    (hk : c.codecs.KnowsCompressor m.compressor) {size : Nat} (hsize : size < 2 ^ 64) :
    ∃ frame, c.encode (encodingFailure m (.protocol (.frameTooLarge size c.maxFrameLength))) = .ok frame := by
  obtain ⟨body, hbody, hlength⟩ := exists_body hc hs hk m.requestId
    (.err m.requestId ⟨.invocation, "result could not be encoded: " ++
      (EncodeError.protocol (.frameTooLarge size c.maxFrameLength)).message, none⟩)
  have hlen := hlength _ _ _ _ rfl (plain_tooLarge hsize hmax)
  exact ⟨_, encode_of_body hbody (by unfold headerLength; omega)⟩

/-- The length of the frame of a message is a machine word, as all lengths are. -/
def FitsWord (c : FrameCodec) (m : Message) : Prop :=
  ∀ body, c.encodeBody m = .ok body → headerLength + body.length < 2 ^ 64

theorem encodeReply_of_encode {frame : Bytes} (h : c.encode m = .ok frame) : c.encodeReply m = .ok (m, frame) := by
  simp only [encodeReply, h]

theorem encodeReply_of_failure {frame : Bytes} {e : EncodeError} (h : c.encode m = .error e) (hm : m.type = .response)
    (hframe : c.encode (encodingFailure m e) = .ok frame) : c.encodeReply m = .ok (encodingFailure m e, frame) := by
  simp only [encodeReply, h, hm, if_true, hframe, Except.map]

/-- **Under built-in codecs a reply has a frame, or an error in its place has one.** -/
theorem exists_encodeReply (hc : c.codecs = .builtin) (hmin : 512 ≤ c.maxFrameLength) (hmax : c.maxFrameLength < 2 ^ 32)
    (hm : c.codecs.Sends m) (hword : c.FitsWord m) : ∃ written, c.encodeReply m = .ok written := by
  cases hm with
  | @heartbeat serializer compressor id =>
    have hbody : c.encodeBody ⟨.heartbeatResponse, serializer, compressor, id, .empty⟩ = .ok [] := rfl
    exact ⟨_, encodeReply_of_encode (encode_of_body hbody (Nat.le_trans (by decide) hmin))⟩
  | @response serializer compressor id r hs hk =>
    obtain ⟨body, hbody, -⟩ := exists_body hc hs hk id r
    by_cases hlen : headerLength + body.length ≤ c.maxFrameLength
    · exact ⟨_, encodeReply_of_encode (encode_of_body hbody hlen)⟩
    · obtain ⟨frame, hframe⟩ := encode_encodingFailure (m := ⟨.response, serializer, compressor, id, .response r⟩) hc
        hmin hmax hs hk (hword body hbody)
      exact ⟨_, encodeReply_of_failure (encode_of_long hbody (Nat.lt_of_not_le hlen)) rfl hframe⟩

/-! ## Frames of replies -/

/-- The frame that is written for a reply: its own, or, if it has none, that of a response under its ids with the error
that the invocation failed. -/
inductive StandsFor (c : FrameCodec) (m : Message) (frame : Bytes) : Prop
  | own : c.encode m = .ok frame → StandsFor c m frame
  | error {e : EncodeError} {error : RemoteError} :
      c.encode m = .error e → m.type = .response → error.kind = .invocation →
      c.encode ⟨.response, m.serializer, m.compressor, m.requestId, .response (.err m.requestId error)⟩ = .ok frame →
      StandsFor c m frame

theorem standsFor_of_encodeReply {written : Message × Bytes} (h : c.encodeReply m = .ok written) :
    c.StandsFor m written.2 := by
  unfold encodeReply at h
  split at h
  · next frame hframe =>
    cases h
    exact .own hframe
  · next e he =>
    split at h
    · next htype =>
      cases hfailure : c.encode (encodingFailure m e) with
      | error e' =>
        rw [hfailure] at h
        cases h
      | ok frame =>
        rw [hfailure] at h
        cases h
        exact .error he htype rfl hfailure
    · cases h

/-- A frame is delimited, and its header names its message. -/
theorem parse_of_encode {frame : Bytes} (hmax : c.maxFrameLength < 2 ^ 32) (h : c.encode m = .ok frame) :
    Delimited c.maxFrameLength frame ∧ FrameHeader.parse c.maxFrameLength frame =
      .ok ⟨frame.length, m.type.toByte, m.serializer, m.compressor, m.requestId⟩ := by
  obtain ⟨body, -, hlen, rfl⟩ := encodeOnto_eq_ok_iff.mp h
  rw [List.nil_append]
  have hparse := parse_frameOf (m := m) hmax hlen []
  rw [List.append_nil] at hparse
  have hframe := length_frameOf m body
  refine ⟨⟨⟨_, List.append_assoc _ _ _⟩, ?_, ?_, ?_⟩, hframe ▸ hparse⟩
  · show Bytes.toNat (Bytes.bigEndian 4 (headerLength + body.length)) = _
    rw [Bytes.toNat_bigEndian, hframe]
    exact Nat.mod_eq_of_lt (by omega)
  · omega
  · omega

/-- The header of the frame that is written for a reply has the ids of the reply. -/
theorem StandsFor.parse {frame : Bytes} (hmax : c.maxFrameLength < 2 ^ 32) (h : c.StandsFor m frame) :
    Delimited c.maxFrameLength frame ∧ FrameHeader.parse c.maxFrameLength frame =
      .ok ⟨frame.length, m.type.toByte, m.serializer, m.compressor, m.requestId⟩ := by
  cases h with
  | own h => exact parse_of_encode hmax h
  | error _ htype _ h =>
    rw [htype]
    exact parse_of_encode hmax h

/-- If each reply has a frame, or an error in its place has one, then all are written. -/
theorem writeReplies_of_forall {queue : List Message} (h : ∀ m ∈ queue, ∃ written, c.encodeReply m = .ok written) :
    ∃ written, c.writeReplies queue = (written, true) ∧
      List.Forall₂ (fun m w => c.encodeReply m = .ok w) queue written := by
  induction queue with
  | nil => exact ⟨[], rfl, .nil⟩
  | cons m ms ih =>
    obtain ⟨⟨w, hw⟩, hms⟩ := List.forall_mem_cons.mp h
    obtain ⟨ws, hws, hall⟩ := ih hms
    exact ⟨w :: ws, by simp only [writeReplies, hw, hws], .cons hw hall⟩

end FrameCodec

/-! ## The buffer -/

namespace Outlet

/-- From an empty buffer a message is sent as its frame, and nothing of it stays in the buffer. -/
theorem send_eq (c : FrameCodec) (m : Message) (sent : Bytes) :
    send c m ⟨[], sent⟩ =
      match c.encode m with
      | .error e => (.error e, ⟨[], sent⟩)
      | .ok frame => (.ok (), ⟨[], sent ++ frame⟩) := by
  unfold send FrameCodec.encode
  rw [FrameCodec.run_encodeInto]
  cases c.encodeOnto m [] <;> rfl

theorem sendReply_eq (c : FrameCodec) (m : Message) (sent : Bytes) :
    sendReply c m ⟨[], sent⟩ =
      match c.encodeReply m with
      | .error e => (.error e, ⟨[], sent⟩)
      | .ok (_, frame) => (.ok (), ⟨[], sent ++ frame⟩) := by
  unfold sendReply FrameCodec.encodeReply
  rw [send_eq]
  cases c.encode m with
  | ok frame => rfl
  | error e =>
    by_cases hm : m.type = .response
    · simp only [hm, if_true, send_eq]
      cases c.encode (encodingFailure m e) <;> rfl
    · simp only [hm, if_false]

/-- **What goes through the buffer are the frames of the replies that are written,** one behind the other. -/
theorem writeReplies_eq (c : FrameCodec) (ms : List Message) (sent : Bytes) :
    writeReplies c ms ⟨[], sent⟩ =
      ((c.writeReplies ms).2, ⟨[], sent ++ ((c.writeReplies ms).1.map (·.2)).flatten⟩) := by
  induction ms generalizing sent with
  | nil => simp [writeReplies, FrameCodec.writeReplies]
  | cons m ms ih =>
    simp only [writeReplies, FrameCodec.writeReplies, sendReply_eq]
    cases c.encodeReply m with
    | error e => simp
    | ok written => simp [ih]

end Outlet

namespace FrameCodec

variable {c : FrameCodec} {queue : List Message}

/-- **A reply that has no frame never costs the connection.** With the built-in codecs and a limit of 512 bytes at
least, each reply of a pipeline gets one frame, its own or that of an error in its place, under its ids. All replies are
written, their frames stand one behind the other with nothing between them, and so they are read. -/
theorem every_reply_written (hc : c.codecs = .builtin) (hmin : 512 ≤ c.maxFrameLength)
    (hmax : c.maxFrameLength < 2 ^ 32) (hqueue : ∀ m ∈ queue, c.Answers m)
    (hword : ∀ m ∈ queue, c.FitsWord m) :
    ∃ frames : List Bytes,
      List.Forall₂ (fun m frame => c.StandsFor m frame ∧ FrameHeader.parse c.maxFrameLength frame =
        .ok ⟨frame.length, m.type.toByte, m.serializer, m.compressor, m.requestId⟩) queue frames ∧
      Outlet.writeReplies c queue .empty = (true, ⟨[], frames.flatten⟩) ∧
      c.drain frames.flatten = ⟨frames.map c.itemOf, [], none⟩ := by
  have hcbor : c.codecs.KnowsSerializer serializerCbor := by
    rw [hc]
    exact ⟨.cbor, rfl⟩
  obtain ⟨written, hwritten, hall⟩ := writeReplies_of_forall fun m hm =>
    exists_encodeReply hc hmin hmax (sends_of_answers hcbor (hqueue m hm)) (hword m hm)
  have hstands : List.Forall₂ (fun m frame => c.StandsFor m frame) queue (written.map (·.2)) :=
    List.forall₂_map_right_iff.mpr (hall.imp fun m w => standsFor_of_encodeReply)
  have hdelimited : ∀ frame ∈ written.map (·.2), Delimited c.maxFrameLength frame :=
    ((List.forall₂_and_left _ _).mp (hstands.flip.imp fun frame m h => ⟨(h.parse hmax).1, h⟩)).1
  refine ⟨written.map (·.2), hstands.imp fun m frame h => ⟨h, (h.parse hmax).2⟩, ?_, drain_flatten hdelimited⟩
  rw [Outlet.empty, Outlet.writeReplies_eq, hwritten, List.nil_append]

/-! ### Two replies, one of them too long -/

/-- The built-in codecs with the least limit. -/
def narrow : FrameCodec := { codecs := .builtin, maxFrameLength := 512 }

/-- A server with a method that returns a value. -/
def valueServer (v : Value) : Pipeline Unit :=
  ⟨[], .ofList [(Service.new "Words").addMethod "long" ⟨[], fun _ => .now (.returned v)⟩], .builtin⟩

/-- The frame of the request for it. -/
def valueRequest : Bytes := frameOf (.request 7 (.new "Words" "long")) (Cbor.writeRequest (.new "Words" "long") [])

/-- The reply with the value. -/
def valueReply (v : Value) : Message := ⟨.response, serializerCbor, compressorOff, 7, .response (.ok 7 v)⟩

/-- The reply to a heartbeat under ids that nobody knows. -/
def heartbeatReply : Message := ⟨.heartbeatResponse, 77, 88, 9, .empty⟩

theorem decode_valueRequest : narrow.decode valueRequest = .item (.ok (.request 7 (.new "Words" "long"))) [] := by cbv

theorem answers_valueReply (v : Value) : narrow.Answers (valueReply v) :=
  ⟨Unit, valueServer v, .v4 0 1, 0, valueRequest, [], _, rfl, decode_valueRequest, by cbv⟩

theorem answers_heartbeatReply : narrow.Answers heartbeatReply :=
  ⟨Unit, valueServer .null, .v4 0 1, 0, magic ++ [1, 0, 0, 0, 16, 3, 77, 88, 0, 0, 0, 9], [],
    .ok ⟨.heartbeatRequest, 77, 88, 9, .empty⟩, rfl, by cbv, rfl⟩

/-- The body with a text of this length takes 30 bytes more. -/
theorem length_textBody {s : String} (hmin : 256 ≤ (Bytes.ofString s).length)
    (hmax : (Bytes.ofString s).length < 65536) :
    (Cbor.writeResponse (.ok 7 (.string s)) []).length = (Bytes.ofString s).length + 30 := by
  have hid : (Bytes.ofString "request_id").length = 10 := by cbv
  have hresult : (Bytes.ofString "result").length = 6 := by cbv
  have herror : (Bytes.ofString "error").length = 5 := by cbv
  have hhead : Cbor.headLength (Bytes.ofString s).length = 3 := by
    rw [Cbor.headLength, if_neg (by omega), if_neg (by omega), if_pos hmax]
  have hfields : Cbor.writeResponse (.ok 7 (.string s)) [] = Cbor.writeArgument 5 3 (Cbor.writeText "request_id"
      (Cbor.writeArgument 0 7 (Cbor.writeText "result" (Cbor.writeText s (Cbor.writeText "error" [0xf6]))))) := rfl
  rw [hfields, Cbor.length_writeArgument, Cbor.length_writeText hid, Cbor.length_writeArgument,
    Cbor.length_writeText hresult, Cbor.length_writeText rfl, hhead, Cbor.length_writeText herror, List.length_singleton]
  simp only [Cbor.headLength, Nat.reduceLT, if_true]
  omega

/-- A word of 512 letters. -/
def word : Value := .string (String.ofList (List.replicate 512 'a'))

theorem length_wordBody : (Cbor.writeResponse (.ok 7 word) []).length = 542 := by
  have hword := Bytes.length_ofString_replicate (show 'a'.toNat < 128 by decide) 512
  rw [word, length_textBody (by rw [hword]; decide) (by rw [hword]; decide), hword]

theorem encodeBody_word : narrow.encodeBody (valueReply word) = .ok (Cbor.writeResponse (.ok 7 word) []) := rfl

theorem every_reply_written_two :
    (narrow.encode (valueReply word)).isOk = false ∧
    ∃ f₁ f₂, narrow.StandsFor heartbeatReply f₁ ∧ narrow.StandsFor (valueReply word) f₂ ∧
      Outlet.writeReplies narrow [heartbeatReply, valueReply word] .empty = (true, ⟨[], f₁ ++ f₂⟩) := by
  have hlong : narrow.maxFrameLength < headerLength + (Cbor.writeResponse (.ok 7 word) []).length := by
    rw [length_wordBody]
    decide
  have hqueue : ∀ m ∈ [heartbeatReply, valueReply word], narrow.Answers m :=
    List.forall_mem_cons.mpr ⟨answers_heartbeatReply, List.forall_mem_singleton.mpr (answers_valueReply word)⟩
  have hword : ∀ m ∈ [heartbeatReply, valueReply word], narrow.FitsWord m := by
    refine List.forall_mem_cons.mpr ⟨fun body hbody => ?_, List.forall_mem_singleton.mpr fun body hbody => ?_⟩
    · cases hbody
      decide
    · cases encodeBody_word.symm.trans hbody
      rw [length_wordBody]
      decide
  obtain ⟨frames, hframes, hwritten, -⟩ := every_reply_written rfl (by decide) (by decide) hqueue hword
  obtain _ | ⟨⟨h₁, -⟩, _ | ⟨⟨h₂, -⟩, _ | _⟩⟩ := hframes
  refine ⟨?_, _, _, h₁, h₂, by simpa using hwritten⟩
  rw [encode_of_long encodeBody_word hlong]
  rfl

end FrameCodec

end Rpc
