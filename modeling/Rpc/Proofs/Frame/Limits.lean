import Rpc.Proofs.Frame.RoundTrip

/-!
# Limits on both sides

With the built-in codecs, a frame that is written is never too long for the side that reads it under the same limit
(`decode_of_encode`). But the writing side looks at the length of the compressed body, and the reading side also at
what it becomes: a body that shrinks enough is written and then refused (`shrunk_response_refused`), and nothing else is
refused for its size (`refused_for_size_iff`).
-/

namespace Rpc

/-- A body that a built-in serializer refuses is not refused for its size. -/
theorem Serializer.deserialize_ofRecords_ne_tooLarge {name : String} {wq : Request → Bytes} {wr : Response → Bytes}
    {rq : Bytes → Except BodyError Request} {rr : Bytes → Except BodyError Response} (type : MessageType)
    (body : Bytes) (limit : Nat) :
    (Serializer.ofRecords name wq wr rq rr).deserialize type body ≠ .error (.decompressedTooLarge limit) := by
  cases type with
  | request => cases hr : rq body <;> simp [Serializer.ofRecords, hr, Except.mapError, Except.map, CodecError.ofBody]
  | response => cases hr : rr body <;> simp [Serializer.ofRecords, hr, Except.mapError, Except.map, CodecError.ofBody]
  | heartbeatRequest => simp [Serializer.ofRecords]
  | heartbeatResponse => simp [Serializer.ofRecords]

theorem CodecRegistry.deserialize_ne_tooLarge {id : UInt8} {s : Serializer}
    (h : CodecRegistry.builtin.serializer id = .ok s) (type : MessageType) (body : Bytes) (limit : Nat) :
    s.deserialize type body ≠ .error (.decompressedTooLarge limit) := by
  rcases CodecRegistry.serializer_builtin h with rfl | rfl <;>
    exact Serializer.deserialize_ofRecords_ne_tooLarge type body limit

/-- An error that is not given is not given either when the value is used. -/
theorem map_ne_error {ε α β : Type} {x : Except ε α} {e : ε} (f : α → β) (h : x ≠ .error e) : x.map f ≠ .error e := by
  cases x with
  | error e' => simpa [Except.map] using h
  | ok a => simp [Except.map]

namespace FrameCodec

variable {c : FrameCodec} {m : Message} {frame body plain : Bytes} {s : Serializer}

/-- A frame that was written is taken off the buffer, whatever its body turns out to be. -/
theorem decode_of_encode (hmax : c.maxFrameLength < 2 ^ 32) (h : c.encode m = .ok frame) :
    ∃ body, c.encodeBody m = .ok body ∧
      c.decode frame = .item ((c.decodeBody (headerOf m body) body).mapError fun e => ⟨headerOf m body, e⟩) [] := by
  obtain ⟨body, hbody, hlen, hframe⟩ := encodeOnto_eq_ok_iff.mp h
  have hdecode := decode_frameOf (m := m) hmax hlen []
  rw [List.append_nil] at hdecode
  exact ⟨body, hbody, by rw [hframe, List.nil_append, hdecode]⟩

/-- The body of a message before it is compressed. -/
def plainBody (c : FrameCodec) (m : Message) : Except CodecError Bytes := do
  (← c.codecs.serializer m.serializer).serialize m.payload

/-- The message is to be sent with a body that shrinks from beyond the limit. -/
def ShrinksFromBeyond (c : FrameCodec) (m : Message) : Prop :=
  m.type.isHeartbeat = false ∧ m.compressor = compressorGzip ∧
    ∃ plain, c.plainBody m = .ok plain ∧ c.maxFrameLength < plain.length

/-- Without compression a body goes to the serializer as it is. -/
theorem decodeBody_off (hb : m.type.isHeartbeat = false) (hs : c.codecs.serializer m.serializer = .ok s)
    (hk : c.codecs.compressor m.compressor = .ok none) :
    c.decodeBody (headerOf m body) body =
      (s.deserialize m.type body).map fun p => ⟨m.type, m.serializer, m.compressor, m.requestId, p⟩ := by
  simp only [decodeBody, headerOf, MessageType.ofByte?_toByte, hb, hs, hk, Bool.false_eq_true, if_false, bind,
    Except.bind, Except.map]

/-- A body that was compressed goes to the serializer as it was, unless it was longer than the limit. -/
theorem decodeBody_gzip (hmax : c.maxFrameLength < 2 ^ 32) (hb : m.type.isHeartbeat = false)
    (hs : c.codecs.serializer m.serializer = .ok s) (hk : c.codecs.compressor m.compressor = .ok (some .gzip)) :
    c.decodeBody (headerOf m (Gzip.compress plain)) (Gzip.compress plain) =
      if plain.length ≤ c.maxFrameLength then
        (s.deserialize m.type plain).map fun p => ⟨m.type, m.serializer, m.compressor, m.requestId, p⟩
      else .error (.decompressedTooLarge c.maxFrameLength) := by
  have hback := Compressor.returned_of_ok (Compressor.gzip_decompress_of_member
    (show c.maxFrameLength + 1 < 2 ^ 64 by omega) (Gzip.member_compress plain))
  simp only [decodeBody, headerOf, MessageType.ofByte?_toByte, hb, hs, hk, hback, Bool.false_eq_true, if_false, bind,
    Except.bind, Except.map]
  by_cases hlong : plain.length ≤ c.maxFrameLength <;> simp only [hlong, if_true, if_false]

/-- What is read of a body that was written: it is refused for its size where it shrank from beyond the limit, and
nowhere else. -/
theorem decodeBody_tooLarge_iff (hc : c.codecs = .builtin) (hmax : c.maxFrameLength < 2 ^ 32)
    (h : c.encodeBody m = .ok body) :
    (∃ limit, c.decodeBody (headerOf m body) body = .error (.decompressedTooLarge limit)) ↔ c.ShrinksFromBeyond m := by
  cases hb : m.type.isHeartbeat with
  | true =>
    rw [decodeBody_of_encodeBody h fun hb' => by simp [hb] at hb']
    simp [ShrinksFromBeyond, hb]
  | false =>
    obtain ⟨s, plain, hs, hser, hcomp⟩ := encodeBody_codecs h hb
    have hplain : c.plainBody m = .ok plain := by simp only [plainBody, hs, bind, Except.bind, hser]
    have hserializer (b : Bytes) (limit : Nat) : s.deserialize m.type b ≠ .error (.decompressedTooLarge limit) :=
      CodecRegistry.deserialize_ne_tooLarge (hc ▸ hs) m.type b limit
    rcases hcomp with ⟨hk, rfl⟩ | ⟨k, hk, hcompress⟩
    · rw [decodeBody_off hb hs hk]
      refine ⟨fun ⟨limit, herr⟩ => absurd herr (map_ne_error _ (hserializer body limit)), fun ⟨_, hgzip, _⟩ => ?_⟩
      rw [hc, hgzip, CodecRegistry.compressor_gzip] at hk
      cases hk
    · obtain ⟨hgzip, rfl⟩ := CodecRegistry.compressor_builtin (hc ▸ hk)
      obtain rfl : Gzip.compress plain = body := by simpa [Compressor.gzip] using hcompress
      rw [decodeBody_gzip hmax hb hs hk]
      constructor
      · rintro ⟨limit, herr⟩
        split at herr
        · exact absurd herr (map_ne_error _ (hserializer plain limit))
        · next hlong => exact ⟨hb, hgzip, plain, hplain, Nat.lt_of_not_le hlong⟩
      · rintro ⟨-, -, plain', hplain', hlong⟩
        obtain rfl : plain = plain' := Except.ok.inj (hplain.symm.trans hplain')
        exact ⟨c.maxFrameLength, if_neg (Nat.not_le_of_lt hlong)⟩

/-- **A frame that is written is refused for its size only if its body shrank from beyond the limit.** It is never too
long itself for a side with the same limit. -/
theorem refused_for_size_iff (hc : c.codecs = .builtin) (hmax : c.maxFrameLength < 2 ^ 32)
    (h : c.encode m = .ok frame) :
    (∀ size max, c.decode frame ≠ .fatal (.frameTooLarge size max)) ∧
      ((∃ header limit rest, c.decode frame = .item (.error ⟨header, .decompressedTooLarge limit⟩) rest) ↔
        c.ShrinksFromBeyond m) := by
  obtain ⟨body, hbody, hdecode⟩ := decode_of_encode hmax h
  rw [hdecode, ← decodeBody_tooLarge_iff hc hmax hbody]
  refine ⟨fun _ _ => nofun, ?_⟩
  cases c.decodeBody (headerOf m body) body with
  | error e => simp [Except.mapError, eq_comm]
  | ok m' => simp [Except.mapError]

/-! ### A response that shrinks -/

/-- The built-in codecs with a small limit. -/
def small : FrameCodec := { codecs := .builtin, maxFrameLength := 76 }

/-- A result of one letter sixty times. -/
def longWord : Response := .ok 1 (.string (String.ofList (List.replicate 60 'a')))

/-- The message with the word, to be compressed. -/
def longWordMessage : Message := ⟨.response, serializerCbor, compressorGzip, 1, .response longWord⟩

/-- The body of the word before it is compressed: 89 bytes. -/
def longWordBody : Bytes := Cbor.writeResponse longWord []

set_option maxRecDepth 8000 in
/-- The word is one letter and a copy. -/
theorem tokens_longWordBody :
    Deflate.Token.ofBytes longWordBody =
      (longWordBody.take 23).map .literal ++ .copy 59 1 :: (longWordBody.drop 82).map .literal := by
  cbv

theorem length_longWordBody : longWordBody.length = 89 := by cbv

theorem longWord_shrinks : small.ShrinksFromBeyond longWordMessage :=
  ⟨rfl, rfl, longWordBody, rfl, by rw [length_longWordBody]; decide⟩

/-- The compressed body has at most 58 bytes, so that its frame has at most 74. -/
theorem encode_longWord : small.encode longWordMessage = .ok (frameOf longWordMessage (Gzip.compress longWordBody)) := by
  have hbits : ((Deflate.Token.ofBytes longWordBody).map Deflate.Token.mostBits).sum = 302 := by
    rw [tokens_longWordBody]
    cbv
  have hcompress := Deflate.length_compress_le longWordBody
  rw [hbits] at hcompress
  refine encodeOnto_eq_ok_iff.mpr ⟨Gzip.compress longWordBody, rfl, ?_, rfl⟩
  simp only [Gzip.compress, List.length_append, Gzip.length_trailer, Gzip.header, List.length_cons, List.length_nil,
    headerLength, small]
  omega

/-- **A response that was written within the limit is refused on the other side under the same limit.** -/
theorem shrunk_response_refused :
    ∃ frame, small.encode longWordMessage = .ok frame ∧
      small.decode frame =
        .item (.error ⟨headerOf longWordMessage (Gzip.compress longWordBody), .decompressedTooLarge 76⟩) [] := by
  refine ⟨_, encode_longWord, ?_⟩
  obtain ⟨body, hbody, hdecode⟩ := decode_of_encode (by decide) encode_longWord
  obtain rfl : Gzip.compress longWordBody = body := Except.ok.inj hbody
  rw [hdecode, decodeBody_gzip (by decide) rfl rfl rfl, if_neg (by rw [length_longWordBody]; decide)]
  rfl

theorem refused_for_size_iff_longWord :
    ∃ header limit rest, small.decode (frameOf longWordMessage (Gzip.compress longWordBody)) =
      .item (.error ⟨header, .decompressedTooLarge limit⟩) rest :=
  (refused_for_size_iff rfl (by decide) encode_longWord).2.mpr longWord_shrinks

end FrameCodec

end Rpc
