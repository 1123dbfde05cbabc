import Rpc.Proofs.Deflate.Gzip
import Rpc.Proofs.Frame.Bodies
import Rpc.Proofs.Frame.Draining

/-!
# From messages to frames and back

- `encodeOnto_eq_ok_iff`: what is written for a message, all of it or nothing (`frameOf`); `run_encodeInto`: so it is
  when it is written part by part;
- `decode_frameOf`: a frame at the front of a buffer is taken off with the header it was written with;
- `decodeBody_of_restores`: a side whose codecs give back what those of the other side are given (`Restores`) reads the
  message; `decodeBody_of_encodeBody`: so do codecs that give back what they are given themselves (`Faithful`), as the
  built-in ones do (`faithful_of_builtin`);
- `feed_encoded_messages`: a stream of messages comes back as these messages, however it is cut.
-/

namespace Rpc

open FrameHeader

namespace FrameCodec

variable {c : FrameCodec}

/-! ## Encoding -/

/-- The bytes of the frame of a message with a body. The length field holds the low 32 bits of the length. -/
def frameOf (m : Message) (body : Bytes) : Bytes :=
  magic ++ protocolVersion :: (Bytes.bigEndian 4 (headerLength + body.length) ++
    m.type.toByte :: m.serializer :: m.compressor :: (Bytes.bigEndian 4 m.requestId.toNat ++ body))

/-- The header of the frame of a message with a body. -/
def headerOf (m : Message) (body : Bytes) : FrameHeader :=
  ⟨headerLength + body.length, m.type.toByte, m.serializer, m.compressor, m.requestId⟩

theorem length_frameOf (m : Message) (body : Bytes) : (frameOf m body).length = headerLength + body.length := by
  simp [frameOf, magic, headerLength]
  omega

theorem length_headerWithoutLength (m : Message) : (headerWithoutLength m).length = headerLength := by
  simp [headerWithoutLength, magic, headerLength]

/-- Filling in the length makes the frame, whatever stands before it. -/
theorem overwrite_length (m : Message) (body buf : Bytes) :
    Bytes.overwrite (buf ++ headerWithoutLength m ++ body) (buf.length + lengthOffset)
      (Bytes.bigEndian 4 (headerLength + body.length)) = buf ++ frameOf m body := by
  have hsplit : buf ++ headerWithoutLength m ++ body =
      (buf ++ (magic ++ [protocolVersion])) ++ Bytes.bigEndian 4 0 ++
        (m.type.toByte :: m.serializer :: m.compressor :: (Bytes.bigEndian 4 m.requestId.toNat ++ body)) := by
    simp [headerWithoutLength]
  have hplace : buf.length + lengthOffset = (buf ++ (magic ++ [protocolVersion])).length := by
    simp [magic, lengthOffset]
  rw [hsplit, hplace, Bytes.overwrite_append (by simp)]
  simp [frameOf]

/-- What is written for a message is its frame, and it is written behind what is there. -/
theorem encodeOnto_eq (m : Message) (buf : Bytes) :
    c.encodeOnto m buf =
      match c.encodeBody m with
      | .error e => .error (.codec e)
      | .ok body =>
        if c.maxFrameLength < headerLength + body.length then
          .error (.protocol (.frameTooLarge (headerLength + body.length) c.maxFrameLength))
        else .ok (buf ++ frameOf m body) := by
  unfold encodeOnto
  cases c.encodeBody m with
  | error e => rfl
  | ok body =>
    have hlen : (buf ++ headerWithoutLength m ++ body).length - buf.length = headerLength + body.length := by
      simp only [List.length_append, length_headerWithoutLength]
      omega
    simp only [Except.mapError, bind, Except.bind, hlen, overwrite_length]

/-- A message is written if it has a body that fits. -/
theorem encodeOnto_eq_ok_iff {m : Message} {buf out : Bytes} :
    c.encodeOnto m buf = .ok out ↔
      ∃ body, c.encodeBody m = .ok body ∧ headerLength + body.length ≤ c.maxFrameLength ∧
        out = buf ++ frameOf m body := by
  rw [encodeOnto_eq]
  cases c.encodeBody m with
  | error e => simp
  | ok body =>
    by_cases hlen : c.maxFrameLength < headerLength + body.length
    · simp only [if_pos hlen]
      refine ⟨nofun, ?_⟩
      rintro ⟨b, hb, hle, -⟩
      cases hb
      exact absurd hlen (Nat.not_lt.mpr hle)
    · simp only [if_neg hlen, Except.ok.injEq, exists_eq_left']
      exact ⟨fun h => ⟨Nat.le_of_not_lt hlen, h.symm⟩, fun h => h.2.symm⟩

/-- **Nothing is written into a buffer before a failure:** all of the frame is put behind its content, or nothing. -/
theorem run_encodeInto (m : Message) (buf : Bytes) :
    (c.encodeInto m).run.run buf =
      match c.encodeOnto m buf with
      | .error e => (.error e, buf)
      | .ok out => (.ok (), out) := by
  rw [encodeOnto_eq]
  unfold encodeInto
  cases c.encodeBody m with
  | error e => rfl
  | ok body =>
    have hlift : (liftM (Except.ok body : Except EncodeError Bytes) : ExceptT EncodeError (StateM Bytes) Bytes) =
        pure body := rfl
    have hlen : (buf ++ headerWithoutLength m ++ body).length - buf.length = headerLength + body.length := by
      simp only [List.length_append, length_headerWithoutLength]
      omega
    simp only [Except.mapError, hlift, pure_bind]
    split
    · rfl
    · rw [← overwrite_length m body buf, ← hlen]
      rfl

/-! ## Decoding a frame -/

/-- A header says what it was written with, but of its length only the low 32 bits. -/
theorem parse_frameOf_eq (max : Nat) (m : Message) (body more : Bytes) :
    FrameHeader.parse max (frameOf m body ++ more) =
      ((checkLength max ((headerLength + body.length) % 2 ^ 32)).mapError .protocol).map fun _ =>
        { headerOf m body with fullLength := (headerLength + body.length) % 2 ^ 32 } := by
  have hsize : Bytes.toNat (Bytes.bigEndian 4 (headerLength + body.length)) = (headerLength + body.length) % 2 ^ 32 :=
    Bytes.toNat_bigEndian 4 _
  have hid : UInt32.ofNat (Bytes.toNat (Bytes.bigEndian 4 m.requestId.toNat)) = m.requestId := by
    have hlt : m.requestId.toNat < 256 ^ 4 := m.requestId.toNat_lt
    rw [Bytes.toNat_bigEndian, Nat.mod_eq_of_lt hlt, UInt32.ofNat_toNat]
  -- All sixteen bytes of the header are there, so only the two words remain to be read.
  change ((checkLength max (Bytes.toNat (Bytes.bigEndian 4 (headerLength + body.length)))).mapError
    HeaderFault.protocol).bind (fun _ => .ok (FrameHeader.mk
      (Bytes.toNat (Bytes.bigEndian 4 (headerLength + body.length))) m.type.toByte m.serializer m.compressor
      (UInt32.ofNat (Bytes.toNat (Bytes.bigEndian 4 m.requestId.toNat))))) = _
  rw [hsize, hid]
  cases checkLength max ((headerLength + body.length) % 2 ^ 32) <;> rfl

/-- A header says what it was written with, if its length fits into 32 bits. -/
theorem parse_frameOf {max : Nat} (hmax : max < 2 ^ 32) {m : Message} {body : Bytes}
    (hlen : headerLength + body.length ≤ max) (more : Bytes) :
    FrameHeader.parse max (frameOf m body ++ more) = .ok (headerOf m body) := by
  have hsize : (headerLength + body.length) % 2 ^ 32 = headerLength + body.length := Nat.mod_eq_of_lt (by omega)
  rw [parse_frameOf_eq, hsize, checkLength_ok_iff.mpr ⟨Nat.le_add_right _ _, hlen⟩]
  rfl

/-- A frame at the front of a buffer is taken off. -/
theorem decode_frameOf (hmax : c.maxFrameLength < 2 ^ 32) {m : Message} {body : Bytes}
    (hlen : headerLength + body.length ≤ c.maxFrameLength) (more : Bytes) :
    c.decode (frameOf m body ++ more) =
      .item ((c.decodeBody (headerOf m body) body).mapError fun e => ⟨headerOf m body, e⟩) more := by
  have hframe := length_frameOf m body
  have hfull : (headerOf m body).fullLength = (frameOf m body).length := hframe.symm
  have hbody : (frameOf m body).drop headerLength = body := rfl
  rw [decode_of_header (by rw [List.length_append]; omega), parse_frameOf hmax hlen]
  simp only [hfull, List.length_append, Nat.not_lt.mpr (Nat.le_add_right _ _), if_false, List.take_left,
    List.drop_left, hbody]

/-! ## Codecs that give back what they are given -/

/-- The codecs of a message give back what they are given: the serializer its payload, from a body within the limit on
frames, and the compressor every body within that limit. -/
structure Faithful (c : FrameCodec) (m : Message) : Prop where
  serializer : ∀ s body, c.codecs.serializer m.serializer = .ok s → s.serialize m.payload = .ok body →
    s.deserialize m.type body = .ok m.payload ∧ body.length ≤ c.maxFrameLength
  compressor : ∀ k, c.codecs.compressor m.compressor = .ok (some k) → ∀ body short,
    k.compress body = .ok short → body.length ≤ c.maxFrameLength → k.decompress c.maxFrameLength short = .ok (.ok body)

/-- The built-in codecs are faithful to a message whose serializer reads its payload back, under every limit but the last
number of 64 bits. -/
theorem faithful_of_builtin (hc : c.codecs = .builtin) (hmax : c.maxFrameLength + 1 < 2 ^ 64) {m : Message}
    {s : Serializer} {plain : Bytes} (hs : c.codecs.serializer m.serializer = .ok s)
    (hplain : s.serialize m.payload = .ok plain) (hback : s.deserialize m.type plain = .ok m.payload)
    (hlen : plain.length ≤ c.maxFrameLength) : c.Faithful m where
  serializer s' plain' hs' hplain' := by
    cases hs.symm.trans hs'
    cases hplain.symm.trans hplain'
    exact ⟨hback, hlen⟩
  compressor k hk body short hshort hwithin := by
    obtain ⟨-, rfl⟩ := CodecRegistry.compressor_builtin (hc ▸ hk)
    exact Compressor.gzip_gives_back hmax hshort hwithin

/-- A heartbeat has no payload and no body. -/
theorem encodeBody_heartbeat {m : Message} {body : Bytes} (h : c.encodeBody m = .ok body)
    (hb : m.type.isHeartbeat = true) : m.payload = .empty ∧ body = [] := by
  obtain ⟨hfits, hbody⟩ := encodeBody_eq_ok_iff.mp h
  cases hbody with
  | heartbeat _ =>
    refine ⟨?_, rfl⟩
    revert hfits hb
    cases m.type <;> cases m.payload <;> simp [Payload.fits, MessageType.isHeartbeat]
  | plain hno _ _ _ | compressed hno _ _ _ _ =>
    rw [hb] at hno
    cases hno

/-- A body is what serializer and compressor make of the payload. -/
theorem encodeBody_codecs {m : Message} {body : Bytes} (h : c.encodeBody m = .ok body)
    (hb : m.type.isHeartbeat = false) :
    ∃ s plain, c.codecs.serializer m.serializer = .ok s ∧ s.serialize m.payload = .ok plain ∧
      (c.codecs.compressor m.compressor = .ok none ∧ body = plain ∨
        ∃ k, c.codecs.compressor m.compressor = .ok (some k) ∧ k.compress plain = .ok body) := by
  cases (encodeBody_eq_ok_iff.mp h).2 with
  | heartbeat hno =>
    rw [hb] at hno
    cases hno
  | plain _ hs hplain hk => exact ⟨_, _, hs, hplain, .inl ⟨hk, rfl⟩⟩
  | compressed _ hs hplain hk hshort => exact ⟨_, _, hs, hplain, .inr ⟨_, hk, hshort⟩⟩

/-- The codecs of the reading side give back what those of the writing side were given for a message: the serializer
its payload, and the compressor its body, within the limit of the reading side. -/
structure Restores (a b : FrameCodec) (m : Message) : Prop where
  serializer : ∀ s plain, a.codecs.serializer m.serializer = .ok s → s.serialize m.payload = .ok plain →
    ∃ t, b.codecs.serializer m.serializer = .ok t ∧ t.deserialize m.type plain = .ok m.payload
  compressor : ∀ s plain k body, a.codecs.serializer m.serializer = .ok s → s.serialize m.payload = .ok plain →
    a.codecs.compressor m.compressor = .ok (some k) → k.compress plain = .ok body →
    ∃ l, b.codecs.compressor m.compressor = .ok (some l) ∧ l.decompress b.maxFrameLength body = .ok (.ok plain)

/-- Faithful codecs give back what they were given. -/
theorem Faithful.restores {m : Message} (h : c.Faithful m) : Restores c c m where
  serializer s plain hs hser := ⟨s, hs, (h.serializer s plain hs hser).1⟩
  compressor s plain k body hs hser hk hcompress :=
    ⟨k, hk, h.compressor k hk plain body hcompress (h.serializer s plain hs hser).2⟩

/-- No compressor is none on every side. -/
theorem compressor_none {a : CodecRegistry} {id : UInt8} (h : a.compressor id = .ok none) (b : CodecRegistry) :
    b.compressor id = .ok none := by
  unfold CodecRegistry.compressor at h ⊢
  split at h
  · rename_i hid
    rw [if_pos hid]
  · split at h <;> cases h

/-- A side that restores a message reads it from the body that was written. -/
theorem decodeBody_of_restores {a b : FrameCodec} {m : Message} {body : Bytes} (h : a.encodeBody m = .ok body)
    (hm : m.type.isHeartbeat = false → Restores a b m) : b.decodeBody (headerOf m body) body = .ok m := by
  unfold decodeBody headerOf
  rw [MessageType.ofByte?_toByte]
  cases hb : m.type.isHeartbeat with
  | true =>
    obtain ⟨hp, -⟩ := encodeBody_heartbeat h hb
    simp only [hb, if_true, bind, Except.bind, ← hp]
  | false =>
    obtain ⟨s, plain, hs, hser, hcomp⟩ := encodeBody_codecs h hb
    obtain ⟨t, ht, hdes⟩ := (hm hb).serializer s plain hs hser
    rcases hcomp with ⟨hk, rfl⟩ | ⟨k, hk, hcompress⟩
    · have hk' := compressor_none hk b.codecs
      simp only [hb, hk', ht, hdes, Bool.false_eq_true, if_false, bind, Except.bind]
    · obtain ⟨l, hl, hback⟩ := (hm hb).compressor s plain k body hs hser hk hcompress
      simp only [hb, hl, ht, Compressor.returned_of_ok hback, hdes, Bool.false_eq_true, if_false, bind, Except.bind]

/-- Faithful codecs give the message back. -/
theorem decodeBody_of_encodeBody {m : Message} {body : Bytes} (h : c.encodeBody m = .ok body)
    (hm : m.type.isHeartbeat = false → c.Faithful m) : c.decodeBody (headerOf m body) body = .ok m :=
  decodeBody_of_restores h fun hb => (hm hb).restores

/-! ## Streams -/

/-- A message has a frame that keeps to the limit. -/
def HasFrame (c : FrameCodec) (m : Message) : Prop :=
  ∃ body, c.encodeBody m = .ok body ∧ headerLength + body.length ≤ c.maxFrameLength

/-- A message that is compressed has a frame if its body is short enough, whatever becomes of it. -/
theorem hasFrame_of_gzip {m : Message} {plain : Bytes} (hbody : c.encodeBody m = .ok (Gzip.compress plain))
    (hlen : 8 * headerLength + 11 * plain.length + 163 ≤ 8 * c.maxFrameLength) : c.HasFrame m := by
  have hmember := Gzip.length_compress_le plain
  exact ⟨_, hbody, by omega⟩

/-- Messages that each have a frame can be written one after the other. -/
theorem exists_encoded {ms : List Message} (h : ∀ m ∈ ms, c.HasFrame m) (buf : Bytes) :
    ∃ bytes, ms.foldlM (fun buf m => c.encodeOnto m buf) buf = .ok bytes := by
  induction ms generalizing buf with
  | nil => exact ⟨buf, rfl⟩
  | cons m ms ih =>
    obtain ⟨⟨body, hbody, hlen⟩, hms⟩ := List.forall_mem_cons.mp h
    obtain ⟨bytes, hbytes⟩ := ih hms (buf ++ frameOf m body)
    refine ⟨bytes, ?_⟩
    rw [List.foldlM_cons, encodeOnto_eq_ok_iff.mpr ⟨body, hbody, hlen, rfl⟩]
    exact hbytes

/-- A buffer to which messages were written one after the other holds their frames behind its content, and they drain
to these messages. -/
theorem drain_encoded (hmax : c.maxFrameLength < 2 ^ 32) {ms : List Message}
    (hms : ∀ m ∈ ms, m.type.isHeartbeat = false → c.Faithful m) {buf bytes : Bytes}
    (h : ms.foldlM (fun buf m => c.encodeOnto m buf) buf = .ok bytes) :
    ∃ frames, bytes = buf ++ frames ∧ c.drain frames = ⟨ms.map .ok, [], none⟩ := by
  induction ms generalizing buf with
  | nil =>
    simp only [List.foldlM_nil, pure, Except.pure, Except.ok.injEq] at h
    exact ⟨[], by simp [h], drain_of_wait decode_nil⟩
  | cons m ms ih =>
    simp only [List.foldlM_cons, bind, Except.bind] at h
    cases hm : c.encodeOnto m buf with
    | error e => simp [hm] at h
    | ok buf' =>
      simp only [hm] at h
      obtain ⟨body, hbody, hlen, rfl⟩ := encodeOnto_eq_ok_iff.mp hm
      obtain ⟨frames, rfl, hdrain⟩ := ih (fun m' h' => hms m' (List.mem_cons_of_mem _ h')) h
      refine ⟨frameOf m body ++ frames, List.append_assoc _ _ _, ?_⟩
      have hback := decodeBody_of_encodeBody hbody (hms m List.mem_cons_self)
      rw [drain_of_item (decode_frameOf hmax hlen frames), hdrain, hback]
      rfl

/-- **What is sent is what comes in.** Messages written one after the other, with faithful codecs, come out of the
pieces of the stream as they are and in order, and nothing is left over. -/
theorem feed_encoded_messages (hmax : c.maxFrameLength < 2 ^ 32) {ms : List Message}
    (hms : ∀ m ∈ ms, m.type.isHeartbeat = false → c.Faithful m) {bytes : Bytes}
    (h : ms.foldlM (fun buf m => c.encodeOnto m buf) [] = .ok bytes) {pieces : List Bytes}
    (hp : pieces.flatten = bytes) : joined [] (c.feed [] pieces) = ⟨ms.map .ok, [], none⟩ := by
  obtain ⟨frames, rfl, hdrain⟩ := drain_encoded hmax hms h
  have hagree := join_feed_agrees (c := c) decode_nil pieces
  rw [List.nil_append, hp, hdrain] at hagree
  exact hagree.eq rfl

/-! ### A stream of three messages -/

/-- The built-in codecs with a limit of a few lines. -/
def modest : FrameCodec := { codecs := .builtin, maxFrameLength := 256 }

/-- A heartbeat under ids that nobody knows, a request, and a response that is compressed. -/
def threeMessages : List Message :=
  [{ Message.heartbeat 9 with serializer := 77, compressor := 88 },
    Message.request 1 ((Request.new "Echo" "say").arg "string" (.string "hi")),
    { type := .response, serializer := serializerJson, compressor := compressorGzip, requestId := 258
      payload := .response (.err 258 ⟨.invocation, "no", none⟩) }]

theorem threeMessages_faithful : ∀ m ∈ threeMessages, m.type.isHeartbeat = false → modest.Faithful m := by
  intro m hm hb
  simp only [threeMessages, List.mem_cons, List.not_mem_nil, or_false] at hm
  rcases hm with rfl | rfl | rfl
  · cases hb
  · exact faithful_of_builtin rfl (by decide) rfl rfl (by cbv) (by cbv)
  · exact faithful_of_builtin rfl (by decide) rfl rfl (by cbv) (by cbv)

/-- Each of the three has a frame; the member in the third is not made. -/
theorem threeMessages_hasFrame : ∀ m ∈ threeMessages, modest.HasFrame m := by
  intro m hm
  simp only [threeMessages, List.mem_cons, List.not_mem_nil, or_false] at hm
  rcases hm with rfl | rfl | rfl
  · exact ⟨_, rfl, by cbv⟩
  · exact ⟨_, rfl, by cbv⟩
  · exact hasFrame_of_gzip rfl (by cbv)

/-- The three messages, cut within the first header, and with an empty piece. -/
theorem feed_encoded_messages_three :
    ∃ bytes, threeMessages.foldlM (fun buf m => modest.encodeOnto m buf) [] = .ok bytes ∧
      joined [] (modest.feed [] [bytes.take 5, [], bytes.drop 5]) = ⟨threeMessages.map .ok, [], none⟩ := by
  obtain ⟨bytes, hbytes⟩ := exists_encoded threeMessages_hasFrame []
  exact ⟨bytes, hbytes, feed_encoded_messages (by decide) threeMessages_faithful hbytes (by simp)⟩

end FrameCodec

end Rpc
