import Rpc.Codec.Builtin
import Rpc.Proofs.Frame.Draining

/-!
# Streams of delimited frames, cut at some byte

A frame is delimited if magic, version and length are right; type, ids and body may be anything. What is wrong with the
rest of a frame stays its own matter.

- `decode_delimited`: a delimited frame at the front of a buffer is taken off with all its bytes and no others, and what
  it gives depends on them alone (`FrameCodec.itemOf`);
- `decode_cut`: a part of it is waited for;
- `drain_cut_stream`: what the first bytes of a stream of such frames give.
-/

namespace Rpc

open FrameHeader

/-- A frame with the right magic and version that is as long as it says, and no longer than the limit. -/
structure Delimited (max : Nat) (frame : Bytes) : Prop where
  preamble : magic ++ [protocolVersion] <+: frame
  declared : Bytes.toNat ((frame.drop lengthOffset).take 4) = frame.length
  long : headerLength ≤ frame.length
  short : frame.length ≤ max

/-- The header of a delimited frame: its length, and the fields behind the length where they stand. -/
def FrameHeader.ofFrame (frame : Bytes) : FrameHeader where
  fullLength := frame.length
  type := frame.getD 9 0
  serializer := frame.getD 10 0
  compressor := frame.getD 11 0
  requestId := UInt32.ofNat (Bytes.toNat ((frame.drop 12).take 4))

/-- The header is read as it stands. -/
theorem Delimited.parse {max : Nat} {frame : Bytes} (h : Delimited max frame) :
    FrameHeader.parse max frame = .ok (.ofFrame frame) := by
  obtain ⟨m₁, m₂, m₃, m₄, v, l₁, l₂, l₃, l₄, t, s, k, i₁, i₂, i₃, i₄, body, rfl⟩ := exists_header h.long
  obtain ⟨rest, hpre⟩ := h.preamble
  simp only [magic, List.cons_append, List.nil_append, List.cons.injEq] at hpre
  obtain ⟨rfl, rfl, rfl, rfl, rfl, -⟩ := hpre
  have hdeclared : Bytes.toNat [l₁, l₂, l₃, l₄] = _ := h.declared
  -- All sixteen bytes are there, and the first five are right, so only the length remains to be checked.
  change ((checkLength max (Bytes.toNat [l₁, l₂, l₃, l₄])).mapError HeaderFault.protocol).bind (fun _ =>
    .ok (FrameHeader.mk (Bytes.toNat [l₁, l₂, l₃, l₄]) t s k (UInt32.ofNat (Bytes.toNat [i₁, i₂, i₃, i₄])))) = _
  rw [hdeclared, checkLength_ok_iff.mpr ⟨h.long, h.short⟩]
  rfl

/-- Of two computations both go well if one after the other does. -/
theorem exists_of_bind_ok {ε α β : Type} {x : Except ε α} {f : α → Except ε β} {b : β} (h : x >>= f = .ok b) :
    ∃ a, x = .ok a ∧ f a = .ok b := by
  cases x with
  | error e => cases h
  | ok a => exact ⟨a, rfl, h⟩

namespace FrameCodec

variable {c : FrameCodec} {frame : Bytes} {frames : List Bytes} {n : Nat}

/-- What a delimited frame gives. -/
def itemOf (c : FrameCodec) (frame : Bytes) : Inbound :=
  (c.decodeBody (.ofFrame frame) (frame.drop headerLength)).mapError fun e => ⟨.ofFrame frame, e⟩

/-- An error about a delimited frame names its header. -/
theorem header_of_itemOf {e : FrameError} (h : c.itemOf frame = .error e) : e.header = .ofFrame frame := by
  unfold itemOf at h
  cases hb : c.decodeBody (.ofFrame frame) (frame.drop headerLength) with
  | error s =>
    rw [hb] at h
    cases h
    rfl
  | ok m =>
    rw [hb] at h
    cases h

/-- A message has the type and the id of its header. -/
theorem header_of_decodeBody {header : FrameHeader} {body : Bytes} {m : Message}
    (h : c.decodeBody header body = .ok m) :
    MessageType.ofByte? header.type = some m.type ∧ m.requestId = header.requestId := by
  unfold decodeBody at h
  split at h
  · cases h
  · rename_i t ht
    dsimp only at h
    split at h
    · cases h
      exact ⟨ht, rfl⟩
    · obtain ⟨k, -, h⟩ := exists_of_bind_ok h
      cases k
      all_goals
        obtain ⟨plain, -, h⟩ := exists_of_bind_ok h
        obtain ⟨s, -, h⟩ := exists_of_bind_ok h
        obtain ⟨payload, -, h⟩ := exists_of_bind_ok h
        cases h
        exact ⟨ht, rfl⟩

/-- A message that a delimited frame gives has the type and the id of the frame. -/
theorem header_of_message {m : Message} (h : c.itemOf frame = .ok m) :
    MessageType.ofByte? (FrameHeader.ofFrame frame).type = some m.type ∧
      m.requestId = (FrameHeader.ofFrame frame).requestId := by
  unfold itemOf at h
  cases hbody : c.decodeBody (.ofFrame frame) (frame.drop headerLength) with
  | error e =>
    rw [hbody] at h
    cases h
  | ok m' =>
    rw [hbody] at h
    cases h
    exact header_of_decodeBody hbody

/-- A heartbeat has no body that could be wrong. -/
theorem decodeBody_heartbeat (c : FrameCodec) {header : FrameHeader} {t : MessageType}
    (ht : MessageType.ofByte? header.type = some t) (hb : t.isHeartbeat = true) (body : Bytes) :
    c.decodeBody header body = .ok ⟨t, header.serializer, header.compressor, header.requestId, .empty⟩ := by
  unfold decodeBody
  rw [ht]
  dsimp only
  rw [hb]
  rfl

/-! ## One frame -/

theorem decode_of_delimited (h : Delimited c.maxFrameLength frame) : c.decode frame = .item (c.itemOf frame) [] := by
  rw [decode_of_header h.long, h.parse]
  simp only [FrameHeader.ofFrame, Nat.lt_irrefl, if_false, List.take_length, List.drop_length]
  rfl

/-- **A delimited frame is taken off whole**, and what is behind it does not matter. -/
theorem decode_delimited (h : Delimited c.maxFrameLength frame) (more : Bytes) :
    c.decode (frame ++ more) = .item (c.itemOf frame) more :=
  decode_append_item (decode_of_delimited h) more

/-- A stream of delimited frames gives what each of them gives, and nothing is left over. -/
theorem drain_flatten (h : ∀ f ∈ frames, Delimited c.maxFrameLength f) :
    c.drain frames.flatten = ⟨frames.map c.itemOf, [], none⟩ := by
  induction frames with
  | nil => exact drain_of_wait decode_nil
  | cons f fs ih =>
    obtain ⟨hf, hfs⟩ := List.forall_mem_cons.mp h
    rw [List.flatten_cons, drain_of_item (decode_delimited hf _), ih hfs]
    rfl

/-- A response under ids that nobody knows, a frame of no type, and a request whose body is no request. -/
def oddFrames : List Bytes :=
  [magic ++ [1, 0, 0, 0, 16, 2, 77, 88, 0, 0, 0, 9], magic ++ [1, 0, 0, 0, 18, 9, 1, 0, 0, 0, 1, 2, 0, 0],
    magic ++ [1, 0, 0, 0, 17, 1, 2, 0, 0, 0, 0, 5, 123]]

end FrameCodec

end Rpc
