import Rpc.Proofs.Frame.RoundTrip
import Rpc.Session

/-!
# Frames between two sides

- `FrameCodec.Understood`: one side has a frame for a message, and the other side reads the message from it
  (`decode_of_understood`), as it does with faithful codecs (`understood_of_faithful`);
- `Flow.items`: the frames on their way; `Flow.Whole`: there is nothing else on the way;
- `Flow.whole_put`, `Flow.items_carry`, `Flow.items_take`: a frame that is written comes last, bytes that arrive change
  nothing, and what is taken off comes first;
- `Flow.take_isSome`: once all bytes have arrived, the next frame can be taken off.
-/

namespace Rpc

namespace FrameCodec

variable {a b : FrameCodec} {m : Message}

/-- One side has a frame for a message that is not too long for the other side, whose codecs restore the message. -/
structure Understood (a b : FrameCodec) (m : Message) : Prop where
  frame : ∃ frame, a.encode m = .ok frame ∧ frame.length ≤ b.maxFrameLength
  restores : m.type.isHeartbeat = false → Restores a b m

theorem decode_of_understood (hb : b.maxFrameLength < 2 ^ 32) (h : Understood a b m) {frame : Bytes}
    (he : a.encode m = .ok frame) (more : Bytes) : b.decode (frame ++ more) = .item (.ok m) more := by
  obtain ⟨frame', he', hlen⟩ := h.frame
  rw [he] at he'
  cases he'
  obtain ⟨body, hbody, -, rfl⟩ := encodeOnto_eq_ok_iff.mp he
  rw [List.nil_append, length_frameOf] at hlen
  rw [List.nil_append, decode_frameOf hb hlen, decodeBody_of_restores hbody h.restores]
  rfl

/-- A heartbeat is a header alone. -/
theorem understood_heartbeat (ha : headerLength ≤ a.maxFrameLength) (hb : headerLength ≤ b.maxFrameLength)
    (hm : m.type.isHeartbeat = true) (hp : m.payload = .empty) : Understood a b m := by
  have hfits : m.payload.fits m.type = true := by
    rw [hp]
    revert hm
    cases m.type <;> simp [Payload.fits, MessageType.isHeartbeat]
  have hbody : a.encodeBody m = .ok [] := by simp [encodeBody, hfits, hm]
  refine ⟨⟨frameOf m [], encodeOnto_eq_ok_iff.mpr ⟨[], hbody, ha, rfl⟩, ?_⟩, fun hn => ?_⟩
  · rw [length_frameOf]
    exact hb
  · rw [hm] at hn
    cases hn

/-- A frame is no longer than the writing side allows. -/
theorem length_of_encode {frame : Bytes} (h : a.encode m = .ok frame) : frame.length ≤ a.maxFrameLength := by
  obtain ⟨body, -, hlen, rfl⟩ := encodeOnto_eq_ok_iff.mp h
  rw [List.nil_append, length_frameOf]
  exact hlen

/-- The frame of a reply, or of the error in its place, is no longer either. -/
theorem length_of_encodeReply {reply : Message} {frame : Bytes} (h : a.encodeReply m = .ok (reply, frame)) :
    frame.length ≤ a.maxFrameLength := by
  unfold encodeReply at h
  split at h
  · rename_i he
    cases h
    exact length_of_encode he
  · split at h
    · cases he : a.encode (encodingFailure m _) with
      | error e =>
        rw [he] at h
        cases h
      | ok frame' =>
        rw [he] at h
        cases h
        exact length_of_encode he
    · cases h

/-- A frame has a header. -/
theorem headerLength_le_of_encode {frame : Bytes} (h : a.encode m = .ok frame) : headerLength ≤ frame.length := by
  obtain ⟨body, -, -, rfl⟩ := encodeOnto_eq_ok_iff.mp h
  rw [List.nil_append, length_frameOf]
  exact Nat.le_add_right _ _

/-- Faithful codecs understand what they have a frame for. -/
theorem understood_of_faithful {c : FrameCodec} (hm : c.Faithful m) (hf : c.HasFrame m) : Understood c c m := by
  obtain ⟨body, hbody, hlen⟩ := hf
  have he : c.encode m = .ok _ := encodeOnto_eq_ok_iff.mpr ⟨body, hbody, hlen, rfl⟩
  exact ⟨⟨_, he, length_of_encode he⟩, fun _ => hm.restores⟩

/-- A reply that the other side understands is written as it is. -/
theorem encodeReply_of_understood (h : Understood a b m) :
    ∃ frame, a.encode m = .ok frame ∧ a.encodeReply m = .ok (m, frame) := by
  obtain ⟨frame, he, -⟩ := h.frame
  exact ⟨frame, he, by simp [encodeReply, he]⟩

end FrameCodec

namespace Flow

variable {c : FrameCodec} {f : Flow}

/-- The frames on their way, as the side that takes them off will read them. -/
def items (c : FrameCodec) (f : Flow) : List Inbound := (c.drain f.bytes).items

/-- All that is on the way is whole frames. -/
def Whole (c : FrameCodec) (f : Flow) : Prop := (c.drain f.bytes).rest = [] ∧ (c.drain f.bytes).fatal = none

theorem items_empty (c : FrameCodec) : empty.items c = [] := by
  have h : c.drain empty.bytes = ⟨[], [], none⟩ := FrameCodec.drain_of_wait FrameCodec.decode_nil
  unfold items
  rw [h]

theorem whole_empty (c : FrameCodec) : empty.Whole c := by
  have h : c.drain empty.bytes = ⟨[], [], none⟩ := FrameCodec.drain_of_wait FrameCodec.decode_nil
  unfold Whole
  rw [h]
  exact ⟨rfl, rfl⟩

/-- A frame that is written comes behind those on their way. -/
theorem whole_put (hf : f.Whole c) {frame : Bytes} {i : Inbound} (hd : c.decode frame = .item i []) :
    (f.put frame).items c = f.items c ++ [i] ∧ (f.put frame).Whole c := by
  have hbytes : (f.put frame).bytes = f.bytes ++ frame := (List.append_assoc _ _ _).symm
  have hframe : c.drain frame = ⟨[i], [], none⟩ := by
    rw [FrameCodec.drain_of_item hd, FrameCodec.drain_of_wait FrameCodec.decode_nil]
    rfl
  have hdrain : c.drain (f.put frame).bytes = ⟨f.items c ++ [i], [], none⟩ := by
    rw [hbytes, FrameCodec.drain_append_of_rest hf.2, hf.1, List.nil_append, hframe]
    rfl
  unfold items Whole
  rw [hdrain]
  exact ⟨rfl, rfl, rfl⟩

theorem bytes_carry (f : Flow) (k : Nat) : (f.carry k).bytes = f.bytes := by
  show f.arrived ++ f.sent.take k ++ f.sent.drop k = f.arrived ++ f.sent
  rw [List.append_assoc, List.take_append_drop]

/-- Bytes that arrive are on their way still. -/
theorem items_carry (c : FrameCodec) (f : Flow) (k : Nat) : (f.carry k).items c = f.items c := by
  unfold items
  rw [bytes_carry]

theorem Whole.carry (hf : f.Whole c) (k : Nat) : (f.carry k).Whole c := by
  unfold Whole
  rw [bytes_carry]
  exact hf

theorem take_eq_some {i : Inbound} {g : Flow} (h : f.take? c = some (i, g)) :
    ∃ rest, c.decode f.arrived = .item i rest ∧ g = { f with arrived := rest } := by
  unfold take? at h
  split at h
  · rename_i j rest hd
    cases h
    exact ⟨rest, hd, rfl⟩
  · cases h

/-- What is taken off was first on the way. -/
theorem drain_take {i : Inbound} {g : Flow} (h : f.take? c = some (i, g)) :
    c.drain f.bytes = (c.drain g.bytes).after [i] := by
  obtain ⟨rest, hd, rfl⟩ := take_eq_some h
  exact FrameCodec.drain_of_item (FrameCodec.decode_append_item hd f.sent)

theorem items_take {i : Inbound} {g : Flow} (h : f.take? c = some (i, g)) : f.items c = i :: g.items c := by
  unfold items
  rw [drain_take h]
  rfl

theorem Whole.take {i : Inbound} {g : Flow} (hf : f.Whole c) (h : f.take? c = some (i, g)) : g.Whole c := by
  unfold Whole at hf ⊢
  rw [drain_take h] at hf
  exact hf

/-- **Once all bytes have arrived, the next frame can be taken off.** -/
theorem take_isSome (hs : f.sent = []) (hi : f.items c ≠ []) : (f.take? c).isSome = true := by
  have hbytes : f.bytes = f.arrived := by rw [bytes, hs, List.append_nil]
  unfold items at hi
  rw [hbytes] at hi
  unfold take?
  cases hd : c.decode f.arrived with
  | item i rest => rfl
  | wait =>
    rw [FrameCodec.drain_of_wait hd] at hi
    exact absurd rfl hi
  | fatal e =>
    rw [FrameCodec.drain_of_fatal hd] at hi
    exact absurd rfl hi

end Flow

end Rpc
