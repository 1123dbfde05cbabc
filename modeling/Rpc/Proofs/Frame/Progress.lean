import Rpc.Frame.Buffer
import Rpc.Proofs.Frame.Cuts
import Rpc.Proofs.Frame.Limits

/-!
# Draining a buffer

Frames come off a buffer by operations that end the program when they are asked for what is not there. None of them
ever is, whatever the buffer holds, so that nothing but a compressor can end the program.

- `FrameHeader.checkFront_eq`, `FrameHeader.read_eq`: what is read of a buffer that is long enough is there;
- `FrameCodec.delimited_of_decode`: whatever comes off a buffer is a delimited frame;
- `FrameCodec.readBody_eq`: where compressors return, its message is the one that is decoded, and
  `FrameCodec.returns_builtin`: the built-in ones do, below the last limit;
- `FrameCodec.Called`: what a step can do, and `FrameCodec.exists_called`: every step does it;
- `FrameCodec.exists_drains`: steps come to an end, and `FrameCodec.Drains.drain_eq`: what they did until then;
- `FrameCodec.draining_ends`: the main statement.
-/

namespace Rpc

open FrameHeader

/-! ## Operations where the bytes are there -/

theorem ok_bind {ε α β : Type} (a : α) (f : α → Except ε β) : (Except.ok a >>= f) = f a := rfl

theorem run_lift {σ α : Type} (a : α) (s : σ) :
    (liftM (Except.ok a : Except Panic α) : StateT σ (Except Panic) α).run s = .ok (a, s) := rfl

theorem Bytes.first_of_le {n : Nat} {bs : Bytes} (h : n ≤ bs.length) : Bytes.first n bs = .ok (bs.take n) := if_pos h

/-- Parts that return, one after the other. -/
theorem run_bind_of_returned {ε α β : Type} {x : ExceptT ε (Except Panic) α} {f : α → ExceptT ε (Except Panic) β}
    {r : Except ε α} {g : α → Except ε β} (hx : x.run = .ok r) (hf : ∀ a, r = .ok a → (f a).run = .ok (g a)) :
    (x >>= f).run = .ok (r >>= g) := by
  rw [ExceptT.run_bind, hx]
  cases r with
  | error e => rfl
  | ok a => exact hf a rfl

namespace Cursor

variable {b b₁ b₂ b₃ b₄ : UInt8} {bs : Bytes}

theorem run_advance {n : Nat} (h : n ≤ bs.length) : (advance n).run bs = .ok ((), bs.drop n) := if_pos h

theorem run_byte : byte.run (b :: bs) = .ok (b, bs) := rfl

theorem run_word : word.run (b₁ :: b₂ :: b₃ :: b₄ :: bs) = .ok (Bytes.toNat [b₁, b₂, b₃, b₄], bs) := rfl

end Cursor

namespace Buffer

variable {n : Nat} {b : Buffer}

theorem run_splitTo (h : n ≤ b.bytes.length) :
    (splitTo n).run b = .ok (b.bytes.take n, ⟨b.bytes.drop n, b.space - n⟩) := by
  simp only [StateT.run, splitTo, Bytes.first_of_le h, ok_bind]

theorem run_reserve (h : b.bytes.length + n ≤ maxSpace) :
    (reserve n).run b = .ok ((), { b with space := max b.space (b.bytes.length + n) }) := if_pos h

end Buffer

/-! ## Headers -/

namespace FrameHeader

/-- No more of magic and version is looked at than is there. -/
theorem checkFront_eq (buf : Bytes) : checkFront buf = .ok (checkPrefix buf) := by
  have htake : buf.take (min buf.length 4) = buf.take 4 := by rw [List.take_eq_take_iff]; omega
  have hseen : (buf.take 4).length = min buf.length 4 := by rw [List.length_take, Nat.min_comm]
  have hmagic : min buf.length 4 ≤ magic.length := Nat.min_le_right _ _
  have hcopy : Bytes.copyFirst (min buf.length 4) (buf.take 4) (List.replicate 4 0) =
      .ok (buf.take 4 ++ List.replicate (4 - min buf.length 4) 0) := by
    rw [Bytes.copyFirst, if_pos ⟨by simp, hseen⟩, List.drop_replicate]
  simp only [checkFront, checkPrefix, Bytes.first_of_le (Nat.min_le_left buf.length 4), Bytes.first_of_le hmagic, htake,
    hseen, hcopy, ok_bind]
  split
  · rfl
  · cases buf[4]? <;> rfl

theorem run_readFields (max : Nat) {slice rest : Bytes} {l₁ l₂ l₃ l₄ t s k i₁ i₂ i₃ i₄ : UInt8}
    (hskip : lengthOffset ≤ slice.length)
    (hfields : slice.drop lengthOffset = l₁ :: l₂ :: l₃ :: l₄ :: t :: s :: k :: i₁ :: i₂ :: i₃ :: i₄ :: rest) :
    (readFields max).run' slice = .ok ((checkLength max (Bytes.toNat [l₁, l₂, l₃, l₄])).map fun _ =>
      ⟨Bytes.toNat [l₁, l₂, l₃, l₄], t, s, k, UInt32.ofNat (Bytes.toNat [i₁, i₂, i₃, i₄])⟩) := by
  simp only [readFields, StateT.run'_eq, StateT.run_bind, Cursor.run_advance hskip, hfields, ok_bind, Cursor.run_word]
  cases checkLength max (Bytes.toNat [l₁, l₂, l₃, l₄]) with
  | error e => rfl
  | ok _ =>
    simp only [StateT.run_bind, ok_bind, Cursor.run_word, Cursor.run_byte]
    rfl

/-- A slice of sixteen bytes holds whatever is read of a header. -/
theorem read_eq (max : Nat) {slice : Bytes} (h : headerLength ≤ slice.length) :
    ∃ r, read max slice = .ok r ∧ FrameHeader.parse max slice = r.mapError .protocol := by
  cases hp : checkPrefix slice with
  | error e =>
    refine ⟨.error e, ?_, parse_of_checkPrefix_error hp⟩
    simp only [read, checkFront_eq, hp, ok_bind]
    rfl
  | ok _ =>
    obtain ⟨m₁, m₂, m₃, m₄, v, l₁, l₂, l₃, l₄, t, s, k, i₁, i₂, i₃, i₄, rest, rfl⟩ := exists_header h
    refine ⟨_, by simpa only [read, checkFront_eq, hp, ok_bind] using
      run_readFields max (Nat.le_trans (by decide) h) rfl, ?_⟩
    simp only [FrameHeader.parse, hp, lengthOffset, List.drop_succ_cons, List.drop_zero, bind, Except.bind]
    cases checkLength max (Bytes.toNat [l₁, l₂, l₃, l₄]) <;> rfl

/-- Magic and version that are accepted are right, as soon as all of them is there. -/
theorem preamble_of_checkPrefix {buf : Bytes} (hl : lengthOffset ≤ buf.length) (h : checkPrefix buf = .ok ()) :
    magic ++ [protocolVersion] <+: buf := by
  by_cases hm : buf.take 4 <+: magic
  · have h4 : 4 < buf.length := hl
    have htake : buf.take 4 = magic := hm.eq_of_length (List.length_take_of_le (Nat.le_of_lt h4))
    rw [checkPrefix_of_magic hm, List.getElem?_eq_getElem h4] at h
    dsimp only at h
    split at h
    · next hv =>
      refine ⟨buf.drop 5, ?_⟩
      rw [← htake, ← hv, List.append_assoc, List.singleton_append, ← List.drop_eq_getElem_cons, List.take_append_drop]
    · cases h
  · rw [checkPrefix_of_not_magic hm] at h
    cases h

/-- A header that is accepted stands behind the right magic and version, and has the length that is declared. -/
theorem front_of_parse {max : Nat} {buf : Bytes} {h : FrameHeader} (hl : headerLength ≤ buf.length)
    (he : FrameHeader.parse max buf = .ok h) :
    magic ++ [protocolVersion] <+: buf ∧ h.fullLength = Bytes.toNat ((buf.drop lengthOffset).take 4) := by
  cases hp : checkPrefix buf with
  | error e =>
    rw [parse_of_checkPrefix_error hp] at he
    cases he
  | ok _ =>
    refine ⟨preamble_of_checkPrefix (Nat.le_trans (by decide) hl) hp, ?_⟩
    obtain ⟨m₁, m₂, m₃, m₄, v, l₁, l₂, l₃, l₄, t, s, k, i₁, i₂, i₃, i₄, rest, rfl⟩ := exists_header hl
    simp only [FrameHeader.parse, hp, lengthOffset, List.drop_succ_cons, List.drop_zero, bind, Except.bind] at he
    cases hc : checkLength max (Bytes.toNat [l₁, l₂, l₃, l₄]) with
    | error e =>
      rw [hc] at he
      cases he
    | ok _ =>
      rw [hc] at he
      cases he
      rfl

end FrameHeader

namespace FrameCodec

variable {c : FrameCodec} {b b' : Buffer} {buf rest : Bytes} {i : Inbound} {items : List Inbound}
  {fatal : Option ProtocolError}

/-! ## One step -/

/-- **Whatever comes off a buffer is a delimited frame** at its front, and what it gives depends on this frame alone. -/
theorem delimited_of_decode (h : c.decode buf = .item i rest) :
    ∃ frame, buf = frame ++ rest ∧ Delimited c.maxFrameLength frame ∧ i = c.itemOf frame := by
  obtain ⟨hd, hl, hparse, hfull, -, hrest⟩ := decode_eq_item h
  obtain ⟨hlong, hshort⟩ := parse_ok hl hparse
  obtain ⟨hpre, hdeclared⟩ := front_of_parse hl hparse
  have hlength : (buf.take hd.fullLength).length = hd.fullLength := List.length_take_of_le hfull
  have hsplit : buf = buf.take hd.fullLength ++ rest := by rw [hrest, List.take_append_drop]
  have hframe : Delimited c.maxFrameLength (buf.take hd.fullLength) := by
    refine ⟨List.prefix_take_iff.mpr ⟨hpre, Nat.le_trans (by decide) hlong⟩, ?_, ?_, ?_⟩
    · have hword : lengthOffset + 4 ≤ hd.fullLength := Nat.le_trans (by decide) hlong
      rw [hlength, hdeclared, List.drop_take, List.take_take, Nat.min_eq_left (by omega)]
    · rwa [hlength]
    · rwa [hlength]
  have hdecode := decode_delimited hframe rest
  rw [← hsplit, h, Step.item.injEq] at hdecode
  exact ⟨_, hsplit, hframe, hdecode.1⟩

/-- A buffer in which bytes are missing is short. -/
theorem length_of_decode_wait (h : c.decode buf = .wait) : buf.length < max headerLength c.maxFrameLength := by
  by_cases hl : headerLength ≤ buf.length
  · rw [decode_of_header hl] at h
    split at h
    · cases h
    · next hparse => exact absurd hparse (parse_ne_incomplete _ hl)
    · next hd hparse =>
      have hshort := (parse_ok hl hparse).2
      split at h
      · omega
      · cases h
  · omega

/-- Where compressors return, the message that is read is the one that is decoded. -/
theorem readBody_eq (hc : c.Returns) (h : FrameHeader) (body : Bytes) :
    (c.readBody h body).run = .ok (c.decodeBody h body) := by
  unfold readBody decodeBody
  cases MessageType.ofByte? h.type with
  | none => rfl
  | some type =>
    dsimp only
    split
    · rfl
    refine run_bind_of_returned rfl fun k hk => ?_
    -- what follows the body stands in both branches
    cases k with
    | none =>
      have hplain : (pure body : ExceptT CodecError (Except Panic) Bytes).run = .ok (.ok body) := rfl
      exact run_bind_of_returned hplain fun _ _ => run_bind_of_returned rfl fun _ _ =>
        run_bind_of_returned rfl fun _ _ => rfl
    | some k =>
      obtain ⟨r, hr⟩ := hc _ k hk body
      have hplain : (ExceptT.mk (k.decompress c.maxFrameLength body)).run = .ok (k.returned c.maxFrameLength body) := by
        rw [Compressor.returned_of_ok hr]
        exact hr
      exact run_bind_of_returned hplain fun _ _ => run_bind_of_returned rfl fun _ _ =>
        run_bind_of_returned rfl fun _ _ => rfl

/-- The built-in compressor returns under every limit but the last number of 64 bits. -/
theorem returns_builtin (hc : c.codecs = .builtin) (hmax : c.maxFrameLength + 1 < 2 ^ 64) : c.Returns := by
  intro id k hk body
  obtain ⟨-, rfl⟩ := CodecRegistry.compressor_builtin (hc ▸ hk)
  exact ⟨_, Compressor.gzip_decompress_eq hmax body⟩

/-- What a step does to a buffer, beside what `decode` says of its bytes. -/
inductive Called (c : FrameCodec) (b : Buffer) : Except ProtocolError (Option Inbound) → Buffer → Prop
  /-- The bytes stay, and there is space for those that are missing. -/
  | nothing {space : Nat} : c.decode b.bytes = .wait → b.space ≤ space → space ≤ max b.space c.maxFrameLength →
      Called c b (.ok none) { b with space := space }
  | fatal {e : ProtocolError} : c.decode b.bytes = .fatal e → Called c b (.error e) b
  | item {i : Inbound} {rest : Bytes} {space : Nat} : c.decode b.bytes = .item i rest → space ≤ b.space →
      Called c b (.ok (some i)) ⟨rest, space⟩

/-- No frame takes more space than there can be. -/
theorem fullLength_le_maxSpace {max : Nat} {h : FrameHeader} (hl : headerLength ≤ buf.length)
    (hparse : FrameHeader.parse max buf = .ok h) : h.fullLength ≤ Buffer.maxSpace := by
  have hword : ((buf.drop lengthOffset).take 4).length ≤ 4 := List.length_take_le 4 _
  have hlt := Bytes.toNat_lt ((buf.drop lengthOffset).take 4)
  rw [← (front_of_parse hl hparse).2] at hlt
  have := Nat.lt_of_lt_of_le hlt (Nat.pow_le_pow_right (by decide) hword)
  exact Nat.le_trans (Nat.le_of_lt this) (by decide)

/-- With a header there the buffer holds what a step asks for. -/
theorem called_of_header (hc : c.Returns) (hp : checkPrefix b.bytes = .ok ()) (hl : headerLength ≤ b.bytes.length) :
    ∃ answer b', c.takeFrame.run b = .ok (answer, b') ∧ c.Called b answer b' := by
  have hslice : headerLength ≤ (b.bytes.take headerLength).length := by rw [List.length_take_of_le hl]
  obtain ⟨r, hread, hparse⟩ := read_eq c.maxFrameLength hslice
  rw [← parse_append _ hslice (b.bytes.drop headerLength), List.take_append_drop] at hparse
  have hdecode := decode_of_header (c := c) hl
  simp only [takeFrame, StateT.run_bind, StateT.run_get, run_lift, checkFront_eq, hp, ok_bind, pure_bind,
    if_neg (Nat.not_lt.mpr hl), Bytes.first_of_le hl, hread]
  cases r with
  | error e =>
    rw [hparse] at hdecode
    exact ⟨.error e, b, rfl, .fatal hdecode⟩
  | ok h =>
    simp only [hparse, Except.mapError] at hdecode
    dsimp only
    by_cases hfull : h.fullLength ≤ b.bytes.length
    · have hbody : headerLength ≤ (b.bytes.take h.fullLength).length := by
        rw [List.length_take_of_le hfull]
        exact (parse_ok hl hparse).1
      rw [if_neg (Nat.not_lt.mpr hfull)] at hdecode
      simp only [if_neg (Nat.not_lt.mpr hfull), StateT.run_bind, Buffer.run_splitTo hfull, ok_bind,
        Cursor.run_advance hbody, run_lift, readBody_eq hc]
      exact ⟨_, _, rfl, .item hdecode (Nat.sub_le _ _)⟩
    · have hlt := Nat.lt_of_not_le hfull
      have hsum : b.bytes.length + (h.fullLength - b.bytes.length) = h.fullLength :=
        Nat.add_sub_cancel' (Nat.le_of_lt hlt)
      have hspace := hsum ▸ fullLength_le_maxSpace hl hparse
      have hshort := (parse_ok hl hparse).2
      rw [if_pos hlt] at hdecode
      simp only [if_pos hlt, checkedSub_of_le (Nat.le_of_lt hlt), run_lift, ok_bind, StateT.run_bind,
        Buffer.run_reserve hspace, hsum]
      exact ⟨_, _, rfl, .nothing hdecode (Nat.le_max_left _ _) (by omega)⟩

/-- **A step asks for nothing that is not there.** -/
theorem exists_called (hc : c.Returns) (b : Buffer) :
    ∃ answer b', c.takeFrame.run b = .ok (answer, b') ∧ c.Called b answer b' := by
  cases hp : checkPrefix b.bytes with
  | error e =>
    refine ⟨.error e, b, ?_, .fatal (decode_of_checkPrefix_error hp)⟩
    simp only [takeFrame, StateT.run_bind, StateT.run_get, run_lift, checkFront_eq, hp, ok_bind, pure_bind]
    rfl
  | ok _ =>
    by_cases hl : headerLength ≤ b.bytes.length
    · exact called_of_header hc hp hl
    · have hlt := Nat.lt_of_not_le hl
      refine ⟨.ok none, b, ?_, .nothing (decode_of_short hp hlt) (Nat.le_refl _) (Nat.le_max_left _ _)⟩
      simp only [takeFrame, StateT.run_bind, StateT.run_get, run_lift, checkFront_eq, hp, ok_bind, pure_bind, if_pos hlt]
      rfl

theorem called_of_run (hc : c.Returns) {answer : Except ProtocolError (Option Inbound)}
    (h : c.takeFrame.run b = .ok (answer, b')) : c.Called b answer b' := by
  obtain ⟨answer', b'', hrun, hcalled⟩ := exists_called hc b
  rw [h] at hrun
  cases hrun
  exact hcalled

/-! ## Steps one after the other -/

/-- **Steps come to an end,** since every frame is a header long at least. -/
theorem exists_drains (hc : c.Returns) (b : Buffer) : ∃ items fatal last, c.Drains b items fatal last := by
  induction hn : b.bytes.length using Nat.strongRecOn generalizing b with
  | _ n ih =>
    obtain ⟨answer, b', hrun, hcalled⟩ := exists_called hc b
    cases hcalled with
    | nothing _ _ _ => exact ⟨[], none, _, .nothing hrun⟩
    | fatal _ => exact ⟨[], some _, _, .fatal hrun⟩
    | @item i rest space hdecode _ =>
      have hlt : rest.length < n := by
        have hlong := length_of_decode_item hdecode
        unfold headerLength at hlong
        omega
      obtain ⟨items, fatal, last, hrest⟩ := ih rest.length hlt ⟨rest, space⟩ rfl
      exact ⟨_, fatal, last, .item hrun hrest⟩

/-- Steps on a buffer give what its bytes drain to, and make no more space than a frame may take. -/
theorem Drains.drain_eq (hc : c.Returns) (h : c.Drains b items fatal b') :
    c.drain b.bytes = ⟨items, b'.bytes, fatal⟩ ∧ b'.space ≤ max b.space c.maxFrameLength := by
  induction h with
  | nothing hrun =>
    cases called_of_run hc hrun with
    | nothing hdecode _ hspace => exact ⟨drain_of_wait hdecode, hspace⟩
  | fatal hrun =>
    cases called_of_run hc hrun with
    | fatal hdecode => exact ⟨drain_of_fatal hdecode, Nat.le_max_left _ _⟩
  | item hrun _ ih =>
    obtain ⟨hdrain, hlast⟩ := ih
    cases called_of_run hc hrun with
    | item hdecode hspace =>
      dsimp only at hdrain hlast
      exact ⟨by rw [drain_of_item hdecode, hdrain]; rfl, by omega⟩

/-- What is drained are the delimited frames at the front of a buffer. -/
theorem drain_delimited_frames (c : FrameCodec) (buf : Bytes) :
    ∃ frames, buf = frames.flatten ++ (c.drain buf).rest ∧
      List.Forall₂ (fun f i => Delimited c.maxFrameLength f ∧ i = c.itemOf f) frames (c.drain buf).items := by
  induction buf using drain_induction c with
  | wait buf h => exact ⟨[], by simp [drain_of_wait h], by simp [drain_of_wait h]⟩
  | fatal buf e h => exact ⟨[], by simp [drain_of_fatal h], by simp [drain_of_fatal h]⟩
  | item buf i rest h ih =>
    obtain ⟨frames, hrest, hitems⟩ := ih
    obtain ⟨frame, rfl, hframe, rfl⟩ := delimited_of_decode h
    rw [drain_of_item h]
    refine ⟨frame :: frames, ?_, .cons ⟨hframe, rfl⟩ hitems⟩
    rw [List.flatten_cons, List.append_assoc]
    exact congrArg (frame ++ ·) hrest

/-- As many frames come off as there is room for headers. -/
theorem length_items_drain_le (c : FrameCodec) (buf : Bytes) :
    (c.drain buf).items.length ≤ buf.length / headerLength := by
  induction buf using drain_induction c with
  | wait buf h => simp [drain_of_wait h]
  | fatal buf e h => simp [drain_of_fatal h]
  | item buf i rest h ih =>
    rw [drain_of_item h]
    exact Nat.lt_of_le_of_lt ih (room_of_decode_item h)

/-- **Draining a buffer ends, and nothing that is not there is asked for,** with any codecs that return. A slice of
sixteen bytes holds all that is read of a header, and no accepted header has a body of negative length. A step on a
buffer takes a delimited frame off its front, gives nothing or gives an error about the stream; only the first of these
changes the bytes, and none makes more space than a frame may take. Steps come to an end. Until then they have taken one
frame for sixteen bytes at the most, each of them off the front of what the ones before left; if they do not end with an
error, no more bytes are left than belong to one frame. -/
theorem draining_ends (hc : c.Returns) (b : Buffer) :
    (∀ slice : Bytes, headerLength ≤ slice.length → ∃ r, FrameHeader.read c.maxFrameLength slice = .ok r ∧
      ∀ h, r = .ok h → h.checkedBodyLength = .ok h.bodyLength) ∧
    (∃ answer b', c.takeFrame.run b = .ok (answer, b') ∧ b'.space ≤ max b.space c.maxFrameLength ∧
      match answer with
      | .ok (some i) => ∃ frame, b.bytes = frame ++ b'.bytes ∧ Delimited c.maxFrameLength frame ∧ i = c.itemOf frame
      | .ok none => b'.bytes = b.bytes
      | .error _ => b' = b) ∧
    (∃ items fatal last, c.Drains b items fatal last) ∧
    ∀ items fatal last, c.Drains b items fatal last →
      c.drain b.bytes = ⟨items, last.bytes, fatal⟩ ∧
      items.length ≤ b.bytes.length / headerLength ∧
      (∃ frames, b.bytes = frames.flatten ++ last.bytes ∧
        List.Forall₂ (fun f i => Delimited c.maxFrameLength f ∧ i = c.itemOf f) frames items) ∧
      last.space ≤ max b.space c.maxFrameLength ∧
      (fatal = none → last.bytes.length < max headerLength c.maxFrameLength) := by
  refine ⟨fun slice hl => ?_, ?_, exists_drains hc b, fun items fatal last hdrains => ?_⟩
  · obtain ⟨r, hread, hparse⟩ := read_eq c.maxFrameLength hl
    refine ⟨r, hread, ?_⟩
    rintro h rfl
    exact checkedSub_of_le (parse_ok hl hparse).1
  · obtain ⟨answer, b', hrun, hcalled⟩ := exists_called hc b
    refine ⟨answer, b', hrun, ?_⟩
    cases hcalled with
    | nothing _ _ hspace => exact ⟨hspace, rfl⟩
    | fatal _ => exact ⟨Nat.le_max_left _ _, rfl⟩
    | item hdecode hspace => exact ⟨Nat.le_trans hspace (Nat.le_max_left _ _), delimited_of_decode hdecode⟩
  · obtain ⟨hdrain, hspace⟩ := hdrains.drain_eq hc
    have hroom := length_items_drain_le c b.bytes
    have hframes := drain_delimited_frames c b.bytes
    have hrest := decode_drain_rest (c := c) b.bytes
    rw [hdrain] at hroom hframes hrest
    refine ⟨hdrain, hroom, hframes, hspace, ?_⟩
    rintro rfl
    exact length_of_decode_wait hrest

/-- The built-in codecs with the greatest limit under which gzip returns. -/
def widest : FrameCodec := { codecs := .builtin, maxFrameLength := 2 ^ 64 - 2 }

/-- Steps on three frames and the first bytes of a fourth come to an end, with three frames at the most. -/
theorem draining_ends_odd : widest.Returns ∧
    ∃ items fatal last, widest.Drains ⟨oddFrames.flatten ++ magic, 0⟩ items fatal last ∧
      (widest.drain (oddFrames.flatten ++ magic)).items = items ∧ items.length ≤ 3 := by
  have hc : widest.Returns := returns_builtin rfl (by decide)
  obtain ⟨-, -, ⟨items, fatal, last, hdrains⟩, hall⟩ := draining_ends hc ⟨oddFrames.flatten ++ magic, 0⟩
  obtain ⟨hdrain, hlength, -⟩ := hall items fatal last hdrains
  exact ⟨hc, items, fatal, last, hdrains, by rw [hdrain], hlength⟩

end FrameCodec

end Rpc
