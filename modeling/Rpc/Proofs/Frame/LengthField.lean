import Rpc.Config.Server
import Rpc.Proofs.Cbor.Heads
import Rpc.Proofs.Frame.Layout
import Rpc.Proofs.Frame.Progress

/-!
# The length that a frame declares

The length stands in 32 bits, while the limit of a codec is any number that a configuration can hold.

- `FrameCodec.decode_frameOf_low`, `FrameCodec.decode_frameOf_short`: where the side that reads a frame cuts it;
- `FrameCodec.declared_length`: the length that a frame declares, and when it is cut where it ends;
- `FrameCodec.longRequest_cut_short`: a frame beyond 32 bits, under the settings of a server.
-/

namespace Rpc

open FrameHeader

namespace FrameCodec

variable {c : FrameCodec} {m : Message} {body : Bytes}

/-! ## Cutting frames -/

/-- The low 32 bits of its length are what a frame declares. -/
theorem declared_frameOf (m : Message) (body : Bytes) :
    Bytes.toNat (((frameOf m body).drop lengthOffset).take 4) = (frameOf m body).length % 2 ^ 32 := by
  rw [length_frameOf]
  exact Bytes.toNat_bigEndian 4 _

/-- A frame is cut where the low 32 bits of its length say. -/
theorem decode_frameOf_low (hlen : headerLength + body.length ≤ c.maxFrameLength)
    (hlow : headerLength ≤ (frameOf m body).length % 2 ^ 32) (more : Bytes) :
    ∃ i, c.decode (frameOf m body ++ more) =
      .item i ((frameOf m body ++ more).drop ((frameOf m body).length % 2 ^ 32)) := by
  have hle : (frameOf m body).length % 2 ^ 32 ≤ (frameOf m body).length := Nat.mod_le _ _
  have hthere : (frameOf m body).length ≤ (frameOf m body ++ more).length := by
    rw [List.length_append]
    exact Nat.le_add_right _ _
  rw [length_frameOf] at hlow hle hthere ⊢
  rw [decode_of_header (by omega), parse_frameOf_eq, checkLength_ok_iff.mpr ⟨hlow, by omega⟩]
  simp only [Except.mapError, Except.map, if_neg (Nat.not_lt.mpr (Nat.le_trans hle hthere))]
  exact ⟨_, rfl⟩

/-- A stream is given up where the low 32 bits of the length of a frame say less than a header. -/
theorem decode_frameOf_short (hlen : headerLength + body.length ≤ c.maxFrameLength)
    (hlow : (frameOf m body).length % 2 ^ 32 < headerLength) (more : Bytes) :
    c.decode (frameOf m body ++ more) = .fatal (.frameTooShort ((frameOf m body).length % 2 ^ 32)) := by
  have hheader : headerLength ≤ (frameOf m body ++ more).length := by
    rw [List.length_append, length_frameOf]
    omega
  rw [length_frameOf] at hlow ⊢
  have hcheck : checkLength c.maxFrameLength ((headerLength + body.length) % 2 ^ 32) =
      .error (.frameTooShort ((headerLength + body.length) % 2 ^ 32)) := by
    rw [checkLength, if_neg (by omega), if_pos hlow]
  rw [decode_of_header hheader, parse_frameOf_eq, hcheck]
  rfl

/-- **A frame declares the low 32 bits of its length.** So it declares its length if that is below `2 ^ 32`, as it
always is under a limit below `2 ^ 32`, and not otherwise. A side that reads under the same limit, with whatever codecs
and whatever comes behind the frame, cuts where the declared length says or gives up if it is less than a header; so it
cuts at the end of the frame exactly if the length is below `2 ^ 32`. -/
theorem declared_length {buf after : Bytes} (h : (c.encodeInto m).run.run buf = (.ok (), after)) :
    ∃ frame, after = buf ++ frame ∧ headerLength ≤ frame.length ∧ frame.length ≤ c.maxFrameLength ∧
      Bytes.toNat ((frame.drop lengthOffset).take 4) = frame.length % 2 ^ 32 ∧
      (Bytes.toNat ((frame.drop lengthOffset).take 4) = frame.length ↔ frame.length < 2 ^ 32) ∧
      ∀ (r : FrameCodec) (more : Bytes), r.maxFrameLength = c.maxFrameLength →
        (if frame.length % 2 ^ 32 < headerLength then
          r.decode (frame ++ more) = .fatal (.frameTooShort (frame.length % 2 ^ 32))
        else ∃ i, r.decode (frame ++ more) = .item i ((frame ++ more).drop (frame.length % 2 ^ 32))) ∧
        ((∃ i, r.decode (frame ++ more) = .item i more) ↔ frame.length < 2 ^ 32) := by
  obtain ⟨body, -, hlen, rfl⟩ := run_encodeInto_eq_ok_iff.mp h
  have hlength := length_frameOf m body
  have hdeclared := declared_frameOf m body
  have hlong : headerLength ≤ (frameOf m body).length := by omega
  refine ⟨frameOf m body, rfl, hlong, by omega, hdeclared, by rw [hdeclared]; omega, fun r more hr => ⟨?_, ?_⟩⟩
  · split
    · next hlow => exact decode_frameOf_short (hr ▸ hlen) hlow more
    · next hlow => exact decode_frameOf_low (hr ▸ hlen) (Nat.le_of_not_lt hlow) more
  · constructor
    · rintro ⟨i, hi⟩
      obtain ⟨frame, hsplit, hframe, -⟩ := delimited_of_decode hi
      rw [← List.append_cancel_right hsplit] at hframe
      have := hframe.declared
      omega
    · intro hsmall
      have hmod := Nat.mod_eq_of_lt hsmall
      obtain ⟨i, hi⟩ := decode_frameOf_low (c := r) (hr ▸ hlen) (hmod.symm ▸ hlong) more
      exact ⟨i, by rw [hi, hmod, List.drop_left]⟩

/-- A heartbeat behind another byte, under a limit that 32 bits do not hold. -/
theorem declared_length_heartbeat :
    ((FrameCodec.mk .builtin (2 ^ 33)).encodeInto (Message.heartbeat 9)).run.run [7] =
      (.ok (), 7 :: frameOf (Message.heartbeat 9) []) ∧
    ∀ more, ∃ i, (FrameCodec.mk .builtin (2 ^ 33)).decode (frameOf (Message.heartbeat 9) [] ++ more) = .item i more := by
  have hrun : ((FrameCodec.mk .builtin (2 ^ 33)).encodeInto (Message.heartbeat 9)).run.run [7] =
      (.ok (), 7 :: frameOf (Message.heartbeat 9) []) := rfl
  refine ⟨hrun, fun more => ?_⟩
  obtain ⟨frame, hframe, -, -, -, -, hcut⟩ := declared_length hrun
  obtain rfl : frameOf (Message.heartbeat 9) [] = frame := (List.cons.inj hframe).2
  exact (hcut _ more rfl).2.mpr (by decide)

/-! ## A frame beyond 32 bits -/

/-- A request with a text of `n` letters for its argument. -/
def longRequest (n : Nat) : Message :=
  .request 1 ((Request.new "" "").arg "string" (.string (String.ofList (List.replicate n 'x'))))

/-- Its body. -/
def longBody (n : Nat) : Bytes :=
  Cbor.writeRequest ((Request.new "" "").arg "string" (.string (String.ofList (List.replicate n 'x')))) []

theorem length_longBody {n : Nat} (h : 2 ^ 32 ≤ n) : (longBody n).length = 53 + n := by
  have hempty : (Bytes.ofString "").length = 0 := by cbv
  have hservice : (Bytes.ofString "service").length = 7 := by cbv
  have hmethod : (Bytes.ofString "method").length = 6 := by cbv
  have htypes : (Bytes.ofString "param_types").length = 11 := by cbv
  have hstring : (Bytes.ofString "string").length = 6 := by cbv
  have hargs : (Bytes.ofString "args").length = 4 := by cbv
  have htext := Bytes.length_ofString_replicate (show 'x'.toNat < 128 by decide) n
  have hlarge : Cbor.headLength n = 9 := by
    have hnot : ∀ k ≤ 2 ^ 32, ¬ n < k := fun k hk => Nat.not_lt.mpr (Nat.le_trans hk h)
    simp only [Cbor.headLength, hnot 24 (by decide), hnot (2 ^ 8) (by decide), hnot (2 ^ 16) (by decide),
      hnot (2 ^ 32) (Nat.le_refl _), if_false]
  have hsmall : ∀ k < 24, Cbor.headLength k = 1 := fun k hk => if_pos hk
  have hfields : longBody n = Cbor.writeArgument 5 4 (Cbor.writeText "service" (Cbor.writeText ""
      (Cbor.writeText "method" (Cbor.writeText "" (Cbor.writeText "param_types" (Cbor.writeArgument 4 1
        (Cbor.writeText "string" (Cbor.writeText "args" (Cbor.writeArgument 4 1
          (Cbor.writeText (String.ofList (List.replicate n 'x')) [])))))))))) := rfl
  rw [hfields, Cbor.length_writeArgument, Cbor.length_writeText hservice, Cbor.length_writeText hempty,
    Cbor.length_writeText hmethod, Cbor.length_writeText hempty, Cbor.length_writeText htypes, Cbor.length_writeArgument,
    Cbor.length_writeText hstring, Cbor.length_writeText hargs, Cbor.length_writeArgument, Cbor.length_writeText htext,
    hlarge, List.length_nil]
  simp only [hsmall 0 (by decide), hsmall 1 (by decide), hsmall 4 (by decide), hsmall 6 (by decide),
    hsmall 7 (by decide), hsmall 11 (by decide)]
  omega

theorem encodeBody_longRequest (n max : Nat) :
    (FrameCodec.mk .builtin max).encodeBody (longRequest n) = .ok (longBody n) := rfl

/-- Settings of a server whose limit 32 bits do not hold. -/
def wideConfig : ServerConfig := { ServerConfig.standard with maxFrameLength := 2 ^ 33 }

/-- **A frame of more than `2 ^ 32` bytes declares 69.** The side that reads it takes the first 69 bytes for the whole
of it. -/
theorem longRequest_cut_short :
    wideConfig.validate = .ok () ∧ ∃ frame,
      ((FrameCodec.mk .builtin wideConfig.maxFrameLength).encodeInto (longRequest (2 ^ 32))).run.run [] =
        (.ok (), frame) ∧
      frame.length = 2 ^ 32 + 69 ∧ Bytes.toNat ((frame.drop lengthOffset).take 4) = 69 ∧
      ∀ more,
        (∃ i, (FrameCodec.mk .builtin wideConfig.maxFrameLength).decode (frame ++ more) =
          .item i ((frame ++ more).drop 69)) ∧
        ¬ ∃ i, (FrameCodec.mk .builtin wideConfig.maxFrameLength).decode (frame ++ more) = .item i more := by
  -- All of this is about lengths: nothing of that size is ever written out.
  have hbody := length_longBody (Nat.le_refl (2 ^ 32))
  have hmax : wideConfig.maxFrameLength = 2 ^ 33 := rfl
  have hlen : headerLength + (longBody (2 ^ 32)).length ≤ wideConfig.maxFrameLength := by
    rw [hbody, hmax]
    decide
  have hlength : (frameOf (longRequest (2 ^ 32)) (longBody (2 ^ 32))).length = 2 ^ 32 + 69 := by
    rw [length_frameOf, hbody]
    rfl
  have hdeclared := declared_frameOf (longRequest (2 ^ 32)) (longBody (2 ^ 32))
  have hlow : (frameOf (longRequest (2 ^ 32)) (longBody (2 ^ 32))).length % 2 ^ 32 = 69 := by rw [hlength]
  rw [hlow] at hdeclared
  refine ⟨rfl, _, run_encodeInto_eq_ok_iff.mpr ⟨_, encodeBody_longRequest _ _, hlen, rfl⟩, hlength, hdeclared,
    fun more => ?_⟩
  obtain ⟨i, hi⟩ := decode_frameOf_low (c := ⟨.builtin, wideConfig.maxFrameLength⟩) (m := longRequest (2 ^ 32)) hlen
    (by rw [hlow]; decide) more
  rw [hlow] at hi
  refine ⟨⟨i, hi⟩, ?_⟩
  rintro ⟨j, hj⟩
  rw [List.nil_append, hi, Step.item.injEq] at hj
  have hrest := congrArg List.length hj.2
  rw [List.length_drop, List.length_append, hlength] at hrest
  omega

end FrameCodec

end Rpc
