import Rpc.Proofs.Frame.RoundTrip

/-!
# What writing a message does to a buffer

- `FrameCodec.frameOf_eq`: the bytes of a frame, one field behind the other;
- `FrameCodec.NotWritten`: the ways in which there is no frame;
- `FrameCodec.encodeInto_all_or_nothing`: a frame behind what a buffer holds, or the buffer as it was.
-/

namespace Rpc

/-- A word holds the number modulo what its width can hold. -/
theorem Bytes.bigEndian_mod (width n : Nat) : bigEndian width (n % 256 ^ width) = bigEndian width n := by
  have hdigit : ∀ k < width, UInt8.ofNat (n % 256 ^ width / 256 ^ k) = UInt8.ofNat (n / 256 ^ k) := by
    intro k hk
    obtain ⟨j, rfl⟩ := Nat.exists_eq_add_of_lt hk
    apply UInt8.toNat_inj.mp
    have hpow : 256 ^ (k + j + 1) = 256 ^ k * (256 * 256 ^ j) := by rw [Nat.add_assoc, Nat.pow_add, Nat.pow_succ']
    simp only [UInt8.toNat_ofNat', hpow, Nat.mod_mul_right_div_self, Nat.mod_mul_right_mod]
  suffices h : ∀ w ≤ width, bigEndian w (n % 256 ^ width) = bigEndian w n from h width (Nat.le_refl _)
  intro w hw
  induction w with
  | zero => rfl
  | succ w ih => rw [bigEndian, bigEndian, hdigit w hw, ih (Nat.le_of_lt hw)]

namespace FrameCodec

variable {c : FrameCodec} {m : Message}

/-! ## Frames -/

/-- The fields of a frame, one behind the other. -/
theorem frameOf_eq (m : Message) (body : Bytes) :
    frameOf m body = magic ++ [protocolVersion] ++ Bytes.bigEndian 4 ((headerLength + body.length) % 2 ^ 32) ++
      [m.type.toByte, m.serializer, m.compressor] ++ Bytes.bigEndian 4 m.requestId.toNat ++ body := by
  have hlow := Bytes.bigEndian_mod 4 (headerLength + body.length)
  rw [show (2 : Nat) ^ 32 = 256 ^ 4 from rfl, hlow]
  simp only [frameOf, List.append_assoc, List.cons_append, List.nil_append]

/-- Why nothing is written for a message: it has no body, or its frame is longer than the limit. -/
inductive NotWritten (c : FrameCodec) (m : Message) : EncodeError → Prop
  | codec {e : CodecError} : c.NoBody m e → NotWritten c m (.codec e)
  | tooLarge {body : Bytes} : m.payload.fits m.type = true → c.BodyOf m body →
      c.maxFrameLength < headerLength + body.length →
      NotWritten c m (.protocol (.frameTooLarge (headerLength + body.length) c.maxFrameLength))

theorem encodeOnto_eq_error_iff {buf : Bytes} {e : EncodeError} : c.encodeOnto m buf = .error e ↔ c.NotWritten m e := by
  rw [encodeOnto_eq]
  constructor
  · intro h
    cases hbody : c.encodeBody m with
    | error e' =>
      simp only [hbody, Except.error.injEq] at h
      exact h ▸ .codec (encodeBody_eq_error_iff.mp hbody)
    | ok body =>
      obtain ⟨hfits, hof⟩ := encodeBody_eq_ok_iff.mp hbody
      simp only [hbody] at h
      split at h
      · next hlong =>
        cases h
        exact .tooLarge hfits hof hlong
      · cases h
  · rintro (hno | ⟨hfits, hof, hlong⟩)
    · rw [encodeBody_eq_error_iff.mpr hno]
    · rw [encodeBody_eq_ok_iff.mpr ⟨hfits, hof⟩]
      exact if_pos hlong

theorem run_encodeInto_eq_error_iff {buf after : Bytes} {e : EncodeError} :
    (c.encodeInto m).run.run buf = (.error e, after) ↔ c.NotWritten m e ∧ after = buf := by
  have hfails : c.encodeOnto m buf = .error e ↔ c.NotWritten m e := encodeOnto_eq_error_iff
  rw [run_encodeInto, ← hfails]
  cases c.encodeOnto m buf with
  | error e' =>
    constructor
    · rintro ⟨⟩
      exact ⟨rfl, rfl⟩
    · rintro ⟨⟨⟩, rfl⟩
      rfl
  | ok out =>
    constructor
    · rintro ⟨⟩
    · rintro ⟨⟨⟩, -⟩

theorem run_encodeInto_eq_ok_iff {buf after : Bytes} :
    (c.encodeInto m).run.run buf = (.ok (), after) ↔
      ∃ body, c.encodeBody m = .ok body ∧ headerLength + body.length ≤ c.maxFrameLength ∧
        after = buf ++ frameOf m body := by
  rw [run_encodeInto, ← encodeOnto_eq_ok_iff]
  cases c.encodeOnto m buf with
  | error e =>
    constructor
    · rintro ⟨⟩
    · rintro ⟨⟩
  | ok out =>
    constructor
    · rintro ⟨⟩
      rfl
    · rintro ⟨⟩
      rfl

/-- **All or nothing is written, and nothing else is touched.** If writing a message fails, for whatever reason, the
buffer holds what it held before. If it does not, then the payload fits the type, the frame is within the limit, and
the buffer holds what it held before and behind it magic, version, the low 32 bits of the length of the frame, the type,
the ids, and the body. -/
theorem encodeInto_all_or_nothing (c : FrameCodec) (m : Message) (buf after : Bytes) :
    (∀ e, (c.encodeInto m).run.run buf = (.error e, after) ↔ c.NotWritten m e ∧ after = buf) ∧
    ((c.encodeInto m).run.run buf = (.ok (), after) ↔
      ∃ body, m.payload.fits m.type = true ∧ c.BodyOf m body ∧ headerLength + body.length ≤ c.maxFrameLength ∧
        after = buf ++ (magic ++ [protocolVersion] ++ Bytes.bigEndian 4 ((headerLength + body.length) % 2 ^ 32) ++
          [m.type.toByte, m.serializer, m.compressor] ++ Bytes.bigEndian 4 m.requestId.toNat ++ body)) := by
  refine ⟨fun e => run_encodeInto_eq_error_iff, ?_⟩
  rw [run_encodeInto_eq_ok_iff]
  simp only [encodeBody_eq_ok_iff, frameOf_eq, and_assoc]

end FrameCodec

end Rpc
