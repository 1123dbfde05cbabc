import Rpc.Frame

/-!
# Bodies of messages

- `FrameCodec.BodyOf`: what the body of a message is, and `FrameCodec.encodeBody_eq_ok_iff`: it has this one if its
  payload fits its type;
- `FrameCodec.NoBody`: the reasons for which a message has none, and `FrameCodec.encodeBody_eq_error_iff`: there is no
  other.
-/

namespace Rpc.FrameCodec

variable {c : FrameCodec} {m : Message} {body : Bytes}

/-- What the body of a message is. -/
inductive BodyOf (c : FrameCodec) (m : Message) : Bytes → Prop
  | heartbeat : m.type.isHeartbeat = true → BodyOf c m []
  | plain {s : Serializer} {plain : Bytes} : m.type.isHeartbeat = false →
      c.codecs.serializer m.serializer = .ok s → s.serialize m.payload = .ok plain →
      c.codecs.compressor m.compressor = .ok none → BodyOf c m plain
  | compressed {s : Serializer} {plain short : Bytes} {k : Compressor} : m.type.isHeartbeat = false →
      c.codecs.serializer m.serializer = .ok s → s.serialize m.payload = .ok plain →
      c.codecs.compressor m.compressor = .ok (some k) → k.compress plain = .ok short → BodyOf c m short

/-- Why a message has no body. Each reason is looked for when there was none before it. -/
inductive NoBody (c : FrameCodec) (m : Message) : CodecError → Prop
  | payload : m.payload.fits m.type = false → NoBody c m (.payloadMismatch m.type.name)
  | serializer {e : CodecError} : m.payload.fits m.type = true → m.type.isHeartbeat = false →
      c.codecs.serializer m.serializer = .error e → NoBody c m e
  | serialize {s : Serializer} {e : CodecError} : m.payload.fits m.type = true → m.type.isHeartbeat = false →
      c.codecs.serializer m.serializer = .ok s → s.serialize m.payload = .error e → NoBody c m e
  | compressor {s : Serializer} {plain : Bytes} {e : CodecError} : m.payload.fits m.type = true →
      m.type.isHeartbeat = false → c.codecs.serializer m.serializer = .ok s → s.serialize m.payload = .ok plain →
      c.codecs.compressor m.compressor = .error e → NoBody c m e
  | compress {s : Serializer} {plain : Bytes} {k : Compressor} {e : CodecError} : m.payload.fits m.type = true →
      m.type.isHeartbeat = false → c.codecs.serializer m.serializer = .ok s → s.serialize m.payload = .ok plain →
      c.codecs.compressor m.compressor = .ok (some k) → k.compress plain = .error e → NoBody c m e

/-- Whatever serializer and compressor do, it makes a body or is a reason for none. -/
theorem encodeBody_cases (c : FrameCodec) (m : Message) :
    (∃ body, c.encodeBody m = .ok body ∧ m.payload.fits m.type = true ∧ c.BodyOf m body) ∨
      ∃ e, c.encodeBody m = .error e ∧ c.NoBody m e := by
  unfold encodeBody
  cases hf : m.payload.fits m.type with
  | false => exact .inr ⟨_, rfl, .payload hf⟩
  | true =>
    cases hb : m.type.isHeartbeat with
    | true => exact .inl ⟨_, rfl, rfl, .heartbeat hb⟩
    | false =>
      cases hs : c.codecs.serializer m.serializer with
      | error e => exact .inr ⟨e, rfl, .serializer hf hb hs⟩
      | ok s =>
        cases hplain : s.serialize m.payload with
        | error e => exact .inr ⟨e, by simp [hplain, bind, Except.bind], .serialize hf hb hs hplain⟩
        | ok plain =>
          cases hk : c.codecs.compressor m.compressor with
          | error e => exact .inr ⟨e, by simp [hplain, bind, Except.bind], .compressor hf hb hs hplain hk⟩
          | ok k =>
            cases k with
            | none => exact .inl ⟨plain, by simp [hplain, bind, Except.bind], rfl, .plain hb hs hplain hk⟩
            | some k =>
              cases hshort : k.compress plain with
              | error e => exact .inr ⟨e, by simp [hplain, hshort, bind, Except.bind], .compress hf hb hs hplain hk hshort⟩
              | ok short =>
                exact .inl ⟨short, by simp [hplain, hshort, bind, Except.bind], rfl, .compressed hb hs hplain hk hshort⟩

/-- A message whose payload fits its type has the body that it should. -/
theorem encodeBody_eq_ok_iff : c.encodeBody m = .ok body ↔ m.payload.fits m.type = true ∧ c.BodyOf m body := by
  constructor
  · intro h
    rcases encodeBody_cases c m with ⟨body', hok, hof⟩ | ⟨e, herror, -⟩
    · rw [h] at hok
      cases hok
      exact hof
    · rw [h] at herror
      cases herror
  · rintro ⟨hfits, hbody⟩
    cases hbody with
    | heartbeat hb => simp [encodeBody, hfits, hb]
    | plain hb hs hplain hk => simp [encodeBody, hfits, hb, hs, hplain, hk, bind, Except.bind]
    | compressed hb hs hplain hk hshort => simp [encodeBody, hfits, hb, hs, hplain, hk, hshort, bind, Except.bind]

/-- A message has no body for one of five reasons. -/
theorem encodeBody_eq_error_iff {e : CodecError} : c.encodeBody m = .error e ↔ c.NoBody m e := by
  constructor
  · intro h
    rcases encodeBody_cases c m with ⟨body, hok, -⟩ | ⟨e', herror, hno⟩
    · rw [h] at hok
      cases hok
    · rw [h] at herror
      cases herror
      exact hno
  · intro h
    cases h with
    | payload hf => simp [encodeBody, hf]
    | serializer hf hb hs => simp [encodeBody, hf, hb, hs, bind, Except.bind]
    | serialize hf hb hs hplain => simp [encodeBody, hf, hb, hs, hplain, bind, Except.bind]
    | compressor hf hb hs hplain hk => simp [encodeBody, hf, hb, hs, hplain, hk, bind, Except.bind]
    | compress hf hb hs hplain hk hshort => simp [encodeBody, hf, hb, hs, hplain, hk, hshort, bind, Except.bind]

end Rpc.FrameCodec
