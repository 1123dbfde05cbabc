import Mathlib
import Rpc.Frame

/-!
# Headers of growing buffers

A decision on a header stands when more bytes come in behind it.

- `checkPrefix_append_error`: a wrong magic or version stays one, and only what a wrong magic shows can change
  (`ProtocolError.seenIn`);
- `parse_append`: sixteen bytes decide everything about a header;
- `parse_ne_incomplete`, `parse_ok`: what is known of a header of sixteen bytes.
-/

namespace Rpc

/-! ## What errors show -/

/-- The first four bytes of a buffer, with zero for those that are not there. -/
def shownMagic (buf : Bytes) : Bytes := buf.take 4 ++ List.replicate (4 - (buf.take 4).length) 0

/-- An error as it is reported with a buffer in view: a wrong magic shows the bytes of this buffer. -/
def ProtocolError.seenIn (buf : Bytes) : ProtocolError → ProtocolError
  | .badMagic _ => .badMagic (shownMagic buf)
  | e => e

namespace FrameHeader

/-! ## Magic and version -/

/-- The magic is right as far as its bytes go if they are its first bytes. -/
theorem take_eq_magic_iff (buf : Bytes) : buf.take 4 = magic.take (buf.take 4).length ↔ buf.take 4 <+: magic :=
  List.prefix_iff_eq_take.symm

theorem checkPrefix_of_magic {buf : Bytes} (h : buf.take 4 <+: magic) :
    checkPrefix buf =
      match buf[4]? with
      | some v => if v = protocolVersion then .ok () else .error (.incompatibleVersion protocolVersion v)
      | none => .ok () := by
  unfold checkPrefix
  exact if_neg (not_not_intro ((take_eq_magic_iff buf).mpr h))

theorem checkPrefix_of_not_magic {buf : Bytes} (h : ¬ buf.take 4 <+: magic) :
    checkPrefix buf = .error (.badMagic (shownMagic buf)) := by
  unfold checkPrefix
  rw [if_pos fun e => h ((take_eq_magic_iff buf).mp e)]
  rfl

/-- The first bytes of a buffer are first bytes of every longer one. -/
theorem take_prefix_append (buf more : Bytes) (n : Nat) : buf.take n <+: (buf ++ more).take n := by
  rw [List.take_append]
  exact List.prefix_append _ _

/-- Wrong bytes stay wrong. -/
theorem checkPrefix_append_error {buf : Bytes} {e : ProtocolError} (h : checkPrefix buf = .error e) (more : Bytes) :
    e = e.seenIn buf ∧ checkPrefix (buf ++ more) = .error (e.seenIn (buf ++ more)) := by
  by_cases hm : buf.take 4 <+: magic
  · rw [checkPrefix_of_magic hm] at h
    cases hv : buf[4]? with
    | none => simp [hv] at h
    | some v =>
      have hlen : 4 < buf.length := (List.getElem?_eq_some_iff.mp hv).1
      have htake : (buf ++ more).take 4 = buf.take 4 := List.take_append_of_le_length (by omega)
      have hv' : (buf ++ more)[4]? = some v := by rw [List.getElem?_append_left hlen, hv]
      rw [checkPrefix_of_magic (by rw [htake]; exact hm), hv']
      by_cases hp : v = protocolVersion
      · simp [hv, hp] at h
      · simp only [hv, if_neg hp, Except.error.injEq] at h ⊢
        subst h
        exact ⟨rfl, rfl⟩
  · rw [checkPrefix_of_not_magic hm, Except.error.injEq] at h
    subst h
    have hm' : ¬ (buf ++ more).take 4 <+: magic := fun h' => hm ((take_prefix_append buf more 4).trans h')
    exact ⟨rfl, checkPrefix_of_not_magic hm'⟩

/-! ## Whole headers -/

/-- A buffer that is long enough for a header is one header and the bytes behind it. -/
theorem exists_header {buf : Bytes} (h : headerLength ≤ buf.length) :
    ∃ m₁ m₂ m₃ m₄ v l₁ l₂ l₃ l₄ t s k i₁ i₂ i₃ i₄ rest,
      buf = m₁ :: m₂ :: m₃ :: m₄ :: v :: l₁ :: l₂ :: l₃ :: l₄ :: t :: s :: k :: i₁ :: i₂ :: i₃ :: i₄ :: rest := by
  rcases buf with _ | ⟨m₁, _ | ⟨m₂, _ | ⟨m₃, _ | ⟨m₄, _ | ⟨v, _ | ⟨l₁, _ | ⟨l₂, _ | ⟨l₃, _ | ⟨l₄, _ | ⟨t, _ | ⟨s,
    _ | ⟨k, _ | ⟨i₁, _ | ⟨i₂, _ | ⟨i₃, _ | ⟨i₄, rest⟩⟩⟩⟩⟩⟩⟩⟩⟩⟩⟩⟩⟩⟩⟩⟩
  case cons.cons.cons.cons.cons.cons.cons.cons.cons.cons.cons.cons.cons.cons.cons.cons =>
    exact ⟨m₁, m₂, m₃, m₄, v, l₁, l₂, l₃, l₄, t, s, k, i₁, i₂, i₃, i₄, rest, rfl⟩
  all_goals simp [headerLength] at h

/-- Sixteen bytes decide about a header. -/
theorem parse_append (max : Nat) {buf : Bytes} (h : headerLength ≤ buf.length) (more : Bytes) :
    parse max (buf ++ more) = parse max buf := by
  obtain ⟨m₁, m₂, m₃, m₄, v, l₁, l₂, l₃, l₄, t, s, k, i₁, i₂, i₃, i₄, rest, rfl⟩ := exists_header h
  rfl

/-- A header with wrong magic or version is refused for that. -/
theorem parse_of_checkPrefix_error {max : Nat} {buf : Bytes} {e : ProtocolError} (h : checkPrefix buf = .error e) :
    parse max buf = .error (.protocol e) := by
  unfold parse
  rw [h]
  rfl

/-- A header of sixteen bytes with the right magic and version is decided by its length. -/
theorem parse_of_checkPrefix_ok (max : Nat) {buf : Bytes} (hp : checkPrefix buf = .ok ())
    (hl : headerLength ≤ buf.length) :
    ∃ h : FrameHeader, parse max buf = ((checkLength max h.fullLength).mapError .protocol).map fun _ => h := by
  obtain ⟨m₁, m₂, m₃, m₄, v, l₁, l₂, l₃, l₄, t, s, k, i₁, i₂, i₃, i₄, rest, rfl⟩ := exists_header hl
  refine ⟨⟨Bytes.toNat [l₁, l₂, l₃, l₄], t, s, k, UInt32.ofNat (Bytes.toNat [i₁, i₂, i₃, i₄])⟩, ?_⟩
  unfold parse
  rw [hp]
  cases hc : checkLength max (Bytes.toNat [l₁, l₂, l₃, l₄]) with
  | error e => simp [lengthOffset, bind, Except.bind, Except.mapError, Except.map, hc]
  | ok _ => simp [lengthOffset, bind, Except.bind, Except.mapError, Except.map, hc]

/-- A length is right if it is that of a header at least and no more than the limit. -/
theorem checkLength_ok_iff {max size : Nat} :
    checkLength max size = .ok () ↔ headerLength ≤ size ∧ size ≤ max := by
  unfold checkLength
  split
  · simp; omega
  · split
    · simp; omega
    · simp; omega

/-- A wrong length is no wrong magic. -/
theorem seenIn_of_checkLength {max size : Nat} {e : ProtocolError} (h : checkLength max size = .error e)
    (buf : Bytes) : e.seenIn buf = e := by
  unfold checkLength at h
  split at h
  · cases h
    rfl
  · split at h
    · cases h
      rfl
    · cases h

/-- Nothing is missing from a header of sixteen bytes. -/
theorem parse_ne_incomplete (max : Nat) {buf : Bytes} (hl : headerLength ≤ buf.length) :
    parse max buf ≠ .error .incomplete := by
  cases hp : checkPrefix buf with
  | error e => simp [parse_of_checkPrefix_error hp]
  | ok _ =>
    obtain ⟨h, he⟩ := parse_of_checkPrefix_ok max hp hl
    rw [he]
    cases checkLength max h.fullLength <;> simp [Except.mapError, Except.map]

/-- The length in an accepted header is that of a header at least and no more than the limit. -/
theorem parse_ok {max : Nat} {buf : Bytes} {h : FrameHeader} (hl : headerLength ≤ buf.length)
    (he : parse max buf = .ok h) : headerLength ≤ h.fullLength ∧ h.fullLength ≤ max := by
  cases hp : checkPrefix buf with
  | error e => simp [parse_of_checkPrefix_error hp] at he
  | ok _ =>
    obtain ⟨h', he'⟩ := parse_of_checkPrefix_ok max hp hl
    rw [he'] at he
    cases hc : checkLength max h'.fullLength with
    | error e => simp [hc, Except.mapError, Except.map] at he
    | ok _ =>
      simp only [hc, Except.mapError, Except.map, Except.ok.injEq] at he
      exact he ▸ checkLength_ok_iff.mp hc

end FrameHeader

end Rpc
