import Mathlib.Data.List.Basic
import Rpc.Deflate.Bits

/-!
# Bits in and out of bytes

- `flatMap_bitsOf_packBits`: the bits of packed bytes are the bits that were packed, and less than a byte of zeros;
- `BitStream.Shows`: a stream is about to give some bits, and holds less than a byte of them in its hand. From such a
  stream one gets the next bit (`Shows.next?`), a number of known width (`Shows.bits?`) and the bytes behind less than
  a byte of bits (`Shows.align`), and what one gets is what it was about to give (`Shows.of_next?`, `Shows.of_bits?`).
-/

namespace Rpc.Deflate

variable {b : Bool} {bits : List Bool} {n width : Nat}

/-! ## Numbers -/

@[simp] theorem length_bitsOf (b : UInt8) : (bitsOf b).length = 8 := by simp [bitsOf]

@[simp] theorem length_flatMap_bitsOf (bs : Bytes) : (bs.flatMap bitsOf).length = 8 * bs.length := by
  induction bs with
  | nil => rfl
  | cons b bs ih =>
    rw [List.flatMap_cons, List.length_append, ih, length_bitsOf, List.length_cons]
    omega

@[simp] theorem length_lowBits (width n : Nat) : (lowBits width n).length = width := by simp [lowBits]

theorem lowBits_succ (width n : Nat) : lowBits (width + 1) n = n.testBit 0 :: lowBits width (n / 2) := by
  simp [lowBits, List.range_succ_eq_map, Nat.testBit_succ, Function.comp_def]

theorem bitsToNat_lowBits (width n : Nat) : bitsToNat (lowBits width n) = n % 2 ^ width := by
  induction width generalizing n with
  | zero => simp [lowBits, bitsToNat, Nat.mod_one]
  | succ width ih =>
    rw [lowBits_succ, bitsToNat, ih, Nat.pow_succ', Nat.mod_mul]
    congr 1
    rw [Nat.testBit_zero]
    rcases Nat.mod_two_eq_zero_or_one n with h | h <;> simp [h]

theorem bitsToNat_lt (bits : List Bool) : bitsToNat bits < 2 ^ bits.length := by
  induction bits with
  | nil => simp [bitsToNat]
  | cons b bits ih =>
    have hb := b.toNat_le
    rw [bitsToNat, List.length_cons, Nat.pow_succ]
    omega

theorem lowBits_add_two_mul (width : Nat) (b : Bool) (n : Nat) :
    lowBits (width + 1) (b.toNat + 2 * n) = b :: lowBits width n := by
  have hlow : (b.toNat + 2 * n).testBit 0 = b := by
    rw [Nat.testBit_zero]
    cases b <;> simp
  have hhigh : (b.toNat + 2 * n) / 2 = n := by
    have hb : b.toNat / 2 = 0 := Nat.div_eq_of_lt b.toNat_lt
    omega
  rw [lowBits_succ, hlow, hhigh]

theorem lowBits_bitsToNat (bits : List Bool) (more : Nat) :
    lowBits (bits.length + more) (bitsToNat bits) = bits ++ List.replicate more false := by
  induction bits with
  | nil =>
    refine List.ext_getElem (by simp) fun i _ _ => ?_
    simp [lowBits, bitsToNat]
  | cons b bits ih =>
    rw [bitsToNat, List.length_cons, Nat.succ_add, lowBits_add_two_mul, ih, List.cons_append]

/-- A byte made of bits has these bits, and zeros where there are none. -/
theorem bitsOf_packByte (h : bits.length ≤ 8) :
    bitsOf (packByte bits) = bits ++ List.replicate (8 - bits.length) false := by
  have hlt : bitsToNat bits < 2 ^ 8 := Nat.lt_of_lt_of_le (bitsToNat_lt bits) (Nat.pow_le_pow_right (by decide) h)
  have hbyte : (packByte bits).toNat = bitsToNat bits := by
    simpa [packByte] using hlt
  have := lowBits_bitsToNat bits (8 - bits.length)
  rwa [Nat.add_sub_cancel' h, ← hbyte] at this

/-! ## Packing -/

theorem flatMap_bitsOf_packFrom (byte : List Bool) (done : Bytes) (bits : List Bool) (h : byte.length < 8) :
    ∃ zeros < 8, (packFrom byte done bits).flatMap bitsOf =
      done.reverse.flatMap bitsOf ++ byte.reverse ++ bits ++ List.replicate zeros false := by
  induction bits generalizing byte done with
  | nil =>
    rw [packFrom]
    split
    · next hempty => exact ⟨0, by decide, by simp [List.isEmpty_iff.mp hempty]⟩
    · next hbyte =>
      have hpos : 0 < byte.length := List.length_pos_of_ne_nil fun h => hbyte (by simp [h])
      refine ⟨8 - byte.length, by omega, ?_⟩
      have hlen : byte.reverse.length ≤ 8 := by
        rw [List.length_reverse]
        omega
      simp [bitsOf_packByte hlen]
  | cons b bits ih =>
    rw [packFrom]
    split
    · next hfull =>
      obtain ⟨zeros, hz, heq⟩ := ih [] (packByte (b :: byte).reverse :: done) (by decide)
      refine ⟨zeros, hz, ?_⟩
      rw [heq]
      have hlen : (byte.reverse ++ [b]).length ≤ 8 := by simp [hfull]
      simp [bitsOf_packByte hlen, hfull]
    · next hroom =>
      obtain ⟨zeros, hz, heq⟩ := ih (b :: byte) done (by simp; omega)
      exact ⟨zeros, hz, by rw [heq]; simp⟩

/-- Packed bytes have the bits that were packed, and zeros up to the end of the last byte. -/
theorem flatMap_bitsOf_packBits (bits : List Bool) :
    ∃ zeros < 8, (packBits bits).flatMap bitsOf = bits ++ List.replicate zeros false := by
  simpa [packBits] using flatMap_bitsOf_packFrom [] [] bits (by decide)

/-- Bits that fill whole bytes are those of some bytes. -/
theorem exists_flatMap_bitsOf (h : bits.length % 8 = 0) : ∃ bs : Bytes, bs.flatMap bitsOf = bits := by
  obtain ⟨zeros, hzeros, hpacked⟩ := flatMap_bitsOf_packBits bits
  have hlen := congrArg List.length hpacked
  rw [length_flatMap_bitsOf, List.length_append, List.length_replicate] at hlen
  obtain rfl : zeros = 0 := by omega
  exact ⟨packBits bits, by rw [hpacked, List.replicate_zero, List.append_nil]⟩

/-! ## Streams -/

theorem bitsOf_injective : Function.Injective bitsOf := by
  intro a b h
  have hnum := congrArg bitsToNat h
  have hbyte (c : UInt8) : bitsToNat (bitsOf c) = c.toNat := by
    rw [show bitsOf c = lowBits 8 c.toNat from rfl, bitsToNat_lowBits]
    exact Nat.mod_eq_of_lt c.toNat_lt
  rw [hbyte, hbyte] at hnum
  exact UInt8.toNat_inj.mp hnum

/-- Different bytes have different bits. -/
theorem flatMap_bitsOf_injective {xs ys : Bytes} (h : xs.flatMap bitsOf = ys.flatMap bitsOf) : xs = ys := by
  induction xs generalizing ys with
  | nil =>
    cases ys with
    | nil => rfl
    | cons y ys => simp [bitsOf] at h
  | cons x xs ih =>
    cases ys with
    | nil => simp [bitsOf] at h
    | cons y ys =>
      obtain ⟨hx, hxs⟩ := List.append_inj (by simpa using h) (by simp)
      rw [bitsOf_injective hx, ih hxs]

namespace BitStream

variable {s : BitStream}

/-- The stream gives some bits next, with less than a byte of them spelled out. -/
structure Shows (s : BitStream) (bits : List Bool) : Prop where
  toList : s.toList = bits
  short : s.current.length < 8

theorem shows_ofBytes (bs : Bytes) : (ofBytes bs).Shows (bs.flatMap bitsOf) := ⟨rfl, by simp [ofBytes]⟩

theorem Shows.bound_eq (h : s.Shows bits) : s.bound = bits.length := by
  rw [← h.toList]
  simp only [bound, BitStream.toList, List.length_append, length_flatMap_bitsOf]

theorem Shows.next? (h : s.Shows (b :: bits)) : ∃ s', s.next? = some (b, s') ∧ s'.Shows bits := by
  obtain ⟨current, rest⟩ := s
  obtain ⟨hlist, hshort⟩ := h
  match current, rest with
  | c :: current, rest =>
    obtain ⟨rfl, hbits⟩ := List.cons.inj hlist
    exact ⟨⟨current, rest⟩, rfl, hbits, Nat.lt_of_succ_lt hshort⟩
  | [], [] => cases hlist
  | [], byte :: rest =>
    obtain ⟨c, cs, hbyte⟩ := List.exists_cons_of_length_eq_add_one (length_bitsOf byte)
    have hcs : cs.length = 7 := by simpa [hbyte] using length_bitsOf byte
    simp only [BitStream.toList, List.nil_append, List.flatMap_cons, hbyte, List.cons_append] at hlist
    obtain ⟨rfl, hbits⟩ := List.cons.inj hlist
    exact ⟨⟨cs, rest⟩, by simp [BitStream.next?, hbyte], hbits, show cs.length < 8 by omega⟩

/-- A number is read as it was written, as far as its width goes. -/
theorem Shows.bits? (h : s.Shows (lowBits width n ++ bits)) :
    ∃ s', s.bits? width = some (n % 2 ^ width, s') ∧ s'.Shows bits := by
  induction width generalizing s n with
  | zero => exact ⟨s, by simp [BitStream.bits?, Nat.mod_one], h⟩
  | succ width ih =>
    rw [lowBits_succ, List.cons_append] at h
    obtain ⟨s₁, hnext, h₁⟩ := h.next?
    obtain ⟨s₂, hbits, h₂⟩ := ih h₁
    refine ⟨s₂, ?_, h₂⟩
    have hsum := bitsToNat_lowBits (width + 1) n
    rw [lowBits_succ, bitsToNat, bitsToNat_lowBits] at hsum
    simp only [BitStream.bits?, hnext, hbits, Option.bind_eq_bind, Option.bind_some, hsum]

/-- A bit that is read is the next one. -/
theorem Shows.of_next? {s' : BitStream} (h : s.Shows bits) (hnext : s.next? = some (b, s')) :
    ∃ rest, bits = b :: rest ∧ s'.Shows rest := by
  cases bits with
  | nil =>
    have hbound := h.bound_eq
    obtain ⟨current, rest⟩ := s
    simp only [bound, List.length_nil] at hbound
    obtain rfl : current = [] := List.eq_nil_of_length_eq_zero (by omega)
    obtain rfl : rest = [] := List.eq_nil_of_length_eq_zero (by omega)
    cases hnext
  | cons c rest =>
    obtain ⟨s'', hread, hs''⟩ := h.next?
    cases hread.symm.trans hnext
    exact ⟨rest, rfl, hs''⟩

/-- A number that is read is what is written there. -/
theorem Shows.of_bits? {s' : BitStream} (h : s.Shows bits) (hread : s.bits? width = some (n, s')) :
    n < 2 ^ width ∧ ∃ rest, bits = lowBits width n ++ rest ∧ s'.Shows rest := by
  induction width generalizing s n bits with
  | zero =>
    cases hread
    exact ⟨Nat.one_pos, bits, rfl, h⟩
  | succ width ih =>
    obtain ⟨⟨b, s₁⟩, hnext, hread⟩ := Option.bind_eq_some_iff.mp hread
    obtain ⟨⟨m, s₂⟩, hmore, hread⟩ := Option.bind_eq_some_iff.mp hread
    cases hread
    obtain ⟨rest, rfl, hs₁⟩ := h.of_next? hnext
    obtain ⟨hm, rest, rfl, hs₂⟩ := ih hs₁ hmore
    have hb := b.toNat_le
    refine ⟨by rw [Nat.pow_succ]; omega, rest, ?_, hs₂⟩
    rw [lowBits_add_two_mul, List.cons_append]

/-- The bytes behind less than a byte of bits. -/
theorem Shows.align {bs : Bytes} (h : s.Shows (bits ++ bs.flatMap bitsOf)) (hbits : bits.length < 8) :
    s.align = bs := by
  have hlist := h.toList
  have hlen := congrArg List.length hlist
  have hshort := h.short
  simp only [BitStream.toList, List.length_append, length_flatMap_bitsOf] at hlen
  exact flatMap_bitsOf_injective (List.append_inj hlist (by omega)).2

end BitStream

end Rpc.Deflate
