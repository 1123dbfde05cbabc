import Mathlib.Data.List.Basic
import Rpc.Deflate.Token

/-!
# The search for copies loses nothing

- `Token.carries_tokenAt`: a token found at a place carries the output up to that place on to the place behind it;
- `Token.expand_ofBytes`: the tokens of a byte string write it out again;
- `Token.sound_ofBytes`: all of them are of a kind that a stream can hold (`Token.Valid`), and what they copy is there.

Where a copy comes from does not matter: its length is always found by comparing bytes.
-/

namespace Rpc.Deflate.Token

variable {x out : Array UInt8} {i j k most length distance : Nat}

/-- Copies have a length and a distance that a stream can hold. -/
def Valid : Token → Prop
  | .literal _ => True
  | .copy length distance =>
    minLength ≤ length ∧ length ≤ maxLength ∧ 0 < distance ∧ distance ≤ maxDistance

/-- How far back a token reaches. -/
def reach : Token → Nat
  | .literal _ => 0
  | .copy _ distance => distance

/-- Tokens that a stream can hold behind some output, and of which none reaches back before the start. -/
def Sound : Array UInt8 → List Token → Prop
  | _, [] => True
  | out, t :: tokens => t.Valid ∧ t.reach ≤ out.size ∧ Sound (emit out t) tokens

theorem Sound.snoc {tokens : List Token} {t : Token} (h : Sound out tokens) (hvalid : t.Valid)
    (hreach : t.reach ≤ (tokens.foldl emit out).size) : Sound out (tokens ++ [t]) := by
  induction tokens generalizing out with
  | nil => exact ⟨hvalid, hreach, trivial⟩
  | cons u tokens ih => exact ⟨h.1, h.2.1, ih h.2.2 hreach⟩

theorem Sound.valid {tokens : List Token} (h : Sound out tokens) : ∀ t ∈ tokens, t.Valid := by
  induction tokens generalizing out with
  | nil => exact List.forall_mem_nil _
  | cons u tokens ih => exact List.forall_mem_cons.mpr ⟨h.1, ih h.2.2⟩

/-! ## Matches -/

/-- All bytes of a match are compared. -/
theorem matchFrom_spec (x : Array UInt8) (i j most k : Nat) :
    k ≤ matchFrom x i j most k ∧ matchFrom x i j most k ≤ k + most ∧
      ∀ m, k ≤ m → m < matchFrom x i j most k → x.getD (i + m) 0 = x.getD (j + m) 0 := by
  induction most generalizing k with
  | zero => exact ⟨Nat.le_refl k, Nat.le_refl k, fun m hk hm => absurd hm (Nat.not_lt.mpr hk)⟩
  | succ most ih =>
    rw [matchFrom]
    split
    · next heq =>
      obtain ⟨hle, hmost, hall⟩ := ih (k + 1)
      refine ⟨by omega, by omega, fun m hk hm => ?_⟩
      rcases Nat.eq_or_lt_of_le hk with rfl | hlt
      · exact heq
      · exact hall m hlt hm
    · exact ⟨Nat.le_refl k, by omega, fun m hk hm => absurd hm (Nat.not_lt.mpr hk)⟩

/-- A match is no longer than a copy can be, nor than there are bytes. -/
theorem matchLength_spec (x : Array UInt8) (i j : Nat) :
    matchLength x i j ≤ maxLength ∧ matchLength x i j ≤ x.size - i ∧
      ∀ m < matchLength x i j, x.getD (i + m) 0 = x.getD (j + m) 0 := by
  obtain ⟨-, hmost, hall⟩ := matchFrom_spec x i j (min maxLength (x.size - i)) 0
  unfold matchLength
  exact ⟨by omega, by omega, fun m hm => hall m (Nat.zero_le m) hm⟩

/-! ## Output -/

theorem size_copyBack (distance length : Nat) (out : Array UInt8) :
    (copyBack distance length out).size = out.size + length := by
  induction length generalizing out with
  | zero => rfl
  | succ length ih =>
    rw [copyBack, ih, Array.size_push]
    omega

theorem size_emit (out : Array UInt8) (t : Token) : (emit out t).size = out.size + t.width := by
  cases t with
  | literal b => exact Array.size_push _
  | copy length distance => exact size_copyBack distance length out

/-- The output is the beginning of a byte string. -/
structure Begins (out x : Array UInt8) : Prop where
  size_le : out.size ≤ x.size
  same : ∀ i < out.size, out.getD i 0 = x.getD i 0

theorem begins_empty (x : Array UInt8) : Begins #[] x := ⟨Nat.zero_le _, fun i hi => absurd hi (Nat.not_lt_zero i)⟩

theorem Begins.eq (h : Begins out x) (hsize : x.size ≤ out.size) : out = x := by
  refine Array.ext (Nat.le_antisymm h.size_le hsize) fun i hi hi' => ?_
  simpa [hi, hi'] using h.same i hi

/-- The output with the next byte. -/
theorem Begins.push (h : Begins out x) (hsize : out.size < x.size) : Begins (out.push (x.getD out.size 0)) x := by
  refine ⟨by rw [Array.size_push]; omega, fun i hi => ?_⟩
  rw [Array.size_push] at hi
  rcases Nat.lt_succ_iff_lt_or_eq.mp hi with hlt | rfl
  · rw [← h.same i hlt]
    simp [Array.getElem?_push, Nat.ne_of_lt hlt]
  · simp

/-- A copy of bytes that were compared carries the output on. -/
theorem Begins.copyBack (h : Begins out x) (hj : j < out.size) (hlength : out.size + length ≤ x.size)
    (heq : ∀ m < length, x.getD (out.size + m) 0 = x.getD (j + m) 0) :
    Begins (copyBack (out.size - j) length out) x := by
  induction length generalizing out j with
  | zero => exact h
  | succ length ih =>
    have hbyte : lookBack out (out.size - j) = x.getD out.size 0 := by
      rw [lookBack, if_pos (Nat.sub_le _ _), Nat.sub_sub_self (Nat.le_of_lt hj), h.same j hj]
      exact (heq 0 (Nat.succ_pos length)).symm
    have hrest := ih (j := j + 1) (h.push (by omega)) (by rw [Array.size_push]; omega)
      (by rw [Array.size_push]; omega) fun m hm => by
        have := heq (m + 1) (Nat.succ_lt_succ hm)
        rwa [Array.size_push, Nat.add_assoc, Nat.add_comm 1 m, Nat.add_assoc, Nat.add_comm 1 m]
    rw [Token.copyBack, hbyte]
    rwa [Array.size_push, Nat.add_sub_add_right] at hrest

/-! ## Search -/

/-- What one token of the search does to the output so far. -/
structure Carries (x out : Array UInt8) (t : Token) : Prop where
  valid : t.Valid
  reach_le : t.reach ≤ out.size
  width_pos : 0 < t.width
  begins : Begins (emit out t) x

theorem carries_literal (h : Begins out x) (hsize : out.size < x.size) :
    Carries x out (.literal (x.getD out.size 0)) := ⟨trivial, Nat.zero_le _, Nat.one_pos, h.push hsize⟩

theorem tokenAt_some (x : Array UInt8) (i j : Nat) :
    tokenAt x i (some j) =
      if j < i ∧ i - j ≤ maxDistance ∧ minLength ≤ matchLength x i j then .copy (matchLength x i j) (i - j)
      else .literal (x.getD i 0) := rfl

/-- A token found at the end of the output carries it on, wherever it was looked for. -/
theorem carries_tokenAt (h : Begins out x) (hsize : out.size < x.size) (j : Option Nat) :
    Carries x out (tokenAt x out.size j) := by
  cases j with
  | none => exact carries_literal h hsize
  | some j =>
    rw [tokenAt_some]
    by_cases hcopy : j < out.size ∧ out.size - j ≤ maxDistance ∧ minLength ≤ matchLength x out.size j
    · rw [if_pos hcopy]
      obtain ⟨hj, hdistance, hmin⟩ := hcopy
      obtain ⟨hmax, hroom, hsame⟩ := matchLength_spec x out.size j
      refine ⟨⟨hmin, hmax, by omega, hdistance⟩, Nat.sub_le _ _, ?_, h.copyBack hj (by omega) hsame⟩
      exact Nat.lt_of_lt_of_le (by decide) hmin
    · rw [if_neg hcopy]
      exact carries_literal h hsize

theorem expand_snoc (tokens : List Token) (t : Token) : expand (tokens ++ [t]) = emit (expand tokens) t := by
  simp [expand, List.foldl_append]

/-- The search goes on from the end of the output to the end of the byte string. -/
theorem search_spec {fuel : Nat} {seen : Std.HashMap Nat Nat} {done : List Token} (hfuel : x.size ≤ i + fuel)
    (hi : (expand done.reverse).size = i) (h : Begins (expand done.reverse) x) (hdone : Sound #[] done.reverse) :
    expand (search x fuel i seen done) = x ∧ Sound #[] (search x fuel i seen done) := by
  induction fuel generalizing i seen done with
  | zero => exact ⟨h.eq (by omega), by simpa [search] using hdone⟩
  | succ fuel ih =>
    rw [search]
    split
    · next hlt =>
      obtain ⟨hvalid, hreach, hwidth, hbegins⟩ := hi ▸ carries_tokenAt h (hi ▸ hlt) seen[trigram x i]?
      have hnext : expand (tokenAt x i seen[trigram x i]? :: done).reverse =
          emit (expand done.reverse) (tokenAt x i seen[trigram x i]?) := by
        rw [List.reverse_cons, expand_snoc]
      refine ih (by omega) ?_ (hnext ▸ hbegins) ?_
      · rw [hnext, size_emit, hi]
      · rw [List.reverse_cons]
        exact hdone.snoc hvalid hreach
    · exact ⟨h.eq (by omega), by simpa using hdone⟩

theorem ofBytes_spec (bs : Bytes) : expand (ofBytes bs) = bs.toArray ∧ Sound #[] (ofBytes bs) :=
  have hsize : (expand ([] : List Token).reverse).size = 0 := rfl
  search_spec (Nat.le_of_eq (Nat.zero_add _).symm) hsize (begins_empty _) trivial

/-- The tokens of a byte string write it out. -/
theorem expand_ofBytes (bs : Bytes) : expand (ofBytes bs) = bs.toArray := (ofBytes_spec bs).1

/-- The tokens of a byte string are ones that a stream can hold, and none reaches back before the start. -/
theorem sound_ofBytes (bs : Bytes) : Sound #[] (ofBytes bs) := (ofBytes_spec bs).2

/-- The tokens of a byte string are ones that a stream can hold. -/
theorem valid_of_mem_ofBytes {bs : Bytes} {t : Token} (h : t ∈ ofBytes bs) : t.Valid := (sound_ofBytes bs).valid t h

end Rpc.Deflate.Token
