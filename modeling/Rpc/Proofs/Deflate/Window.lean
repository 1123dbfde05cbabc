import Rpc.Proofs.Deflate.Sound

/-!
# Copies that reach back before the start

A copy finds zeros before the start of the output. So an output reads as the part behind a window of zeros, and a stream
decompresses as it would behind this window, where no copy reaches back before the start.

- `readBlocks_behind`: what comes of a stream behind the window is what comes of it without (`Inflated.behind`);
- `inflate_of_unfolds`, `of_inflate_done`: all that comes out is the content of the stream, and it comes out if it is
  within the cap;
- `of_inflate_full`, `of_inflate_starved`: otherwise it is the beginning of what the stream stands for.
-/

namespace Rpc.Deflate

open BitStream

variable {cap fuel : Nat} {out after : Array UInt8} {bits : List Bool} {s : BitStream}

/-! ## Tokens -/

theorem size_blank : blank.size = Token.maxDistance := Array.size_replicate

theorem size_blank_append (out : Array UInt8) : (blank ++ out).size = Token.maxDistance + out.size := by
  rw [Array.size_append, size_blank]

/-- The window has what there is before the start. -/
theorem lookBack_blank_append (out : Array UInt8) (distance : Nat) :
    Token.lookBack (blank ++ out) distance = Token.lookBack out distance := by
  simp only [Token.lookBack, size_blank_append]
  by_cases hnear : distance ≤ out.size
  · have hindex : Token.maxDistance + out.size - distance = blank.size + (out.size - distance) := by
      rw [size_blank]
      omega
    rw [if_pos hnear, if_pos (Nat.le_add_left_of_le hnear), hindex, Array.getD_eq_getD_getElem?,
      Array.getElem?_append_right (Nat.le_add_right _ _), Nat.add_sub_cancel_left, ← Array.getD_eq_getD_getElem?]
  · rw [if_neg hnear]
    split
    · next hfar =>
      have hindex : Token.maxDistance + out.size - distance < blank.size := by
        rw [size_blank]
        omega
      rw [Array.getD_eq_getD_getElem?, Array.getElem?_append_left hindex, blank, Array.getElem?_replicate]
      split
      · rfl
      · rfl
    · rfl

theorem copyBack_blank_append (distance length : Nat) (out : Array UInt8) :
    Token.copyBack distance length (blank ++ out) = blank ++ Token.copyBack distance length out := by
  induction length generalizing out with
  | zero => rfl
  | succ length ih => rw [Token.copyBack, Token.copyBack, lookBack_blank_append, Array.push_append, ih]

theorem emit_blank_append (out : Array UInt8) (t : Token) : t.emit (blank ++ out) = blank ++ t.emit out := by
  cases t with
  | literal b => exact Array.push_append
  | copy length distance => exact copyBack_blank_append distance length out

/-- The end of a block, with its output behind the window. -/
def BlockEnd.behind : BlockEnd → BlockEnd
  | .next out s => .next (blank ++ out) s
  | .full => .full
  | .starved out => .starved (blank ++ out)
  | .fault => .fault

theorem readTokens_behind (literals distances : Huffman) :
    readTokens literals distances (Token.maxDistance + cap) fuel (blank ++ out) s =
      (readTokens literals distances cap fuel out s).behind := by
  induction fuel generalizing out s with
  | zero => rfl
  | succ fuel ih =>
    rw [readTokens, readTokens]
    split
    · rfl
    · rfl
    split
    · rfl
    split
    · rfl
    · rfl
    simp only [size_blank_append, Nat.add_assoc, Nat.add_le_add_iff_left, emit_blank_append]
    split
    · exact ih
    · rfl

/-! ## Blocks -/

theorem appendList_blank_append (out : Array UInt8) (bytes : Bytes) : blank ++ out ++ bytes = blank ++ (out ++ bytes) :=
  Array.ext' (by simp only [Array.toList_append, Array.toList_appendList, List.append_assoc])

theorem readStored_behind : readStored (Token.maxDistance + cap) (blank ++ out) s = (readStored cap out s).behind := by
  unfold readStored
  split
  · dsimp only
    split
    · simp only [size_blank_append, Nat.add_assoc, Nat.add_lt_add_iff_left, appendList_blank_append]
      split
      · rfl
      split
      · rfl
      · rfl
    · rfl
  · rfl

theorem readBlock_behind (kind : Nat) :
    readBlock (Token.maxDistance + cap) kind (blank ++ out) s = (readBlock cap kind out s).behind := by
  unfold readBlock
  split
  · exact readStored_behind
  split
  · exact readTokens_behind _ _
  split
  · split
    · rfl
    · rfl
    · exact readTokens_behind _ _
  · rfl

/-! ## Streams -/

/-- The end of a stream, with its output behind the window. -/
def Inflated.behind : Inflated → Inflated
  | .done out rest => .done (blank ++ out) rest
  | .full => .full
  | .starved out => .starved (blank ++ out)
  | .fault => .fault

/-- **A stream decompresses behind the window as it does without.** -/
theorem readBlocks_behind :
    readBlocks (Token.maxDistance + cap) fuel (blank ++ out) s = (readBlocks cap fuel out s).behind := by
  induction fuel generalizing out s with
  | zero => rfl
  | succ fuel ih =>
    rw [readBlocks, readBlocks]
    split
    · rfl
    next final kind s' _ =>
    rw [readBlock_behind]
    cases readBlock cap kind out s' with
    | full => rfl
    | starved after => rfl
    | fault => rfl
    | next after s'' =>
      dsimp only [BlockEnd.behind]
      split
      · rfl
      · exact ih

/-! ## Output -/

theorem keeps_push (out : Array UInt8) (b : UInt8) : out.toList <+: (out.push b).toList := by
  rw [Array.toList_push]
  exact List.prefix_append _ _

theorem keeps_copyBack (distance length : Nat) (out : Array UInt8) :
    out.toList <+: (Token.copyBack distance length out).toList := by
  induction length generalizing out with
  | zero => exact List.prefix_rfl
  | succ length ih => exact (keeps_push out _).trans (ih _)

theorem OneToken.keeps {literals distances : List Nat} (h : OneToken literals distances out bits after) :
    out.toList <+: after.toList := by
  cases h with
  | literal _ => exact keeps_push out _
  | copy _ _ _ _ _ => exact keeps_copyBack _ _ out

theorem TokensSoFar.keeps {literals distances : List Nat} (h : TokensSoFar literals distances out bits after) :
    out.toList <+: after.toList := by
  induction h with
  | none => exact List.prefix_rfl
  | next hone _ ih => exact hone.keeps.trans ih

theorem BlockSoFar.keeps {kind : Nat} (h : BlockSoFar kind out bits after) : out.toList <+: after.toList := by
  cases h with
  | none => exact List.prefix_rfl
  | stored _ _ =>
    rw [Array.toList_appendList]
    exact List.prefix_append _ _
  | fixed htokens => exact htokens.keeps
  | dynamic _ htokens => exact htokens.keeps

/-- What is written stays. -/
theorem BlocksSoFar.keeps (h : BlocksSoFar out bits after) : out.toList <+: after.toList := by
  induction h with
  | none => exact List.prefix_rfl
  | within hblock => exact hblock.keeps
  | next hblock _ ih =>
    obtain ⟨_, _, hsoFar, -⟩ := hblock.soFar
    exact hsoFar.keeps.trans ih

/-! ## Content -/

theorem Inflated.behind_injective : Function.Injective Inflated.behind := by
  intro e e' h
  cases e <;> cases e' <;> simp_all [Inflated.behind, Array.append_right_inj]

theorem blank_append_toList (out : Array UInt8) : blank ++ out.toList = blank ++ out :=
  Array.ext' (by simp only [Array.toList_append, Array.toList_appendList])

/-- What comes of a stream, behind the window. -/
theorem inflate_behind (cap : Nat) (bs : Bytes) :
    (inflate cap bs).behind =
      readBlocks (Token.maxDistance + cap) ((ofBytes bs).bound + 1) blank (ofBytes bs) := by
  rw [inflate, ← readBlocks_behind, Array.append_empty]

/-- **The content of a stream comes out,** unless it is longer than the cap. -/
theorem inflate_of_unfolds {compressed content : Bytes} (h : Unfolds compressed content) (cap : Nat) (tail : Bytes) :
    inflate cap (compressed ++ tail) = if content.length ≤ cap then .done content.toArray tail else .full := by
  have hs := shows_ofBytes (compressed ++ tail)
  have hbound : (compressed.flatMap bitsOf).length ≤ (ofBytes (compressed ++ tail)).bound + 1 := by
    rw [hs.bound_eq, List.flatMap_append, List.length_append]
    omega
  rw [List.flatMap_append] at hs
  have hroom : blank.size ≤ Token.maxDistance + cap := Nat.le_add_right_of_le (Nat.le_of_eq size_blank)
  refine Inflated.behind_injective ?_
  rw [inflate_behind, readBlocks_of h hbound hroom tail hs]
  simp only [size_appendList, size_blank, Nat.add_le_add_iff_left]
  split
  · rw [Inflated.behind, ← blank_append_toList]
  · rfl

theorem inflate_agrees (cap : Nat) (bs : Bytes) :
    (inflate cap bs).behind.Agrees (Token.maxDistance + cap) blank (bs.flatMap bitsOf) := by
  rw [inflate_behind]
  exact readBlocks_sound (Nat.le_of_eq size_blank.symm) (shows_ofBytes bs)

/-- **What comes out is the content of a stream.** -/
theorem of_inflate_done {bs tail : Bytes} (h : inflate cap bs = .done out tail) :
    ∃ compressed, Unfolds compressed out.toList ∧ bs = compressed ++ tail := by
  have hagrees := inflate_agrees cap bs
  rw [h] at hagrees
  obtain ⟨used, hblocks, hbits⟩ := hagrees
  have hlength := congrArg List.length hbits
  rw [List.length_append, length_flatMap_bitsOf, length_flatMap_bitsOf] at hlength
  obtain ⟨compressed, rfl⟩ := exists_flatMap_bitsOf (show used.length % 8 = 0 by omega)
  rw [← List.flatMap_append] at hbits
  refine ⟨compressed, ?_, flatMap_bitsOf_injective hbits⟩
  rwa [Unfolds, blank_append_toList]

/-- What there is when the input ends is what the stream stands for so far. -/
theorem of_inflate_starved {bs : Bytes} (h : inflate cap bs = .starved out) : UnfoldsSoFar bs out.toList := by
  have hagrees := inflate_agrees cap bs
  rw [h] at hagrees
  rwa [UnfoldsSoFar, blank_append_toList]

/-- A stream that goes beyond the cap stands for more than that. -/
theorem of_inflate_full {bs : Bytes} (h : inflate cap bs = .full) :
    ∃ content, UnfoldsSoFar bs content ∧ cap < content.length := by
  have hagrees := inflate_agrees cap bs
  rw [h] at hagrees
  obtain ⟨after, hsoFar, hcap⟩ := hagrees
  obtain ⟨content, hcontent⟩ := hsoFar.keeps
  obtain rfl : blank ++ content = after := Array.ext' (by rw [Array.toList_appendList, hcontent])
  rw [size_appendList, size_blank] at hcap
  exact ⟨content, hsoFar, Nat.lt_of_add_lt_add_left hcap⟩

/-- A stream whose copies find all there is has the same content behind the window. -/
theorem Encodes.unfolds {compressed content : Bytes} (h : Encodes compressed content) : Unfolds compressed content := by
  have hdone := inflate_of_encodes h content.length []
  rw [if_pos (Nat.le_refl _)] at hdone
  obtain ⟨same, hunfolds, heq⟩ := of_inflate_done hdone
  rwa [List.append_cancel_right heq]

/-- The content of a stream is what it stands for so far, whatever follows. -/
theorem Unfolds.soFar {compressed content : Bytes} (h : Unfolds compressed content) (tail : Bytes) :
    UnfoldsSoFar (compressed ++ tail) content := by
  rw [UnfoldsSoFar, List.flatMap_append]
  exact Blocks.soFar h tail

end Rpc.Deflate
