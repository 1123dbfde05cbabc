import Rpc.Proofs.Deflate.Huffman
import Rpc.Proofs.Deflate.Tokens

/-!
# Compressed streams are read

Whatever its blocks, codes and copies are, a compressed stream comes out as the byte string that it is a form of.

- `readTokens_of`: the tokens of a block; `readCodes_of`: the codes in front of a block; `readBlock_of`: a block of any
  kind, all of them up to the cap on the output (`BlockEnd.Reaches`);
- `inflate_of_encodes`: all blocks.
-/

namespace Rpc.Deflate

open BitStream

variable {cap fuel : Nat} {out after : Array UInt8} {bits : List Bool} {s : BitStream}

/-- A block carries the output on and leaves some bits, unless the output goes beyond the cap. -/
def BlockEnd.Reaches (e : BlockEnd) (cap : Nat) (after : Array UInt8) (bits : List Bool) : Prop :=
  after.size ≤ cap ∧ (∃ s, e = .next after s ∧ s.Shows bits) ∨ cap < after.size ∧ e = .full

/-! ## Tokens -/

theorem readExtra_of {bases : List (Nat × Nat)} {i n : Nat} {extraBits : List Bool} (h : ExtraBits bases i n extraBits)
    (hs : s.Shows (extraBits ++ bits)) : ∃ s', readExtra bases i s = .value n s' ∧ s'.Shows bits := by
  obtain ⟨hget, hbase, hn⟩ := h
  obtain ⟨s', hbits, hs'⟩ := hs.bits?
  refine ⟨s', ?_, hs'⟩
  simp only [readExtra, hget, hbits, Nat.mod_eq_of_lt hn, Nat.add_sub_cancel' hbase]

/-- Tokens only add to the output. -/
theorem Tokens.size_le {literals distances : List Nat} (h : Tokens literals distances out bits after) :
    out.size ≤ after.size := by
  induction h with
  | stop _ => exact Nat.le_refl _
  | literal _ _ ih =>
    rw [Array.size_push] at ih
    exact Nat.le_of_succ_le ih
  | copy _ _ _ _ _ _ ih =>
    rw [Token.size_copyBack] at ih
    exact Nat.le_of_add_right_le ih

/-- One token of a block. -/
theorem readTokens_step {literals distances : Huffman} {symbol : Nat} {t : Token} {s₁ s₂ : BitStream}
    (hsymbol : literals.decode s = .value symbol s₁) (hnot : symbol ≠ endOfBlock)
    (htoken : readToken distances symbol s₁ = .value t s₂) (hle : (t.emit out).size ≤ after.size)
    (hrest : (t.emit out).size ≤ cap → (readTokens literals distances cap fuel (t.emit out) s₂).Reaches cap after bits) :
    (readTokens literals distances cap (fuel + 1) out s).Reaches cap after bits := by
  simp only [readTokens, hsymbol, hnot, if_false, htoken, ← Token.size_emit]
  by_cases hcap : (t.emit out).size ≤ cap
  · rw [if_pos hcap]
    exact hrest hcap
  · rw [if_neg hcap]
    exact .inr ⟨Nat.lt_of_lt_of_le (Nat.lt_of_not_le hcap) hle, rfl⟩

/-- **The tokens of a block are read up to its end,** unless they go beyond the cap. -/
theorem readTokens_of {literals distances : List Nat} {tokenBits : List Bool}
    (hl : Huffman.weight literals ≤ 2 ^ maxCodeLength) (hd : Huffman.weight distances ≤ 2 ^ maxCodeLength)
    (h : Tokens literals distances out tokenBits after) (hfuel : tokenBits.length ≤ fuel) (hout : out.size ≤ cap)
    (hs : s.Shows (tokenBits ++ bits)) :
    (readTokens (.ofLengths literals) (.ofLengths distances) cap fuel out s).Reaches cap after bits := by
  -- Every word has a bit at least, so the bits of a token are enough to pay for it.
  induction h generalizing fuel s with
  | stop hword =>
    obtain ⟨fuel, rfl⟩ := Nat.exists_eq_succ_of_ne_zero (Nat.ne_of_gt (Nat.lt_of_lt_of_le hword.length_pos hfuel))
    obtain ⟨s', hdecode, hs'⟩ := Huffman.decode_codeword hl hword hs
    exact .inl ⟨hout, s', by simp only [readTokens, hdecode, if_true], hs'⟩
  | @literal out after b rest hword hrest ih =>
    have hpos := hword.length_pos
    rw [List.length_append] at hfuel
    obtain ⟨fuel, rfl⟩ := Nat.exists_eq_succ_of_ne_zero (show fuel ≠ 0 by omega)
    rw [List.append_assoc] at hs
    obtain ⟨s₁, hsymbol, hs₁⟩ := Huffman.decode_codeword hl hword hs
    have hb : b.toNat < endOfBlock := b.toNat_lt
    have htoken : readToken (.ofLengths distances) b.toNat s₁ = .value (.literal b) s₁ := by simp [readToken, hb]
    exact readTokens_step hsymbol (Nat.ne_of_lt hb) htoken hrest.size_le fun hcap => ih (by omega) hcap hs₁
  | @copy out after i length d distance lengthBits distanceBits rest hword hlength hdword hdistance _ hrest ih =>
    have hpos := hword.length_pos
    simp only [List.length_append] at hfuel
    obtain ⟨fuel, rfl⟩ := Nat.exists_eq_succ_of_ne_zero (show fuel ≠ 0 by omega)
    simp only [List.append_assoc] at hs
    obtain ⟨s₁, hsymbol, hs₁⟩ := Huffman.decode_codeword hl hword hs
    obtain ⟨s₂, hlen, hs₂⟩ := readExtra_of hlength hs₁
    obtain ⟨s₃, hdsymbol, hs₃⟩ := Huffman.decode_codeword hd hdword hs₂
    obtain ⟨s₄, hdist, hs₄⟩ := readExtra_of hdistance hs₃
    have hnot : ¬ 257 + i < endOfBlock := by
      unfold endOfBlock
      omega
    have htoken : readToken (.ofLengths distances) (257 + i) s₁ = .value (.copy length distance) s₄ := by
      simp only [readToken, hnot, if_false, Nat.add_sub_cancel_left, hlen, readDistance, hdsymbol, hdist]
    have hend : 257 + i ≠ endOfBlock := by
      unfold endOfBlock
      omega
    exact readTokens_step hsymbol hend htoken hrest.size_le fun hcap => ih (by omega) hcap hs₄

/-! ## Codes -/

variable {code : List Nat} {sent all : List Nat} {lengthBits : List Bool}

/-- Word lengths only add to those before. -/
theorem CodeLengths.length_le (h : CodeLengths code sent lengthBits all) : sent.length ≤ all.length := by
  induction h with
  | stop => exact Nat.le_refl _
  | one _ _ _ ih | again _ _ _ _ ih | zeros _ _ _ ih | manyZeros _ _ _ ih =>
    rw [List.length_append] at ih
    exact Nat.le_of_add_right_le ih

/-- One symbol of the word lengths, with what it stands for. -/
theorem readLengths_run {symbol l times : Nat} {runBits rest : List Bool}
    (hcode : Huffman.weight code ≤ 2 ^ maxCodeLength) (hword : Huffman.HasWord code symbol) (htimes : 0 < times)
    (hrun : ∀ s : BitStream, s.Shows (runBits ++ rest) →
      ∃ s', readRun symbol sent.getLast? s = .value (l, times) s' ∧ s'.Shows rest)
    (hle : (sent ++ List.replicate times l).length ≤ all.length)
    (hrest : ∀ {fuel s}, all.length < (sent ++ List.replicate times l).length + fuel → s.Shows rest →
      ∃ s', readLengths (.ofLengths code) all.length fuel (sent ++ List.replicate times l).reverse s = .value all s' ∧
        s'.Shows bits)
    (hfuel : all.length < sent.length + fuel) (hs : s.Shows (Huffman.codeword code symbol ++ (runBits ++ rest))) :
    ∃ s', readLengths (.ofLengths code) all.length fuel sent.reverse s = .value all s' ∧ s'.Shows bits := by
  rw [List.length_append, List.length_replicate] at hle hrest
  obtain ⟨fuel, rfl⟩ := Nat.exists_eq_succ_of_ne_zero (show fuel ≠ 0 by omega)
  obtain ⟨s₁, hsymbol, hs₁⟩ := Huffman.decode_codeword hcode hword hs
  obtain ⟨s₂, hread, hs₂⟩ := hrun s₁ hs₁
  have hrestFuel : all.length < sent.length + times + fuel := by omega
  obtain ⟨s₃, hall, hs₃⟩ := hrest hrestFuel hs₂
  refine ⟨s₃, ?_, hs₃⟩
  rw [← hall, List.reverse_append, List.reverse_replicate]
  simp only [readLengths, List.length_reverse, if_neg (show ¬ sent.length = all.length by omega),
    if_neg (show ¬ all.length < sent.length by omega), hsymbol, List.head?_reverse, hread]

/-- **Word lengths are read** until there are all of them. -/
theorem readLengths_of (hcode : Huffman.weight code ≤ 2 ^ maxCodeLength) (h : CodeLengths code sent lengthBits all)
    (hfuel : all.length < sent.length + fuel) (hs : s.Shows (lengthBits ++ bits)) :
    ∃ s', readLengths (.ofLengths code) all.length fuel sent.reverse s = .value all s' ∧ s'.Shows bits := by
  induction h generalizing fuel s with
  | @stop all =>
    obtain ⟨fuel, rfl⟩ := Nat.exists_eq_succ_of_ne_zero (show fuel ≠ 0 by omega)
    exact ⟨s, by simp [readLengths], hs⟩
  | @one sent all l rest hl hword hrest ih =>
    rw [List.append_assoc] at hs
    have hrun : ∀ s : BitStream, s.Shows ([] ++ (rest ++ bits)) →
        ∃ s', readRun l sent.getLast? s = .value (l, 1) s' ∧ s'.Shows (rest ++ bits) :=
      fun s' hs' => ⟨s', by simp only [readRun, if_pos hl], hs'⟩
    exact readLengths_run hcode hword Nat.one_pos hrun hrest.length_le ih hfuel hs
  | @again sent all l n rest hlast hn hword hrest ih =>
    rw [List.append_assoc, List.append_assoc] at hs
    refine readLengths_run hcode hword (by omega) (fun s' hs' => ?_) hrest.length_le ih hfuel hs
    obtain ⟨s'', hbits, hs''⟩ := hs'.bits?
    exact ⟨s'', by simp [readRun, hlast, hbits, Nat.mod_eq_of_lt hn], hs''⟩
  | @zeros sent all n rest hn hword hrest ih =>
    rw [List.append_assoc, List.append_assoc] at hs
    refine readLengths_run hcode hword (by omega) (fun s' hs' => ?_) hrest.length_le ih hfuel hs
    obtain ⟨s'', hbits, hs''⟩ := hs'.bits?
    exact ⟨s'', by simp [readRun, hbits, Nat.mod_eq_of_lt hn], hs''⟩
  | @manyZeros sent all n rest hn hword hrest ih =>
    rw [List.append_assoc, List.append_assoc] at hs
    refine readLengths_run hcode hword (by omega) (fun s' hs' => ?_) hrest.length_le ih hfuel hs
    obtain ⟨s'', hbits, hs''⟩ := hs'.bits?
    exact ⟨s'', by simp [readRun, hbits, Nat.mod_eq_of_lt hn], hs''⟩

theorem readThrees_of (h : ∀ n ∈ sent, n < 8) (hs : s.Shows (sent.flatMap (lowBits 3) ++ bits)) :
    ∃ s', readThrees sent.length s = some (sent, s') ∧ s'.Shows bits := by
  induction sent generalizing s with
  | nil => exact ⟨s, rfl, hs⟩
  | cons n sent ih =>
    obtain ⟨hn, hrest⟩ := List.forall_mem_cons.mp h
    rw [List.flatMap_cons, List.append_assoc] at hs
    obtain ⟨s₁, hfirst, hs₁⟩ := hs.bits?
    obtain ⟨s₂, hmore, hs₂⟩ := ih hrest hs₁
    refine ⟨s₂, ?_, hs₂⟩
    simp [readThrees, hfirst, hmore, Nat.mod_eq_of_lt (show n < 2 ^ 3 from hn)]

/-- **The codes in front of a block are read.** -/
theorem readCodes_of {literals distances : List Nat} {front : List Bool} (h : Codes front literals distances)
    (hs : s.Shows (front ++ bits)) : ∃ s', readCodes s = .value (literals, distances) s' ∧ s'.Shows bits := by
  obtain @⟨sent, literals, distances, lengthBits, hl, hlmax, hd, hdmax, hsent, hsentmax, hthree, hcomplete, hlengths,
    hlusable, hdusable⟩ := h
  simp only [List.append_assoc] at hs
  obtain ⟨s₁, h₁, hs₁⟩ := hs.bits?
  obtain ⟨s₂, h₂, hs₂⟩ := hs₁.bits?
  obtain ⟨s₃, h₃, hs₃⟩ := hs₂.bits?
  obtain ⟨s₄, h₄, hs₄⟩ := readThrees_of hthree hs₃
  have hweight : Huffman.weight (arrange sent) ≤ 2 ^ maxCodeLength := Nat.le_of_eq (of_decide_eq_true hcomplete)
  have hfuel : (literals ++ distances).length < ([] : List Nat).length + (literals.length + distances.length + 1) := by
    simp
  obtain ⟨s₅, h₅, hs₅⟩ := readLengths_of hweight hlengths hfuel hs₄
  refine ⟨s₅, ?_, hs₅⟩
  have hl' : (literals.length - 257) % 2 ^ 5 + 257 = literals.length := by omega
  have hd' : (distances.length - 1) % 2 ^ 5 + 1 = distances.length := by omega
  have hsent' : (sent.length - 4) % 2 ^ 4 + 4 = sent.length := by omega
  rw [List.length_append, List.reverse_nil] at h₅
  simp only [readCodes, h₁, h₂, h₃, Option.bind_eq_bind, Option.bind_some, hl', hd', hsent',
    decide_eq_false (Nat.not_lt.mpr hlmax), decide_eq_false (Nat.not_lt.mpr hdmax), Bool.or_self, Bool.false_eq_true,
    if_false, h₄, hcomplete, Bool.not_true, h₅, List.take_left, List.drop_left, hlusable, hdusable, Bool.and_self,
    if_true]

/-- Both codes take no more than there is. -/
theorem Codes.weight_le {literals distances : List Nat} {front : List Bool} (h : Codes front literals distances) :
    Huffman.weight literals ≤ 2 ^ maxCodeLength ∧ Huffman.weight distances ≤ 2 ^ maxCodeLength := by
  cases h with
  | intro _ _ _ _ _ _ _ _ _ hl hd => exact ⟨Huffman.weight_le_of_isUsable hl, Huffman.weight_le_of_isUsable hd⟩

/-! ## Blocks -/

variable {kind : Nat} {blockBits rest : List Bool}

theorem size_appendList (out : Array UInt8) (bytes : Bytes) : (out ++ bytes).size = out.size + bytes.length := by
  rw [← Array.length_toList, Array.toList_appendList, List.length_append, Array.length_toList]

/-- **A stored block is read** as it is, from the next whole byte on. -/
theorem readStored_of {pad : List Bool} {bytes : Bytes} (hpad : pad.length < 8) (hrest : rest.length % 8 = 0)
    (hmax : bytes.length ≤ 0xffff) (tail : Bytes)
    (hs : s.Shows (pad ++ ((Bytes.littleEndian 2 bytes.length ++ (Bytes.littleEndian 2 (0xffff - bytes.length) ++
      bytes)).flatMap bitsOf ++ (rest ++ tail.flatMap bitsOf)))) :
    (readStored cap out s).Reaches cap (out ++ bytes) (rest ++ tail.flatMap bitsOf) := by
  -- What follows the block fills whole bytes, so all that is behind the padding are bytes.
  obtain ⟨restBytes, rfl⟩ := exists_flatMap_bitsOf hrest
  rw [← List.flatMap_append, ← List.flatMap_append] at hs
  have halign := hs.align hpad
  have hlength : Bytes.toNat (Bytes.bigEndian 2 bytes.length) = bytes.length := by
    rw [Bytes.toNat_bigEndian, Nat.mod_eq_of_lt (by omega)]
  have hcheck : Bytes.toNat (Bytes.bigEndian 2 (0xffff - bytes.length)) = 0xffff - bytes.length := by
    rw [Bytes.toNat_bigEndian, Nat.mod_eq_of_lt (by omega)]
  have hsum : 0xffff - bytes.length + bytes.length = 0xffff := Nat.sub_add_cancel hmax
  simp only [Bytes.bigEndian] at hlength hcheck
  simp only [Bytes.littleEndian, Bytes.bigEndian, List.reverse_cons, List.reverse_nil, List.nil_append,
    List.cons_append] at halign
  simp only [readStored, halign, hlength, hcheck, hsum, if_true, List.take_left, List.drop_left, Nat.lt_irrefl, if_false]
  rw [← size_appendList]
  split
  · next hfull => exact .inr ⟨hfull, rfl⟩
  · next hroom =>
    refine .inl ⟨Nat.le_of_not_lt hroom, _, rfl, ?_⟩
    simpa only [List.flatMap_append] using shows_ofBytes (restBytes ++ tail)

/-- Blocks only add to the output. -/
theorem Block.size_le (h : Block rest kind out blockBits after) : out.size ≤ after.size := by
  cases h with
  | stored _ _ _ =>
    rw [size_appendList]
    exact Nat.le_add_right _ _
  | fixed htokens => exact htokens.size_le
  | dynamic _ htokens => exact htokens.size_le

theorem Blocks.size_le (h : Blocks out bits after) : out.size ≤ after.size := by
  induction h with
  | last hblock _ => exact hblock.size_le
  | next hblock _ ih => exact Nat.le_trans hblock.size_le ih

/-- Tokens are no more than their bits. -/
theorem readTokens_bound {literals distances : List Nat} {tokenBits : List Bool}
    (hl : Huffman.weight literals ≤ 2 ^ maxCodeLength) (hd : Huffman.weight distances ≤ 2 ^ maxCodeLength)
    (h : Tokens literals distances out tokenBits after) (hout : out.size ≤ cap) (hs : s.Shows (tokenBits ++ bits)) :
    (readTokens (.ofLengths literals) (.ofLengths distances) cap (s.bound + 1) out s).Reaches cap after bits := by
  have hbound : tokenBits.length ≤ s.bound + 1 := by
    rw [hs.bound_eq, List.length_append]
    omega
  exact readTokens_of hl hd h hbound hout hs

/-- **A block of any kind is read,** unless it goes beyond the cap. -/
theorem readBlock_of (h : Block rest kind out blockBits after) (hout : out.size ≤ cap) (tail : Bytes)
    (hs : s.Shows (blockBits ++ (rest ++ tail.flatMap bitsOf))) :
    (readBlock cap kind out s).Reaches cap after (rest ++ tail.flatMap bitsOf) := by
  cases h with
  | stored hpad hrest hmax =>
    rw [List.append_assoc] at hs
    exact readStored_of hpad hrest hmax tail hs
  | fixed htokens => exact readTokens_bound weight_fixedLiterals weight_fixedDistances htokens hout hs
  | dynamic hcodes htokens =>
    rw [List.append_assoc] at hs
    obtain ⟨s', hread, hs'⟩ := readCodes_of hcodes hs
    obtain ⟨hl, hd⟩ := hcodes.weight_le
    simp only [readBlock, hread, if_true, if_neg (show ¬ 2 = 0 by decide), if_neg (show ¬ 2 = 1 by decide)]
    exact readTokens_bound hl hd htokens hout hs'

/-! ## Streams -/

theorem Block.kind_lt (h : Block rest kind out blockBits after) : kind < 4 := by
  cases h <;> decide

/-- With the three bits in front of a block read, the block decides how it goes on. -/
theorem readBlocks_step {final : Bool} (hkind : kind < 4) (hs : s.Shows (final :: (lowBits 2 kind ++ bits))) :
    ∃ s', readBlocks cap (fuel + 1) out s =
        (match readBlock cap kind out s' with
        | .full => .full
        | .starved out => .starved out
        | .fault => .fault
        | .next out s => if final then .done out s.align else readBlocks cap fuel out s) ∧
      s'.Shows bits := by
  have hfirst : final :: (lowBits 2 kind ++ bits) = lowBits 1 final.toNat ++ (lowBits 2 kind ++ bits) := by
    cases final <;> rfl
  rw [hfirst] at hs
  obtain ⟨s₁, hfinal, hs₁⟩ := hs.bits?
  obtain ⟨s₂, hread, hs₂⟩ := hs₁.bits?
  refine ⟨s₂, ?_, hs₂⟩
  rw [Nat.mod_eq_of_lt (show kind < 2 ^ 2 from hkind)] at hread
  simp only [readBlocks, hfinal, hread, Option.bind_eq_bind, Option.bind_some]
  cases final <;> rfl

/-- **All blocks are read,** unless they go beyond the cap. -/
theorem readBlocks_of (h : Blocks out bits after) (hfuel : bits.length ≤ fuel) (hout : out.size ≤ cap) (tail : Bytes)
    (hs : s.Shows (bits ++ tail.flatMap bitsOf)) :
    readBlocks cap fuel out s = if after.size ≤ cap then .done after tail else .full := by
  induction h generalizing fuel s with
  | last hblock hpad =>
    obtain ⟨fuel, rfl⟩ := Nat.exists_eq_succ_of_ne_zero (Nat.ne_of_gt (Nat.lt_of_lt_of_le (Nat.succ_pos _) hfuel))
    simp only [List.cons_append, List.append_assoc] at hs
    obtain ⟨s₁, hstep, hs₁⟩ := readBlocks_step hblock.kind_lt hs
    rw [hstep]
    rcases readBlock_of hblock hout tail hs₁ with ⟨hcap, s₂, hread, hs₂⟩ | ⟨hcap, hread⟩
    · simp only [hread, if_true, hs₂.align hpad, if_pos hcap]
    · simp only [hread, if_neg (Nat.not_le.mpr hcap)]
  | next hblock hblocks ih =>
    obtain ⟨fuel, rfl⟩ := Nat.exists_eq_succ_of_ne_zero (Nat.ne_of_gt (Nat.lt_of_lt_of_le (Nat.succ_pos _) hfuel))
    simp only [List.cons_append, List.append_assoc] at hs
    simp only [List.length_cons, List.length_append] at hfuel
    obtain ⟨s₁, hstep, hs₁⟩ := readBlocks_step hblock.kind_lt hs
    rw [hstep]
    rcases readBlock_of hblock hout tail hs₁ with ⟨hcap, s₂, hread, hs₂⟩ | ⟨hcap, hread⟩
    · simp only [hread, Bool.false_eq_true, if_false]
      exact ih (by omega) hcap hs₂
    · have hfull := Nat.lt_of_lt_of_le hcap hblocks.size_le
      simp only [hread, if_neg (Nat.not_le.mpr hfull)]

/-- **A compressed form of a byte string comes out as this byte string,** unless it is longer than the cap. -/
theorem inflate_of_encodes {compressed content : Bytes} (h : Encodes compressed content) (cap : Nat) (tail : Bytes) :
    inflate cap (compressed ++ tail) = if content.length ≤ cap then .done content.toArray tail else .full := by
  have hs := shows_ofBytes (compressed ++ tail)
  have hbound : (compressed.flatMap bitsOf).length ≤ (ofBytes (compressed ++ tail)).bound + 1 := by
    rw [hs.bound_eq, List.flatMap_append, List.length_append]
    omega
  rw [List.flatMap_append] at hs
  simpa only [inflate, List.size_toArray] using
    readBlocks_of h hbound (show (#[] : Array UInt8).size ≤ cap from Nat.zero_le _) tail hs

end Rpc.Deflate
