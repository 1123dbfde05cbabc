import Rpc.Proofs.Deflate.Reading

/-!
# Only compressed streams are read

What comes of reading a stream is what the bits that were read stand for: blocks to the end, or blocks so far where the
input ends or the output goes beyond the cap.

- `readTokens_sound`: the tokens of a block; `of_readCodes`: the codes in front of a block;
- `readBlock_sound`: a block of any kind (`BlockEnd.Agrees`);
- `readBlocks_sound`: all blocks (`Inflated.Agrees`).

A copy may reach back as far as the window is long. Of an output that is that long already it never reaches back before
the start.
-/

namespace Rpc.Deflate

open BitStream

variable {cap fuel : Nat} {out after : Array UInt8} {bits : List Bool} {s s' : BitStream}

/-! ## Tokens -/

theorem of_readExtra {bases : List (Nat × Nat)} {i n : Nat} (hs : s.Shows bits)
    (hread : readExtra bases i s = .value n s') :
    ∃ extraBits rest, ExtraBits bases i n extraBits ∧ bits = extraBits ++ rest ∧ s'.Shows rest := by
  unfold readExtra at hread
  split at hread
  · cases hread
  · next base extra hget =>
    split at hread
    · cases hread
    · next m s₁ hbits =>
      cases hread
      obtain ⟨hm, rest, rfl, hs₁⟩ := hs.of_bits? hbits
      refine ⟨lowBits extra m, rest, ?_, rfl, hs₁⟩
      have hextra := ExtraBits.intro hget (Nat.le_add_right base m) (by rwa [Nat.add_sub_cancel_left])
      rwa [Nat.add_sub_cancel_left] at hextra

/-- No distance is beyond the window. -/
theorem ExtraBits.distance_le {d distance : Nat} {extraBits : List Bool}
    (h : ExtraBits distanceBases d distance extraBits) : distance ≤ Token.maxDistance := by
  obtain ⟨hget, -, hlt⟩ := h
  have hbases : ∀ e ∈ distanceBases, e.1 + 2 ^ e.2 ≤ Token.maxDistance + 1 := by decide
  have := hbases _ (List.mem_of_getElem? hget)
  dsimp only at this
  omega

/-- A token that is read is what the stream starts with. -/
theorem of_readToken {literals distances : List Nat} {symbol : Nat} {t : Token} {s₁ s₂ : BitStream}
    (hout : Token.maxDistance ≤ out.size) (hs : s.Shows bits)
    (hsymbol : (Huffman.ofLengths literals).decode s = .value symbol s₁) (hnot : symbol ≠ endOfBlock)
    (htoken : readToken (.ofLengths distances) symbol s₁ = .value t s₂) :
    ∃ used rest, OneToken literals distances out used (t.emit out) ∧ bits = used ++ rest ∧ s₂.Shows rest := by
  obtain ⟨hword, rest, rfl, hs₁⟩ := Huffman.of_decode hs hsymbol
  unfold readToken at htoken
  split at htoken
  · next hlt =>
    cases htoken
    have hbyte : (UInt8.ofNat symbol).toNat = symbol := UInt8.toNat_ofNat_of_lt' hlt
    rw [← hbyte] at hword
    refine ⟨_, rest, .literal hword, ?_, hs₁⟩
    rw [hbyte]
  · next hge =>
    obtain ⟨i, rfl⟩ : ∃ i, symbol = 257 + i := by
      unfold endOfBlock at hnot hge
      exact ⟨symbol - 257, by omega⟩
    rw [Nat.add_sub_cancel_left] at htoken
    split at htoken
    · next length s₃ hlength =>
      obtain ⟨lengthBits, rest, hlengthBits, rfl, hs₃⟩ := of_readExtra hs₁ hlength
      split at htoken
      · next distance s₄ hdistance =>
        cases htoken
        unfold readDistance at hdistance
        split at hdistance
        · next d s₅ hd =>
          obtain ⟨hdword, rest, rfl, hs₅⟩ := Huffman.of_decode hs₃ hd
          obtain ⟨distanceBits, rest, hdistanceBits, rfl, hs₄⟩ := of_readExtra hs₅ hdistance
          have hback := Nat.le_trans hdistanceBits.distance_le hout
          exact ⟨_, rest, .copy hword hlengthBits hdword hdistanceBits hback, by simp only [List.append_assoc], hs₄⟩
        · cases hdistance
        · cases hdistance
      · cases htoken
      · cases htoken
    · cases htoken
    · cases htoken

/-- What comes of a block is what the bits that were read stand for: all of it, or what there is so far. -/
def BlockEnd.Agrees (e : BlockEnd) (cap : Nat) (bits : List Bool) (all : List Bool → List Bool → Array UInt8 → Prop)
    (soFar : List Bool → Array UInt8 → Prop) : Prop :=
  match e with
  | .next after s => ∃ used rest, all rest used after ∧ bits = used ++ rest ∧ s.Shows rest
  | .full => ∃ used rest after, soFar used after ∧ bits = used ++ rest ∧ cap < after.size
  | .starved after => ∃ used rest, soFar used after ∧ bits = used ++ rest
  | .fault => True

/-- Bits in front of those of a block. -/
theorem BlockEnd.Agrees.prepend {e : BlockEnd} {rest : List Bool} {all all' : List Bool → List Bool → Array UInt8 → Prop}
    {soFar soFar' : List Bool → Array UInt8 → Prop} (h : e.Agrees cap rest all soFar) (front : List Bool)
    (hall : ∀ rest used after, all rest used after → all' rest (front ++ used) after)
    (hsoFar : ∀ used after, soFar used after → soFar' (front ++ used) after) :
    e.Agrees cap (front ++ rest) all' soFar' := by
  cases e with
  | next after s =>
    obtain ⟨used, rest, hused, rfl, hs⟩ := h
    exact ⟨front ++ used, rest, hall rest used after hused, (List.append_assoc _ _ _).symm, hs⟩
  | full =>
    obtain ⟨used, rest, after, hused, rfl, hcap⟩ := h
    exact ⟨front ++ used, rest, after, hsoFar used after hused, (List.append_assoc _ _ _).symm, hcap⟩
  | starved after =>
    obtain ⟨used, rest, hused, rfl⟩ := h
    exact ⟨front ++ used, rest, hsoFar used after hused, (List.append_assoc _ _ _).symm⟩
  | fault => trivial

theorem Tokens.of_one {literals distances : List Nat} {mid : Array UInt8} {rest : List Bool}
    (h : OneToken literals distances out bits mid) (hrest : Tokens literals distances mid rest after) :
    Tokens literals distances out (bits ++ rest) after := by
  cases h with
  | literal hword => exact .literal hword hrest
  | copy hword hlength hdword hdistance hback =>
    simp only [List.append_assoc]
    exact .copy hword hlength hdword hdistance hback hrest

/-- **What is read as tokens of a block are tokens of a block.** -/
theorem readTokens_sound {literals distances : List Nat} (hout : Token.maxDistance ≤ out.size) (hs : s.Shows bits) :
    (readTokens (.ofLengths literals) (.ofLengths distances) cap fuel out s).Agrees cap bits
      (fun _ => Tokens literals distances out) (TokensSoFar literals distances out) := by
  induction fuel generalizing out s bits with
  | zero => trivial
  | succ fuel ih =>
    rw [readTokens]
    split
    · exact ⟨[], bits, .none, rfl⟩
    · trivial
    · next symbol s₁ hsymbol =>
      split
      · next hend =>
        subst hend
        obtain ⟨hword, rest, rfl, hs₁⟩ := Huffman.of_decode hs hsymbol
        exact ⟨_, rest, .stop hword, rfl, hs₁⟩
      · next hnot =>
        split
        · exact ⟨[], bits, .none, rfl⟩
        · trivial
        · next t s₂ htoken =>
          obtain ⟨used, rest, hone, rfl, hs₂⟩ := of_readToken hout hs hsymbol hnot htoken
          rw [← Token.size_emit]
          split
          · have hsize : Token.maxDistance ≤ (t.emit out).size := by
              rw [Token.size_emit]
              exact Nat.le_add_right_of_le hout
            exact (ih hsize hs₂).prepend used (fun _ _ _ h => .of_one hone h) fun _ _ h => .next hone h
          · next hfull =>
            refine ⟨used ++ [], rest, _, .next hone .none, ?_, Nat.lt_of_not_le hfull⟩
            rw [List.append_nil]

/-! ## Codes -/

theorem of_readThrees {n : Nat} {sent : List Nat} (hs : s.Shows bits) (hread : readThrees n s = some (sent, s')) :
    sent.length = n ∧ (∀ a ∈ sent, a < 8) ∧ ∃ rest, bits = sent.flatMap (lowBits 3) ++ rest ∧ s'.Shows rest := by
  induction n generalizing s bits sent with
  | zero =>
    cases hread
    exact ⟨rfl, List.forall_mem_nil _, bits, rfl, hs⟩
  | succ n ih =>
    obtain ⟨⟨a, s₁⟩, hfirst, hread⟩ := Option.bind_eq_some_iff.mp hread
    obtain ⟨⟨as, s₂⟩, hmore, hread⟩ := Option.bind_eq_some_iff.mp hread
    cases hread
    obtain ⟨ha, rest, rfl, hs₁⟩ := hs.of_bits? hfirst
    obtain ⟨hlength, has, rest, rfl, hs₂⟩ := ih hs₁ hmore
    refine ⟨congrArg Nat.succ hlength, List.forall_mem_cons.mpr ⟨ha, has⟩, rest, ?_, hs₂⟩
    rw [List.flatMap_cons, List.append_assoc]

variable {code : List Nat} {sent all : List Nat}

/-- What a symbol of the code of word lengths stands for carries the word lengths on. -/
theorem of_readRun {symbol l times : Nat} {last : Option Nat} (hcode : code.length ≤ 19)
    (hword : Huffman.HasWord code symbol) (hlast : sent.getLast? = last) (hs : s.Shows bits)
    (hread : readRun symbol last s = .value (l, times) s') :
    ∃ runBits rest, bits = runBits ++ rest ∧ s'.Shows rest ∧ ∀ more all,
      CodeLengths code (sent ++ List.replicate times l) more all →
      CodeLengths code sent (Huffman.codeword code symbol ++ (runBits ++ more)) all := by
  have hsymbol : symbol < 19 := by
    obtain ⟨_, hget, -⟩ := hword
    exact Nat.lt_of_lt_of_le (List.getElem?_eq_some_iff.mp hget).1 hcode
  unfold readRun at hread
  dsimp only at hread
  split at hread
  · next hlt =>
    cases hread
    exact ⟨[], bits, rfl, hs, fun more all h => .one hlt hword h⟩
  split at hread
  · next hagain =>
    subst hagain
    split at hread
    · cases hread
    · next hsome =>
      split at hread
      · cases hread
      · next n s₁ hbits =>
        cases hread
        obtain ⟨hn, rest, rfl, hs₁⟩ := hs.of_bits? hbits
        exact ⟨_, rest, rfl, hs₁, fun more all h => .again hlast hn hword h⟩
  split at hread
  · next hzeros =>
    subst hzeros
    split at hread
    · cases hread
    · next n s₁ hbits =>
      cases hread
      obtain ⟨hn, rest, rfl, hs₁⟩ := hs.of_bits? hbits
      exact ⟨_, rest, rfl, hs₁, fun more all h => .zeros hn hword h⟩
  · next hge hnot hnot' =>
    obtain rfl : symbol = 18 := by omega
    split at hread
    · cases hread
    · next n s₁ hbits =>
      cases hread
      obtain ⟨hn, rest, rfl, hs₁⟩ := hs.of_bits? hbits
      exact ⟨_, rest, rfl, hs₁, fun more all h => .manyZeros hn hword h⟩

/-- Word lengths that are read are written there. -/
theorem of_readLengths {total : Nat} {done : List Nat} (hcode : code.length ≤ 19) (hs : s.Shows bits)
    (hread : readLengths (.ofLengths code) total fuel done s = .value all s') :
    all.length = total ∧
      ∃ used rest, CodeLengths code done.reverse used all ∧ bits = used ++ rest ∧ s'.Shows rest := by
  induction fuel generalizing done s bits with
  | zero => cases hread
  | succ fuel ih =>
    rw [readLengths] at hread
    split at hread
    · next htotal =>
      cases hread
      exact ⟨by rwa [List.length_reverse], [], bits, .stop, rfl, hs⟩
    split at hread
    · cases hread
    split at hread
    · cases hread
    · cases hread
    · next symbol s₁ hsymbol =>
      obtain ⟨hword, rest, rfl, hs₁⟩ := Huffman.of_decode hs hsymbol
      split at hread
      · cases hread
      · cases hread
      · next l times s₂ hrun =>
        obtain ⟨runBits, rest, rfl, hs₂, hcarry⟩ := of_readRun hcode hword List.getLast?_reverse hs₁ hrun
        obtain ⟨htotal, used, rest, hmore, rfl, hs'⟩ := ih hs₂ hread
        rw [List.reverse_append, List.reverse_replicate] at hmore
        exact ⟨htotal, _, rest, hcarry used all hmore, by simp only [List.append_assoc], hs'⟩

/-- **Codes that are read are written in front of the block.** -/
theorem of_readCodes {literals distances : List Nat} (hs : s.Shows bits)
    (hread : readCodes s = .value (literals, distances) s') :
    ∃ front rest, Codes front literals distances ∧ bits = front ++ rest ∧ s'.Shows rest := by
  unfold readCodes at hread
  split at hread
  · cases hread
  next ls ds n s₃ hnumbers =>
  obtain ⟨⟨a, s₁⟩, h₁, hnumbers⟩ := Option.bind_eq_some_iff.mp hnumbers
  obtain ⟨⟨b, s₂⟩, h₂, hnumbers⟩ := Option.bind_eq_some_iff.mp hnumbers
  obtain ⟨⟨c, s₃'⟩, h₃, hnumbers⟩ := Option.bind_eq_some_iff.mp hnumbers
  cases hnumbers
  obtain ⟨ha, rest, rfl, hs₁⟩ := hs.of_bits? h₁
  obtain ⟨hb, rest, rfl, hs₂⟩ := hs₁.of_bits? h₂
  obtain ⟨hc, rest, rfl, hs₃⟩ := hs₂.of_bits? h₃
  split at hread
  · cases hread
  next hbounds =>
  split at hread
  · cases hread
  next sent s₄ hsent =>
  obtain ⟨hsentLength, hthree, rest, rfl, hs₄⟩ := of_readThrees hs₃ hsent
  dsimp only at hread
  split at hread
  · cases hread
  next hcomplete =>
  split at hread
  · cases hread
  · cases hread
  next all s₅ hall =>
  have harrange : (arrange sent).length ≤ 19 := by simp [arrange]
  obtain ⟨htotal, used, rest, hlengths, rfl, hs₅⟩ := of_readLengths harrange hs₄ hall
  split at hread
  · next husable =>
    cases hread
    obtain ⟨hlusable, hdusable⟩ := Bool.and_eq_true_iff.mp husable
    simp only [Bool.or_eq_true, decide_eq_true_eq, not_or, Nat.not_lt] at hbounds
    have hl : (all.take (a + 257)).length = a + 257 := by
      rw [List.length_take]
      omega
    have hd : (all.drop (a + 257)).length = b + 1 := by
      rw [List.length_drop]
      omega
    rw [← List.take_append_drop (a + 257) all] at hlengths
    rw [Bool.not_eq_true, Bool.not_eq_false'] at hcomplete
    have hcodes := Codes.intro (by omega) (by omega) (by omega) (by omega) (by omega) (by omega) hthree
      hcomplete hlengths hlusable hdusable
    rw [hl, hd, hsentLength, Nat.add_sub_cancel, Nat.add_sub_cancel, Nat.add_sub_cancel] at hcodes
    exact ⟨_, rest, hcodes, by simp only [List.append_assoc], hs₅⟩
  · cases hread

/-! ## Blocks -/

/-- The bytes of a word of two bytes. -/
theorem littleEndian_toNat (a b : UInt8) : Bytes.littleEndian 2 (Bytes.toNat [b, a]) = [a, b] := by
  have ha := a.toNat_lt
  have hlow : UInt8.ofNat (b.toNat * 256 + a.toNat) = a := UInt8.toNat_inj.mp (by simp)
  have hhigh : UInt8.ofNat ((b.toNat * 256 + a.toNat) / 256) = b := by
    rw [show (b.toNat * 256 + a.toNat) / 256 = b.toNat by omega]
    exact UInt8.ofNat_toNat
  simp [Bytes.littleEndian, Bytes.bigEndian, Bytes.toNat, hlow, hhigh]

/-- **What is read as a stored block is one,** or the beginning of one. -/
theorem readStored_sound (hs : s.Shows bits) :
    (readStored cap out s).Agrees cap bits (fun rest => Block rest 0 out) (BlockSoFar 0 out) := by
  obtain ⟨pad, bytes⟩ := s
  obtain ⟨rfl, hpad⟩ := hs
  unfold readStored align BitStream.toList
  dsimp only at hpad ⊢
  split
  · next a b c d rest =>
    split
    · next hcheck =>
      -- The bytes that are there, and how many are missing.
      have hsplit := List.take_append_drop (Bytes.toNat [b, a]) rest
      have hmost : (rest.take (Bytes.toNat [b, a])).length ≤ Bytes.toNat [b, a] := List.length_take_le _ _
      generalize rest.take (Bytes.toNat [b, a]) = block at hsplit hmost ⊢
      generalize rest.drop (Bytes.toNat [b, a]) = tail at hsplit ⊢
      obtain ⟨more, hmore⟩ := Nat.exists_eq_add_of_le hmost
      have hlength := littleEndian_toNat a b
      have hcomplement := littleEndian_toNat c d
      rw [show Bytes.toNat [d, c] = 0xffff - Bytes.toNat [b, a] by omega] at hcomplement
      rw [hmore] at hlength hcomplement hcheck
      have hbits : pad ++ (a :: b :: c :: d :: rest).flatMap bitsOf =
          (pad ++ (Bytes.littleEndian 2 (block.length + more) ++
            (Bytes.littleEndian 2 (0xffff - (block.length + more)) ++ block)).flatMap bitsOf) ++ tail.flatMap bitsOf := by
        rw [hlength, hcomplement, ← hsplit]
        simp only [List.cons_append, List.nil_append, List.flatMap_cons, List.flatMap_append, List.append_assoc]
      have hmax : block.length + more ≤ 0xffff := by omega
      have hsoFar : BlockSoFar 0 out _ _ := .stored hpad hmax
      rw [hbits, ← size_appendList]
      split
      · next hfull => exact ⟨_, _, _, hsoFar, rfl, hfull⟩
      · split
        · exact ⟨_, _, hsoFar, rfl⟩
        · obtain rfl : more = 0 := by omega
          refine ⟨_, _, ?_, rfl, shows_ofBytes tail⟩
          rw [Nat.add_zero] at hcheck ⊢
          exact .stored hpad (by rw [length_flatMap_bitsOf]; omega) (by omega)
    · trivial
  · exact ⟨[], _, .none, rfl⟩

/-- **What is read as a block of some kind is one,** or the beginning of one. -/
theorem readBlock_sound (kind : Nat) (hout : Token.maxDistance ≤ out.size) (hs : s.Shows bits) :
    (readBlock cap kind out s).Agrees cap bits (fun rest => Block rest kind out) (BlockSoFar kind out) := by
  unfold readBlock
  split
  · next hkind =>
    subst hkind
    exact readStored_sound hs
  split
  · next hkind =>
    subst hkind
    exact (readTokens_sound hout hs).prepend [] (fun _ _ _ h => .fixed h) fun _ _ h => .fixed h
  split
  · next hkind =>
    subst hkind
    split
    · exact ⟨[], bits, .none, rfl⟩
    · trivial
    · next ls ds s₁ hcodes =>
      obtain ⟨front, rest, hfront, rfl, hs₁⟩ := of_readCodes hs hcodes
      exact (readTokens_sound hout hs₁).prepend front (fun _ _ _ h => .dynamic hfront h) fun _ _ h =>
        .dynamic hfront h
  · trivial

/-! ## Streams -/

/-- What comes of a stream is what its bits stand for. -/
def Inflated.Agrees (e : Inflated) (cap : Nat) (out : Array UInt8) (bits : List Bool) : Prop :=
  match e with
  | .done after tail => ∃ used, Blocks out used after ∧ bits = used ++ tail.flatMap bitsOf
  | .full => ∃ after, BlocksSoFar out bits after ∧ cap < after.size
  | .starved after => BlocksSoFar out bits after
  | .fault => True

/-- Whole bytes behind it are nothing to a block. -/
theorem block_append_iff {kind : Nat} {rest : List Bool} (tail : Bytes) :
    Block (rest ++ tail.flatMap bitsOf) kind out bits after ↔ Block rest kind out bits after := by
  have hlength : (rest ++ tail.flatMap bitsOf).length % 8 = rest.length % 8 := by
    rw [List.length_append, length_flatMap_bitsOf]
    omega
  constructor
  · intro h
    cases h with
    | stored hpad hrest hmax => exact .stored hpad (hlength ▸ hrest) hmax
    | fixed htokens => exact .fixed htokens
    | dynamic hcodes htokens => exact .dynamic hcodes htokens
  · intro h
    cases h with
    | stored hpad hrest hmax => exact .stored hpad (hlength.trans hrest) hmax
    | fixed htokens => exact .fixed htokens
    | dynamic hcodes htokens => exact .dynamic hcodes htokens

theorem Tokens.soFar {literals distances : List Nat} (h : Tokens literals distances out bits after) :
    ∃ used rest, TokensSoFar literals distances out used after ∧ bits = used ++ rest := by
  induction h with
  | stop _ => exact ⟨[], _, .none, rfl⟩
  | literal hword _ ih =>
    obtain ⟨used, rest, hused, rfl⟩ := ih
    exact ⟨_, rest, .next (.literal hword) hused, by simp only [List.append_assoc]⟩
  | copy hword hlength hdword hdistance hback _ ih =>
    obtain ⟨used, rest, hused, rfl⟩ := ih
    exact ⟨_, rest, .next (.copy hword hlength hdword hdistance hback) hused, by simp only [List.append_assoc]⟩

theorem Block.soFar {kind : Nat} {rest : List Bool} (h : Block rest kind out bits after) :
    ∃ used unread, BlockSoFar kind out used after ∧ bits = used ++ unread := by
  cases h with
  | @stored _ _ bytes hpad _ hmax =>
    have hwhole : bytes.length + 0 ≤ 0xffff := hmax
    exact ⟨_, [], .stored hpad hwhole, (List.append_nil _).symm⟩
  | fixed htokens =>
    obtain ⟨used, rest, hused, rfl⟩ := htokens.soFar
    exact ⟨used, rest, .fixed hused, rfl⟩
  | dynamic hcodes htokens =>
    obtain ⟨used, rest, hused, rfl⟩ := htokens.soFar
    exact ⟨_, rest, .dynamic hcodes hused, by simp only [List.append_assoc]⟩

/-- The three bits in front of a block. -/
theorem of_blockHead {final kind : Nat} (hs : s.Shows bits)
    (hread : (do
      let (final, s) ← s.bits? 1
      let (kind, s) ← s.bits? 2
      some (final, kind, s)) = some (final, kind, s')) :
    ∃ b rest, (final = 1 ↔ b = true) ∧ bits = b :: (lowBits 2 kind ++ rest) ∧ s'.Shows rest := by
  obtain ⟨⟨f, s₁⟩, hfinal, hread⟩ := Option.bind_eq_some_iff.mp hread
  obtain ⟨⟨k, s₂⟩, hkind, hread⟩ := Option.bind_eq_some_iff.mp hread
  cases hread
  obtain ⟨hf, rest, rfl, hs₁⟩ := hs.of_bits? hfinal
  obtain ⟨hk, rest, rfl, hs₂⟩ := hs₁.of_bits? hkind
  have hone : final = 0 ∨ final = 1 := by omega
  rcases hone with rfl | rfl
  · exact ⟨false, rest, by decide, rfl, hs₂⟩
  · exact ⟨true, rest, by decide, rfl, hs₂⟩

/-- **What is read as blocks are blocks,** all of them or as many as there are. -/
theorem readBlocks_sound (hout : Token.maxDistance ≤ out.size) (hs : s.Shows bits) :
    (readBlocks cap fuel out s).Agrees cap out bits := by
  induction fuel generalizing out s bits with
  | zero => trivial
  | succ fuel ih =>
    rw [readBlocks]
    split
    · exact .none
    next final kind s₂ hhead =>
    obtain ⟨b, rest, hone, rfl, hs₂⟩ := of_blockHead hs hhead
    have hblock : (readBlock cap kind out s₂).Agrees cap rest _ _ := readBlock_sound kind hout hs₂
    cases hread : readBlock cap kind out s₂ with
    | full =>
      rw [hread] at hblock
      obtain ⟨used, unread, after, hused, rfl, hcap⟩ := hblock
      exact ⟨after, .within hused, hcap⟩
    | starved after =>
      rw [hread] at hblock
      obtain ⟨used, unread, hused, rfl⟩ := hblock
      exact .within hused
    | fault => trivial
    | next after s₃ =>
      rw [hread] at hblock
      obtain ⟨used, rest, hused, rfl, hs₃⟩ := hblock
      dsimp only
      split
      · next hlast =>
        obtain rfl := hone.mp hlast
        rw [← hs₃.toList, BitStream.toList] at hused ⊢
        -- What is left of the last byte goes with the blocks.
        refine ⟨true :: (lowBits 2 kind ++ (used ++ s₃.current)), ?_, ?_⟩
        · exact .last ((block_append_iff _).mp hused) hs₃.short
        · simp only [align, List.cons_append, List.append_assoc]
      · next hnot =>
        obtain rfl : b = false := Bool.eq_false_iff.mpr fun h => hnot (hone.mpr h)
        have hmore := ih (Nat.le_trans hout hused.size_le) hs₃
        cases hrest : readBlocks cap fuel after s₃ with
        | full =>
          rw [hrest] at hmore
          obtain ⟨last, hlast, hcap⟩ := hmore
          exact ⟨last, .next hused hlast, hcap⟩
        | starved last =>
          rw [hrest] at hmore
          exact .next hused hmore
        | fault => trivial
        | done last tail =>
          rw [hrest] at hmore
          obtain ⟨more, hblocks, rfl⟩ := hmore
          exact ⟨_, .next ((block_append_iff tail).mp hused) hblocks, by simp only [List.cons_append, List.append_assoc]⟩

/-- All blocks are as many as there are. -/
theorem Blocks.soFar (h : Blocks out bits after) (tail : Bytes) :
    BlocksSoFar out (bits ++ tail.flatMap bitsOf) after := by
  induction h with
  | last hblock _ =>
    obtain ⟨used, unread, hused, rfl⟩ := hblock.soFar
    simp only [List.cons_append, List.append_assoc]
    exact .within hused
  | next hblock _ ih =>
    simp only [List.cons_append, List.append_assoc]
    exact .next ((block_append_iff tail).mpr hblock) ih

end Rpc.Deflate
