import Mathlib.Algebra.Ring.Nat
import Mathlib.Data.List.Chain
import Rpc.Proofs.Deflate.Reading

/-!
# What is compressed comes out again

- `entryOf_spec`: in a table without gaps a number has an entry, and the extra bits of the entry hold what is left;
- `tokens_of_sound`: the bits of tokens are tokens of a block with the fixed codes;
- `encodes_compress`: so what is made of a byte string is a compressed form of it, and it comes out as it was
  (`inflate_compress`);
- `length_compress_le`: how long it is.
-/

namespace Rpc.Deflate

/-! ## Tables of bases -/

/-- The base of an entry, or of the one at the stop, comes no later than the extra bits of the entry before reach. -/
def Gapless (bases : List (Nat × Nat)) (stop : Nat × Nat) : Prop :=
  (bases ++ [stop]).IsChain fun (e next : Nat × Nat) => next.1 ≤ e.1 + 2 ^ e.2

instance (bases : List (Nat × Nat)) (stop : Nat × Nat) : Decidable (Gapless bases stop) :=
  inferInstanceAs (Decidable (List.IsChain _ _))

theorem gapless_lengthBases : Gapless lengthBases (Token.maxLength + 1, 0) := by decide

theorem gapless_distanceBases : Gapless distanceBases (Token.maxDistance + 1, 0) := by decide

theorem entryOf_snoc (bases : List (Nat × Nat)) (e : Nat × Nat) (n : Nat) :
    entryOf (bases ++ [e]) n = if e.1 ≤ n then (bases.length, e) else entryOf bases n := by
  simp [entryOf, List.zipIdx_append, List.foldl_append]

/-- A number between the first base and the stop has an entry, whose extra bits hold what is left. -/
theorem entryOf_spec {bases : List (Nat × Nat)} {stop : Nat × Nat} {n : Nat} (hgaps : Gapless bases stop)
    (hfirst : ∃ e ∈ bases, e.1 ≤ n) (hn : n < stop.1) :
    ∃ i base extra, entryOf bases n = (i, base, extra) ∧ bases[i]? = some (base, extra) ∧ base ≤ n ∧
      n - base < 2 ^ extra := by
  induction bases using List.reverseRecOn generalizing stop with
  | nil => simp at hfirst
  | append_singleton bases e ih =>
    unfold Gapless at hgaps
    rw [List.append_assoc, List.singleton_append, List.isChain_append_cons_cons] at hgaps
    obtain ⟨hbefore, hlast, -⟩ := hgaps
    rw [entryOf_snoc]
    split
    · next hle => exact ⟨bases.length, e.1, e.2, rfl, by simp, hle, by omega⟩
    · next hlt =>
      obtain ⟨f, hf, hfn⟩ := hfirst
      have hold : f ∈ bases := by
        rcases List.mem_append.mp hf with hf | hf
        · exact hf
        · exact absurd (List.mem_singleton.mp hf ▸ hfn) hlt
      obtain ⟨i, base, extra, hentry, hget, hrest⟩ := ih hbefore ⟨f, hold, hfn⟩ (Nat.lt_of_not_le hlt)
      have hi : i < bases.length := (List.getElem?_eq_some_iff.mp hget).1
      exact ⟨i, base, extra, hentry, by rw [List.getElem?_append_left hi, hget], hrest⟩

/-! ## Tokens -/

/-- The symbol that a token starts with. -/
def Token.symbol : Token → Nat
  | .literal b => b.toNat
  | .copy length _ => 257 + (entryOf lengthBases length).1

/-- What follows the word of the symbol. -/
def Token.restBits : Token → List Bool
  | .literal _ => []
  | .copy length distance =>
    lowBits (entryOf lengthBases length).2.2 (length - (entryOf lengthBases length).2.1) ++
      (fixedDistanceWords.getD (entryOf distanceBases distance).1 [] ++
        lowBits (entryOf distanceBases distance).2.2 (distance - (entryOf distanceBases distance).2.1))

theorem tokenBits_eq (t : Token) : tokenBits t = fixedLiteralWords.getD t.symbol [] ++ t.restBits := by
  cases t <;> simp [tokenBits, Token.symbol, Token.restBits]

/-- The entry of the length of a copy. -/
theorem lengthEntry {length : Nat} (hmin : Token.minLength ≤ length) (hmax : length ≤ Token.maxLength) :
    ∃ i base extra, entryOf lengthBases length = (i, base, extra) ∧ lengthBases[i]? = some (base, extra) ∧
      base ≤ length ∧ length - base < 2 ^ extra :=
  entryOf_spec gapless_lengthBases ⟨(3, 0), List.mem_cons_self, hmin⟩ (Nat.lt_succ_of_le hmax)

/-- The entry of the distance of a copy. -/
theorem distanceEntry {distance : Nat} (hpos : 0 < distance) (hmax : distance ≤ Token.maxDistance) :
    ∃ i base extra, entryOf distanceBases distance = (i, base, extra) ∧ distanceBases[i]? = some (base, extra) ∧
      base ≤ distance ∧ distance - base < 2 ^ extra :=
  entryOf_spec gapless_distanceBases ⟨(1, 0), List.mem_cons_self, hpos⟩ (Nat.lt_succ_of_le hmax)

/-- The symbol of a token is one of the code. -/
theorem Token.symbol_lt {t : Token} (h : t.Valid) : t.symbol < 288 := by
  cases t with
  | literal b =>
    have hb := b.toNat_lt
    simp only [Token.symbol]
    omega
  | copy length distance =>
    obtain ⟨hmin, hmax, -⟩ := h
    obtain ⟨i, base, extra, hentry, hget, -⟩ := lengthEntry hmin hmax
    have hi : i < 29 := (List.getElem?_eq_some_iff.mp hget).1
    simp only [Token.symbol, hentry]
    omega

/-! ## Blocks -/

/-- One more token in front of those of a block. -/
theorem Tokens.cons {t : Token} {out after : Array UInt8} {bits : List Bool} (hvalid : t.Valid)
    (hreach : t.reach ≤ out.size) (h : Tokens fixedLiteralLengths fixedDistanceLengths (t.emit out) bits after) :
    Tokens fixedLiteralLengths fixedDistanceLengths out (tokenBits t ++ bits) after := by
  have hsymbol := Token.symbol_lt hvalid
  rw [tokenBits_eq, fixedLiteralWord_eq hsymbol, List.append_assoc]
  cases t with
  | literal b => exact .literal (hasWord_fixedLiteral hsymbol) h
  | copy length distance =>
    obtain ⟨hmin, hmax, hpos, hfar⟩ := hvalid
    obtain ⟨i, base, extra, hentry, hget, hbase, hrest⟩ := lengthEntry hmin hmax
    obtain ⟨d, dbase, dextra, hdentry, hdget, hdbase, hdrest⟩ := distanceEntry hpos hfar
    have hd : d < 30 := (List.getElem?_eq_some_iff.mp hdget).1
    simp only [Token.symbol, hentry] at hsymbol
    simp only [Token.symbol, Token.restBits, hentry, hdentry, fixedDistanceWord_eq (show d < 32 by omega),
      List.append_assoc]
    exact .copy (hasWord_fixedLiteral hsymbol) (.intro hget hbase hrest) (hasWord_fixedDistance (by omega))
      (.intro hdget hdbase hdrest) hreach h

/-- **Tokens are written as those of a block with the fixed codes.** -/
theorem tokens_of_sound {tokens : List Token} {out : Array UInt8} (h : Token.Sound out tokens) :
    Tokens fixedLiteralLengths fixedDistanceLengths out
      (tokens.flatMap tokenBits ++ fixedLiteralWords.getD endOfBlock []) (tokens.foldl Token.emit out) := by
  induction tokens generalizing out with
  | nil =>
    rw [List.flatMap_nil, List.nil_append, fixedLiteralWord_eq (by decide)]
    exact .stop (hasWord_fixedLiteral (by decide))
  | cons t tokens ih =>
    obtain ⟨hvalid, hreach, hrest⟩ := h
    rw [List.flatMap_cons, List.append_assoc]
    exact .cons hvalid hreach (ih hrest)

/-! ## Streams -/

/-- **What is made of a byte string is a compressed form of it.** -/
theorem encodes_compress (bs : Bytes) : Encodes (compress bs) bs := by
  obtain ⟨zeros, hzeros, hpacked⟩ := flatMap_bitsOf_packBits (blockBits (Token.ofBytes bs))
  have htokens := tokens_of_sound (Token.sound_ofBytes bs)
  rw [show (Token.ofBytes bs).foldl Token.emit #[] = bs.toArray from Token.expand_ofBytes bs] at htokens
  have hpad : (List.replicate zeros false).length < 8 := by rwa [List.length_replicate]
  have hblocks := Blocks.last (.fixed htokens) hpad
  have hheader : fixedBlockHeader = true :: lowBits 2 1 := by decide
  rw [Encodes, compress, hpacked, blockBits, hheader]
  simpa only [List.cons_append, List.append_assoc] using hblocks

/-- **A compressed byte string comes out as it was,** unless it is longer than the cap. -/
theorem inflate_compress (cap : Nat) (bs tail : Bytes) :
    inflate cap (compress bs ++ tail) = if bs.length ≤ cap then .done bs.toArray tail else .full :=
  inflate_of_encodes (encodes_compress bs) cap tail

/-! ## Lengths -/

/-- The bits that a token takes at most: a literal its word, a copy two words and their extra bits. -/
def Token.mostBits : Token → Nat
  | .literal _ => 9
  | .copy _ _ => 32

theorem Token.length_restBits_le {t : Token} (h : t.Valid) : 9 + t.restBits.length ≤ t.mostBits := by
  cases t with
  | literal b => exact Nat.le_refl 9
  | copy length distance =>
    obtain ⟨hmin, hmax, hpos, hfar⟩ := h
    obtain ⟨i, base, extra, hentry, hget, -⟩ := lengthEntry hmin hmax
    obtain ⟨d, dbase, dextra, hdentry, hdget, -⟩ := distanceEntry hpos hfar
    have hd : d < 30 := (List.getElem?_eq_some_iff.mp hdget).1
    have hextra : extra ≤ 5 := (by decide : ∀ e ∈ lengthBases, e.2 ≤ 5) _ (List.mem_of_getElem? hget)
    have hdextra : dextra ≤ 13 := (by decide : ∀ e ∈ distanceBases, e.2 ≤ 13) _ (List.mem_of_getElem? hdget)
    have hdword := length_fixedDistanceWord (show d < 32 by omega)
    simp only [Token.restBits, hentry, hdentry, List.length_append, length_lowBits, hdword, Token.mostBits]
    omega

theorem length_tokenBits_le {t : Token} (h : t.Valid) : (tokenBits t).length ≤ t.mostBits := by
  have hword := (length_fixedLiteralWord (Token.symbol_lt h)).2
  rw [tokenBits_eq, List.length_append]
  exact Nat.le_trans (Nat.add_le_add_right hword _) (Token.length_restBits_le h)

theorem length_flatMap_tokenBits_le {tokens : List Token} (h : ∀ t ∈ tokens, t.Valid) :
    (tokens.flatMap tokenBits).length ≤ (tokens.map Token.mostBits).sum := by
  induction tokens with
  | nil => exact Nat.le_refl 0
  | cons t tokens ih =>
    obtain ⟨ht, hrest⟩ := List.forall_mem_cons.mp h
    rw [List.flatMap_cons, List.length_append, List.map_cons, List.sum_cons]
    exact Nat.add_le_add (length_tokenBits_le ht) (ih hrest)

/-- A compressed byte string takes the bits of its tokens, those of the header and the end, and less than a byte. -/
theorem length_compress_le (bs : Bytes) :
    8 * (compress bs).length ≤ ((Token.ofBytes bs).map Token.mostBits).sum + 19 := by
  have hbits : (blockBits (Token.ofBytes bs)).length ≤ 3 + ((Token.ofBytes bs).map Token.mostBits).sum + 9 := by
    have htokens := length_flatMap_tokenBits_le fun t (ht : t ∈ Token.ofBytes bs) => Token.valid_of_mem_ofBytes ht
    have hend := (length_fixedLiteralWord (show endOfBlock < 288 by decide)).2
    have hheader : fixedBlockHeader.length = 3 := rfl
    rw [blockBits, List.length_append, List.length_append, hheader]
    omega
  obtain ⟨zeros, hzeros, hpacked⟩ := flatMap_bitsOf_packBits (blockBits (Token.ofBytes bs))
  have hlen := congrArg List.length hpacked
  rw [length_flatMap_bitsOf, List.length_append, List.length_replicate] at hlen
  rw [compress]
  omega

end Rpc.Deflate
