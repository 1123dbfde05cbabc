import Rpc.Deflate.Format
import Rpc.Deflate.Writer
import Rpc.Proofs.Deflate.Bits

/-!
# Canonical codes are decoded

- `Huffman.taken`: the share of the sequences of some length that start with a word;
- `Huffman.firstCode_add_countOf_le`: where the words of a code take no more than there is, those of each length fit;
- `Huffman.decode_codeword`: with such a code, a stream that starts with the word of a symbol gives this symbol;
- `Huffman.of_decode`: with any code, a symbol that a stream gives is one whose word it starts with.

Decoding compares the bits read so far, as a number, with the words of their length. The words of a length come after
those of all shorter lengths (`firstCode_le`), so the first bits of a longer word are no word.
-/

namespace Rpc.Deflate

open BitStream

namespace Huffman

variable {lengths : List Nat} {symbol l k n v : Nat} {bits : List Bool} {s : BitStream}

/-! ## Words -/

theorem codeBits_succ (k v : Nat) : codeBits (k + 1) v = v.testBit k :: codeBits k v := by
  simp [codeBits, lowBits, List.range_succ]

/-- The number of the word of a symbol among the words of its length. -/
def rank (lengths : List Nat) (symbol l : Nat) : Nat := countOf (lengths.take symbol) l

theorem codeword_eq (h : lengths[symbol]? = some l) (hl : 0 < l) :
    codeword lengths symbol = codeBits l (firstCode lengths l + rank lengths symbol l) := by
  obtain ⟨l, rfl⟩ := Nat.exists_eq_succ_of_ne_zero (Nat.ne_of_gt hl)
  rw [codeword, h]
  rfl

/-- There are more words of a length than come before one of them. -/
theorem rank_lt (h : lengths[symbol]? = some l) : rank lengths symbol l < countOf lengths l := by
  obtain ⟨hlt, hget⟩ := List.getElem?_eq_some_iff.mp h
  have hsplit : lengths = lengths.take symbol ++ l :: lengths.drop (symbol + 1) := by
    rw [← hget, ← List.drop_eq_getElem_cons hlt, List.take_append_drop]
  have hcount := congrArg (List.count l) hsplit
  rw [List.count_append, List.count_cons_self] at hcount
  unfold rank countOf
  omega

/-- Words come after those of shorter lengths. -/
theorem firstCode_le (lengths : List Nat) (hl : 0 < l) (k : Nat) :
    2 ^ (k + 1) * (firstCode lengths l + countOf lengths l) ≤ firstCode lengths (l + k + 1) := by
  induction k with
  | zero => simp [firstCode, Nat.ne_of_gt hl]
  | succ k ih =>
    have hstep : 2 * firstCode lengths (l + k + 1) ≤ firstCode lengths (l + (k + 1) + 1) :=
      Nat.mul_le_mul_left 2 (Nat.le_add_right _ _)
    rw [Nat.pow_succ, Nat.mul_comm _ 2, Nat.mul_assoc]
    omega

/-! ## Room for words -/

/-- How many of the sequences of `width` bits start with the word of a symbol of length `l`. -/
def share (width l : Nat) : Nat := if 0 < l ∧ l ≤ width then 2 ^ (width - l) else 0

/-- How many of the sequences of `width` bits start with a word. -/
def taken (lengths : List Nat) (width : Nat) : Nat := lengths.foldr (fun l n => share width l + n) 0

theorem share_succ (width l : Nat) : share (width + 1) l = 2 * share width l + if l = width + 1 then 1 else 0 := by
  rcases Nat.lt_trichotomy l (width + 1) with hlt | rfl | hgt
  · have hle := Nat.le_of_lt_succ hlt
    rcases Nat.eq_zero_or_pos l with rfl | hpos
    · simp [share]
    · rw [share, share, if_pos ⟨hpos, Nat.le_succ_of_le hle⟩, if_pos ⟨hpos, hle⟩, if_neg (Nat.ne_of_lt hlt),
        Nat.succ_sub hle, Nat.pow_succ']
      rfl
  · have hnot : ¬ width + 1 ≤ width := Nat.not_succ_le_self width
    simp [share, hnot]
  · simp [share, Nat.not_le.mpr hgt, Nat.not_le.mpr (Nat.lt_of_succ_lt hgt), Nat.ne_of_gt hgt]

theorem taken_cons (l : Nat) (lengths : List Nat) (width : Nat) :
    taken (l :: lengths) width = share width l + taken lengths width := rfl

theorem taken_zero (lengths : List Nat) : taken lengths 0 = 0 := by
  induction lengths with
  | nil => rfl
  | cons l lengths ih => rw [taken_cons, ih, share, if_neg (by omega)]

/-- With one more bit every sequence becomes two, and there are the words of the new length. -/
theorem taken_succ (lengths : List Nat) (width : Nat) :
    taken lengths (width + 1) = 2 * taken lengths width + countOf lengths (width + 1) := by
  induction lengths with
  | nil => rfl
  | cons l lengths ih =>
    simp only [countOf] at ih
    simp only [taken_cons, countOf, share_succ, ih, List.count_cons, beq_iff_eq]
    omega

/-- The words of a length come right behind what shorter ones take. -/
theorem firstCode_add_countOf (lengths : List Nat) (l : Nat) :
    firstCode lengths (l + 1) + countOf lengths (l + 1) = taken lengths (l + 1) := by
  induction l with
  | zero => simp [firstCode, taken_succ, taken_zero]
  | succ l ih => rw [taken_succ, ← ih, firstCode, if_neg (Nat.succ_ne_zero l)]

/-- What is taken by words of up to some length is taken in the end. -/
theorem taken_mul_le_weight (lengths : List Nat) {width : Nat} (hw : width ≤ maxCodeLength) :
    taken lengths width * 2 ^ (maxCodeLength - width) ≤ weight lengths := by
  have hpow : ∀ l ≤ width, 2 ^ (width - l) * 2 ^ (maxCodeLength - width) = 2 ^ (maxCodeLength - l) := by
    intro l hl
    rw [← Nat.pow_add]
    congr 1
    omega
  induction lengths with
  | nil => simp [taken, weight]
  | cons l lengths ih =>
    simp only [weight] at ih
    simp only [taken_cons, weight, Nat.add_mul, List.filter_cons, decide_eq_true_eq]
    by_cases hpos : 0 < l
    · rw [if_pos hpos, List.foldr_cons]
      refine Nat.add_le_add ?_ ih
      by_cases hl : l ≤ width
      · exact Nat.le_of_eq (by rw [share, if_pos ⟨hpos, hl⟩, hpow l hl])
      · rw [share, if_neg (fun h => hl h.2), Nat.zero_mul]
        exact Nat.zero_le _
    · rwa [if_neg hpos, share, if_neg (fun h => hpos h.1), Nat.zero_mul, Nat.zero_add]

/-- **Where words take no more than there is, those of each length fit.** -/
theorem firstCode_add_countOf_le (h : weight lengths ≤ 2 ^ maxCodeLength) (hl : 0 < l) (hmax : l ≤ maxCodeLength) :
    firstCode lengths l + countOf lengths l ≤ 2 ^ l := by
  obtain ⟨l, rfl⟩ := Nat.exists_eq_succ_of_ne_zero (Nat.ne_of_gt hl)
  have hall : 2 ^ (l + 1) * 2 ^ (maxCodeLength - (l + 1)) = 2 ^ maxCodeLength := by
    rw [← Nat.pow_add, Nat.add_sub_cancel' hmax]
  have htaken := Nat.le_trans (taken_mul_le_weight lengths hmax) h
  rw [← hall] at htaken
  rw [firstCode_add_countOf]
  exact Nat.le_of_mul_le_mul_right htaken (Nat.two_pow_pos _)

/-- So it is with every code that may be used. -/
theorem weight_le_of_isUsable (h : isUsable lengths) : weight lengths ≤ 2 ^ maxCodeLength := by
  rw [isUsable, Bool.or_eq_true] at h
  rcases h with h | h
  · exact Nat.le_of_eq (of_decide_eq_true h)
  · have hsingle : (lengths.filter (0 < ·)).length ≤ 1 := of_decide_eq_true h
    rw [weight]
    generalize lengths.filter (0 < ·) = words at hsingle ⊢
    match words, hsingle with
    | [], _ => exact Nat.zero_le _
    | [l], _ => exact Nat.pow_le_pow_right (by decide) (Nat.sub_le _ _)

/-! ## Symbols in the order of their words -/

theorem length_symbolsOf (lengths : List Nat) (l : Nat) : (symbolsOf lengths l).length = countOf lengths l := by
  suffices h : ∀ n, ((lengths.zipIdx n).filter (·.1 = l)).length = lengths.count l by
    simpa [symbolsOf, countOf] using h 0
  induction lengths with
  | nil => simp
  | cons x xs ih =>
    intro n
    by_cases hx : x = l <;> simp [List.zipIdx_cons, hx, ih (n + 1)]

/-- A symbol stands at its rank among those of its length. -/
theorem getElem?_symbolsOf (h : lengths[symbol]? = some l) :
    (symbolsOf lengths l)[rank lengths symbol l]? = some symbol := by
  suffices h : ∀ n, (((lengths.zipIdx n).filter (·.1 = l)).map (·.2))[(lengths.take symbol).count l]? =
      some (n + symbol) by
    simpa [symbolsOf, rank, countOf] using h 0
  induction lengths generalizing symbol with
  | nil => simp at h
  | cons x xs ih =>
    intro n
    cases symbol with
    | zero =>
      obtain rfl : x = l := by simpa using h
      simp [List.zipIdx_cons]
    | succ symbol =>
      have hsymbol : xs[symbol]? = some l := by simpa using h
      have hrest := ih hsymbol (n + 1)
      rw [Nat.add_right_comm] at hrest
      by_cases hx : x = l
      · simpa [List.zipIdx_cons, List.filter_cons, List.count_cons, hx, Nat.add_assoc] using hrest
      · simpa [List.zipIdx_cons, List.filter_cons, List.count_cons, hx, Nat.add_assoc] using hrest

/-- The symbols with words of at most a length. -/
def upTo (lengths : List Nat) (l : Nat) : List Nat := (List.range l).flatMap fun k => symbolsOf lengths (k + 1)

theorem upTo_succ (lengths : List Nat) (l : Nat) :
    upTo lengths (l + 1) = upTo lengths l ++ symbolsOf lengths (l + 1) := by
  simp [upTo, List.range_succ]

theorem upTo_prefix (lengths : List Nat) (l k : Nat) : upTo lengths l <+: upTo lengths (l + k) := by
  induction k with
  | zero => exact List.prefix_rfl
  | succ k ih => exact ih.trans (upTo_succ lengths (l + k) ▸ List.prefix_append _ _)

/-- The symbols with words of a length stand behind those with shorter words. -/
theorem getElem?_symbols_of_lt {r : Nat} (hl : l < maxCodeLength) (hr : r < countOf lengths (l + 1)) :
    (ofLengths lengths).symbols[(upTo lengths l).length + r]? = (symbolsOf lengths (l + 1))[r]? := by
  obtain ⟨k, hk⟩ := Nat.exists_eq_add_of_le (show l + 1 ≤ maxCodeLength from hl)
  have hsymbols : (ofLengths lengths).symbols = (upTo lengths (l + 1 + k)).toArray := by rw [← hk]; rfl
  have hlt : (upTo lengths l).length + r < (upTo lengths (l + 1)).length := by
    rw [upTo_succ, List.length_append, length_symbolsOf]
    omega
  rw [hsymbols, List.getElem?_toArray]
  obtain ⟨more, hmore⟩ := upTo_prefix lengths (l + 1) k
  rw [← hmore, List.getElem?_append_left hlt, upTo_succ, List.getElem?_append_right (Nat.le_add_right _ _),
    Nat.add_sub_cancel_left]

/-- A symbol stands behind those with shorter words, at its rank. -/
theorem getElem?_symbols (h : lengths[symbol]? = some (l + 1)) (hl : l < maxCodeLength) :
    (ofLengths lengths).symbols[(upTo lengths l).length + rank lengths symbol (l + 1)]? = some symbol := by
  rw [getElem?_symbols_of_lt hl (rank_lt h), getElem?_symbolsOf h]

theorem nodup_symbolsOf (lengths : List Nat) (l : Nat) : (symbolsOf lengths l).Nodup := by
  have hall : (lengths.zipIdx.map (·.2)).Nodup := by
    rw [List.zipIdx_map_snd]
    exact List.nodup_range'
  exact (List.filter_sublist.map _).nodup hall

/-- A symbol that stands at some place among those with words of its length has this place as its rank. -/
theorem of_getElem?_symbolsOf {r : Nat} (h : (symbolsOf lengths l)[r]? = some symbol) :
    lengths[symbol]? = some l ∧ rank lengths symbol l = r := by
  obtain ⟨⟨x, i⟩, hmem, rfl⟩ := List.mem_map.mp (List.mem_of_getElem? h)
  obtain ⟨hzip, hx⟩ := List.mem_filter.mp hmem
  obtain rfl : x = l := of_decide_eq_true hx
  have hget : lengths[i]? = some x := (List.mem_zipIdx_iff_getElem? (x := (x, i))).mp hzip
  have hlt : rank lengths i x < (symbolsOf lengths x).length := length_symbolsOf lengths x ▸ rank_lt hget
  have hsame := (getElem?_symbolsOf hget).trans h.symm
  exact ⟨hget, (List.getElem?_inj hlt (nodup_symbolsOf lengths x)).mp hsame⟩

/-! ## Decoding -/

/-- One more bit of a number. -/
theorem shift_succ (v k : Nat) : 2 * (v / 2 ^ (k + 1)) + (v.testBit k).toNat = v / 2 ^ k := by
  rw [Nat.testBit_eq_decide_div_mod_eq, Nat.pow_succ, ← Nat.div_div_eq_div_mul]
  rcases Nat.mod_two_eq_zero_or_one (v / 2 ^ k) with h | h <;> simp [h] <;> omega

/-- The numbers of words from a length on. -/
theorem drop_counts (lengths : List Nat) (hl : l < maxCodeLength) :
    (ofLengths lengths).counts.drop l = countOf lengths (l + 1) :: (ofLengths lengths).counts.drop (l + 1) := by
  rw [List.drop_eq_getElem_cons (by simpa [ofLengths] using hl)]
  simp [ofLengths]

/-- With some bits of a word read, the rest of it gives its symbol. -/
theorem decodeFrom_word {first : Nat} (h : lengths[symbol]? = some (l + k + 1)) (hmax : l + k < maxCodeLength)
    (hv : v = firstCode lengths (l + k + 1) + rank lengths symbol (l + k + 1))
    (hfirst : 2 * first = firstCode lengths (l + 1)) (hs : s.Shows (codeBits (k + 1) v ++ bits)) :
    ∃ s', decodeFrom (ofLengths lengths).symbols ((ofLengths lengths).counts.drop l) (v / 2 ^ (k + 1)) first
      (upTo lengths l).length s = .value symbol s' ∧ s'.Shows bits := by
  induction k generalizing l first s with
  | zero =>
    rw [Nat.add_zero] at h hmax hv
    rw [codeBits_succ, List.cons_append] at hs
    obtain ⟨s', hnext, hs'⟩ := hs.next?
    have hcode : 2 * (v / 2 ^ (0 + 1)) + (v.testBit 0).toNat = v := by simpa using shift_succ v 0
    have hword : v < firstCode lengths (l + 1) + countOf lengths (l + 1) :=
      hv ▸ Nat.add_lt_add_left (rank_lt h) _
    have hrank : v - firstCode lengths (l + 1) = rank lengths symbol (l + 1) := by omega
    refine ⟨s', ?_, hs'⟩
    simp only [drop_counts lengths hmax, decodeFrom, hnext, hcode, hfirst, hword, if_true, hrank,
      getElem?_symbols h hmax]
  | succ k ih =>
    rw [codeBits_succ, List.cons_append] at hs
    obtain ⟨s₁, hnext, hs₁⟩ := hs.next?
    have hcode := shift_succ v (k + 1)
    -- The bits so far come after all words of their length.
    have hlater : ¬ v / 2 ^ (k + 1) < firstCode lengths (l + 1) + countOf lengths (l + 1) := by
      rw [Nat.not_lt, Nat.le_div_iff_mul_le (Nat.two_pow_pos _), Nat.mul_comm]
      have hle := firstCode_le lengths (show 0 < l + 1 by omega) k
      rw [show l + 1 + k + 1 = l + (k + 1) + 1 by omega] at hle
      omega
    have hindex : (upTo lengths l).length + countOf lengths (l + 1) = (upTo lengths (l + 1)).length := by
      rw [upTo_succ, List.length_append, length_symbolsOf]
    have hplace : l + (k + 1) + 1 = l + 1 + k + 1 := by omega
    have hsucc : lengths[symbol]? = some (l + 1 + k + 1) := hplace ▸ h
    have hnextFirst : 2 * (firstCode lengths (l + 1) + countOf lengths (l + 1)) = firstCode lengths (l + 1 + 1) := rfl
    obtain ⟨s', hrest, hs'⟩ := ih hsucc (by omega) (hplace ▸ hv) hnextFirst hs₁
    refine ⟨s', ?_, hs'⟩
    simp only [drop_counts lengths (show l < maxCodeLength by omega), decodeFrom, hnext, hcode, hfirst, hlater,
      if_false, hindex, hrest]

/-- **A stream that starts with the word of a symbol gives this symbol.** -/
theorem decode_codeword (hweight : weight lengths ≤ 2 ^ maxCodeLength) (h : HasWord lengths symbol)
    (hs : s.Shows (codeword lengths symbol ++ bits)) :
    ∃ s', (ofLengths lengths).decode s = .value symbol s' ∧ s'.Shows bits := by
  obtain ⟨l, h, hl, hmax⟩ := h
  rw [codeword_eq h hl] at hs
  have hlt : firstCode lengths l + rank lengths symbol l < 2 ^ l :=
    Nat.lt_of_lt_of_le (Nat.add_lt_add_left (rank_lt h) _) (firstCode_add_countOf_le hweight hl hmax)
  obtain ⟨k, rfl⟩ := Nat.exists_eq_add_of_le' hl
  have hfirst : 2 * 0 = firstCode lengths (0 + 1) := rfl
  have := decodeFrom_word (k := k) (by simpa using h) (by omega) rfl hfirst (by simpa using hs)
  simpa [decode, Nat.div_eq_of_lt hlt, upTo] using this

theorem codeBits_two_mul_add (k v : Nat) (b : Bool) : codeBits (k + 1) (2 * v + b.toNat) = codeBits k v ++ [b] := by
  rw [codeBits, Nat.add_comm (2 * v), lowBits_add_two_mul, List.reverse_cons, codeBits]

/-- With some bits of no word read, a symbol comes of the rest of its word. -/
theorem of_decodeFrom {s' : BitStream} {code first : Nat} (hk : l + k = maxCodeLength)
    (hfirst : 2 * first = firstCode lengths (l + 1)) (hle : first ≤ code) (hs : s.Shows bits)
    (hread : decodeFrom (ofLengths lengths).symbols ((ofLengths lengths).counts.drop l) code first
      (upTo lengths l).length s = .value symbol s') :
    HasWord lengths symbol ∧ ∃ rest, codeBits l code ++ bits = codeword lengths symbol ++ rest ∧ s'.Shows rest := by
  induction k generalizing l code first s bits with
  | zero =>
    have hnone : (ofLengths lengths).counts.drop l = [] := by
      rw [List.drop_eq_nil_iff]
      simp [ofLengths, ← hk]
    rw [hnone] at hread
    cases hread
  | succ k ih =>
    have hl : l < maxCodeLength := by omega
    rw [drop_counts lengths hl, decodeFrom] at hread
    split at hread
    · cases hread
    · next b s₁ hnext =>
      obtain ⟨rest, rfl, hs₁⟩ := hs.of_next? hnext
      simp only [hfirst] at hread
      have hcode : codeBits l code ++ b :: rest = codeBits (l + 1) (2 * code + b.toNat) ++ rest := by
        rw [codeBits_two_mul_add, List.append_assoc, List.singleton_append]
      rw [hcode]
      split at hread
      · next hlt =>
        -- The bits so far are the word whose rank they are beyond the first one of their length.
        have hr : 2 * code + b.toNat - firstCode lengths (l + 1) < countOf lengths (l + 1) := by omega
        rw [getElem?_symbols_of_lt hl hr] at hread
        split at hread
        · next symbol' hget =>
          cases hread
          obtain ⟨hlength, hrank⟩ := of_getElem?_symbolsOf hget
          refine ⟨⟨l + 1, hlength, Nat.succ_pos l, hl⟩, rest, ?_, hs₁⟩
          rw [codeword_eq hlength (Nat.succ_pos l), hrank, Nat.add_sub_cancel' (by omega)]
        · cases hread
      · next hnot =>
        have hindex : (upTo lengths l).length + countOf lengths (l + 1) = (upTo lengths (l + 1)).length := by
          rw [upTo_succ, List.length_append, length_symbolsOf]
        rw [hindex] at hread
        exact ih (by omega) rfl (Nat.le_of_not_lt hnot) hs₁ hread

/-- **A symbol that comes of a stream is one whose word the stream starts with.** -/
theorem of_decode {s' : BitStream} (hs : s.Shows bits) (hread : (ofLengths lengths).decode s = .value symbol s') :
    HasWord lengths symbol ∧ ∃ rest, bits = codeword lengths symbol ++ rest ∧ s'.Shows rest :=
  have hfirst : 2 * 0 = firstCode lengths (0 + 1) := rfl
  of_decodeFrom (Nat.zero_add maxCodeLength) hfirst (Nat.le_refl 0) hs hread

/-- The word of a symbol has the length that the code says. -/
theorem length_codeword (h : lengths[symbol]? = some l) (hl : 0 < l) : (codeword lengths symbol).length = l := by
  rw [codeword_eq h hl, codeBits, List.length_reverse, length_lowBits]

/-- A word has a bit at least. -/
theorem HasWord.length_pos (h : HasWord lengths symbol) : 0 < (codeword lengths symbol).length := by
  obtain ⟨l, h, hl, -⟩ := h
  rwa [length_codeword h hl]

end Huffman

/-! ## The fixed codes -/

variable {symbol : Nat} {bits : List Bool} {s : BitStream}

set_option maxRecDepth 2000 in
theorem weight_fixedLiterals : Huffman.weight fixedLiteralLengths ≤ 2 ^ maxCodeLength := by decide

theorem weight_fixedDistances : Huffman.weight fixedDistanceLengths ≤ 2 ^ maxCodeLength := by decide

theorem mem_fixedLiteralLengths {l : Nat} (h : l ∈ fixedLiteralLengths) : 0 < l ∧ l ≤ 9 := by
  simp only [fixedLiteralLengths, List.mem_append, List.mem_replicate] at h
  omega

theorem mem_fixedDistanceLengths {l : Nat} (h : l ∈ fixedDistanceLengths) : l = 5 := by
  simp only [fixedDistanceLengths, List.mem_replicate] at h
  exact h.2

theorem length_fixedLiteralLengths : fixedLiteralLengths.length = 288 := by
  simp only [fixedLiteralLengths, List.length_append, List.length_replicate]

theorem length_fixedDistanceLengths : fixedDistanceLengths.length = 32 := by
  simp only [fixedDistanceLengths, List.length_replicate]

theorem hasWord_fixedLiteral (h : symbol < 288) : Huffman.HasWord fixedLiteralLengths symbol := by
  have hsymbol := List.getElem?_eq_getElem (length_fixedLiteralLengths ▸ h)
  obtain ⟨hpos, hmax⟩ := mem_fixedLiteralLengths (List.mem_of_getElem? hsymbol)
  exact ⟨_, hsymbol, hpos, Nat.le_trans hmax (by decide)⟩

theorem hasWord_fixedDistance (h : symbol < 32) : Huffman.HasWord fixedDistanceLengths symbol := by
  have hsymbol := List.getElem?_eq_getElem (length_fixedDistanceLengths ▸ h)
  rw [mem_fixedDistanceLengths (List.mem_of_getElem? hsymbol)] at hsymbol
  exact ⟨5, hsymbol, by decide, by decide⟩

theorem fixedLiteralWord_eq (h : symbol < 288) :
    fixedLiteralWords.getD symbol [] = Huffman.codeword fixedLiteralLengths symbol := by
  simp [fixedLiteralWords, h]

theorem fixedDistanceWord_eq (h : symbol < 32) :
    fixedDistanceWords.getD symbol [] = Huffman.codeword fixedDistanceLengths symbol := by
  simp [fixedDistanceWords, h]

/-- Words of literals and match lengths have up to nine bits. -/
theorem length_fixedLiteralWord (h : symbol < 288) :
    0 < (fixedLiteralWords.getD symbol []).length ∧ (fixedLiteralWords.getD symbol []).length ≤ 9 := by
  have hsymbol := List.getElem?_eq_getElem (length_fixedLiteralLengths ▸ h)
  have hl := mem_fixedLiteralLengths (List.mem_of_getElem? hsymbol)
  rwa [fixedLiteralWord_eq h, Huffman.length_codeword hsymbol hl.1]

/-- Words of distances have five bits. -/
theorem length_fixedDistanceWord (h : symbol < 32) : (fixedDistanceWords.getD symbol []).length = 5 := by
  have hsymbol := List.getElem?_eq_getElem (length_fixedDistanceLengths ▸ h)
  have hl := mem_fixedDistanceLengths (List.mem_of_getElem? hsymbol)
  rw [fixedDistanceWord_eq h, Huffman.length_codeword hsymbol (by omega), hl]

end Rpc.Deflate
