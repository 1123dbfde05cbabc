import Mathlib.Data.List.Basic
import Rpc.Net.Address
import Rpc.Proofs.Json.Numerals

/-!
# Addresses that come back

Every part of an address is read off the front of a text as what was written there, up to a character that it cannot
go on with: a number (`readNumber_append`), an IPv4 address (`readV4_append`), groups (`readGroups_append`), and an
IPv6 address with a run of zero groups left out or with an IPv4 address mapped into it (`readV6_append`). So it is with
the whole (`read?_append`):

- every address is what its text is read as (`parse?_text`);
- in front of something that is no digit, the text of an address ends in one place only (`text_append_inj`).
-/

namespace Rpc.SocketAddress

variable {base n g below limit : Nat} {most : Option Nat} {zeros first : Bool} {c : Char} {cs ds rest : List Char}
  {gs : List Nat}

/-! ## Numbers -/

/-- No digit of the base comes first, so that a number ends here. -/
def Ends (base : Nat) (rest : List Char) : Prop := ∀ c ∈ rest.head?, digitValue? base c = none

/-- Digits that stand for a number. -/
structure Writes (base n : Nat) (ds : List Char) : Prop where
  nonempty : ds ≠ []
  digits : ∀ c ∈ ds, (digitValue? base c).isSome
  value : ds.foldl (fun n c => n * base + (digitValue? base c).getD 0) 0 = n

theorem ends_nil : Ends base [] := nofun

theorem ends_cons : Ends base (c :: rest) ↔ digitValue? base c = none := by simp [Ends]

/-- A decimal digit is a hexadecimal one. -/
theorem Ends.decimal (h : Ends 16 rest) : Ends 10 rest := by
  intro c hc
  have hnone := h c hc
  unfold digitValue? at hnone ⊢
  split at hnone <;> simp_all

theorem dropWhile_of_ends (h : Ends base rest) : (rest.dropWhile fun c => (digitValue? base c).isSome) = rest := by
  cases rest with
  | nil => rfl
  | cons c rest => simp [ends_cons.mp h]

theorem takeWhile_of_ends (h : Ends base rest) : (rest.takeWhile fun c => (digitValue? base c).isSome) = [] := by
  cases rest with
  | nil => rfl
  | cons c rest => simp [ends_cons.mp h]

/-- Digits are read as their number. -/
theorem readNumber_append (h : Writes base n ds) (hn : n < below) (hmost : ∀ m ∈ most, ds.length ≤ m)
    (hzeros : zeros = true ∨ (ds.head? = some '0' → ds.length ≤ 1)) (hrest : Ends base rest) :
    readNumber base below most zeros (ds ++ rest) = some (n, rest) := by
  have hds : ((ds ++ rest).takeWhile fun c => (digitValue? base c).isSome) = ds := by
    rw [List.takeWhile_append_of_pos h.digits, takeWhile_of_ends hrest, List.append_nil]
  have hempty : ds.isEmpty = false := by simpa using h.nonempty
  have hnumber : decide (below ≤ n) = false := by simpa using hn
  have hleading : ¬ (!zeros && decide (ds.head? = some '0') && decide (1 < ds.length)) = true := by
    simp only [Bool.and_eq_true, Bool.not_eq_true', decide_eq_true_eq]
    rintro ⟨⟨hzero, hhead⟩, hlong⟩
    rcases hzeros with hzeros | hzeros
    · simp [hzero] at hzeros
    · exact absurd (hzeros hhead) (Nat.not_le.mpr hlong)
  unfold readNumber
  dsimp only
  rw [hds, h.value, hempty, hnumber, if_neg hleading, List.drop_left]
  cases most with
  | none => rfl
  | some m => simp [hmost m rfl]

/-- Where no digit comes first there is no number. -/
theorem readNumber_of_ends (h : Ends base rest) : readNumber base below most zeros rest = none := by
  simp [readNumber, takeWhile_of_ends h]

/-- Behind a number stands what follows all the digits. -/
theorem rest_of_readNumber (h : readNumber base below most zeros cs = some (n, rest)) :
    rest = cs.dropWhile fun c => (digitValue? base c).isSome := by
  simp only [readNumber, Option.ite_none_left_eq_some, Option.some.injEq, Prod.mk.injEq] at h
  obtain ⟨-, -, -, rfl⟩ := h
  let isDigit := fun c => (digitValue? base c).isSome
  calc cs.drop (cs.takeWhile isDigit).length
    _ = (cs.takeWhile isDigit ++ cs.dropWhile isDigit).drop (cs.takeWhile isDigit).length := by
      rw [List.takeWhile_append_dropWhile]
    _ = cs.dropWhile isDigit := List.drop_left

theorem digitValue?_of_isDigit (h : c.isDigit) (base : Nat) : digitValue? base c = some (c.toNat - 48) := by
  have hrange : '0' ≤ c ∧ c ≤ '9' := by
    simp only [Char.isDigit, Bool.and_eq_true, decide_eq_true_eq] at h
    exact h
  rw [digitValue?, if_pos hrange]

theorem isDigit_toString (n : Nat) : ∀ c ∈ (toString n).toList, c.isDigit := by
  intro c hc
  rw [Nat.toString_eq_repr, Nat.toList_repr] at hc
  exact Nat.isDigit_of_mem_toDigits (by decide) (by decide) hc

theorem writes_toString (n : Nat) : Writes 10 n (toString n).toList where
  nonempty := by simp [Nat.toDigits_ne_nil]
  digits c hc := by simp [digitValue?_of_isDigit (isDigit_toString n c hc)]
  value := by
    have hvalue : (toString n).toList.foldl (fun n c => n * 10 + (digitValue? 10 c).getD 0) 0 =
        Nat.ofDigitChars 10 (toString n).toList 0 := by
      refine List.foldl_ext _ _ 0 fun m c hc => ?_
      rw [digitValue?_of_isDigit (isDigit_toString n c hc), Option.getD_some, Nat.mul_comm]
      rfl
    rw [hvalue, Nat.toString_eq_repr, Nat.toList_repr, Nat.ofDigitChars_ten_toDigits]

/-- No zero stands in front of other digits. -/
theorem length_toString_of_head? (h : (toString n).toList.head? = some '0') : (toString n).toList.length ≤ 1 := by
  rw [Nat.toString_eq_repr, Nat.toList_repr] at h ⊢
  have hhead : (Json.digits n).head? = some 0x30 := by simp [Json.digits, h]
  have hlength := Json.length_digits_of_head? n hhead
  rw [Json.digits, List.length_map] at hlength
  exact Nat.le_of_eq hlength

/-- A number in decimal digits comes back. -/
theorem readNumber_toString (hn : n < below) (hrest : Ends 10 rest) :
    readNumber 10 below none true ((toString n).toList ++ rest) = some (n, rest) :=
  readNumber_append (writes_toString n) hn nofun (.inl rfl) hrest

/-! ## IPv4 -/

theorem readChar_cons (c : Char) (rest : List Char) : readChar c (c :: rest) = some ((), rest) := if_pos rfl

theorem readChar_of_ne (h : cs.head? ≠ some c) : readChar c cs = none := by
  cases cs with
  | nil => rfl
  | cons d rest => exact if_neg fun hd => h (by rw [hd, List.head?_cons])

/-- A part of an IPv4 address comes back. -/
theorem readPart_append (hn : n < 256) (hrest : Ends 10 rest) :
    readNumber 10 256 (some 3) false ((toString n).toList ++ rest) = some (n, rest) := by
  have hlength : (toString n).toList.length ≤ 3 := by
    rw [Nat.toString_eq_repr, Nat.toList_repr, Nat.length_toDigits_le_iff (by decide) (by decide)]
    omega
  exact readNumber_append (writes_toString n) hn (by simpa using hlength) (.inr length_toString_of_head?) hrest

/-- **An IPv4 address comes back.** -/
theorem readV4_append (ip : UInt32) (hrest : Ends 10 rest) :
    readV4 ((v4Text ip).toList ++ rest) = some (ip, rest) := by
  have hpoint (cs : List Char) : Ends 10 ('.' :: cs) := ends_cons.mpr (by decide)
  have hpart (i : Nat) : ip.toNat / 256 ^ i % 256 < 256 := Nat.mod_lt _ (by decide)
  have hparts : ((ip.toNat / 256 ^ 3 % 256 * 256 + ip.toNat / 256 ^ 2 % 256) * 256 + ip.toNat / 256 ^ 1 % 256) * 256 +
      ip.toNat / 256 ^ 0 % 256 = ip.toNat := by
    have := ip.toNat_lt
    omega
  simp only [v4Text, String.toList_append, List.append_assoc, show ".".toList = ['.'] from rfl, List.cons_append,
    List.nil_append]
  simp only [readV4, readPart_append (hpart _) (hpoint _), readPart_append (hpart _) hrest, readChar_cons,
    Option.bind_eq_bind, Option.bind_some, hparts, UInt32.ofNat_toNat]

/-- Without a point behind the first digits there is no IPv4 address. -/
theorem readV4_of_ne (h : (cs.dropWhile fun c => (digitValue? 10 c).isSome).head? ≠ some '.') :
    readV4 cs = none := by
  unfold readV4
  cases hpart : readNumber 10 256 (some 3) false cs with
  | none => simp only [hpart, Option.bind_eq_bind, Option.bind_none]
  | some r =>
    obtain ⟨n, rest⟩ := r
    rw [← rest_of_readNumber hpart] at h
    simp only [hpart, readChar_of_ne h, Option.bind_eq_bind, Option.bind_some, Option.bind_none]

theorem readV4_of_ends (h : Ends 10 rest) : readV4 rest = none := by
  simp [readV4, readNumber_of_ends h]

/-! ## Groups -/

theorem digitValue?_digit : ∀ d < 16, digitValue? 16 (Hex.digit d) = some d := by decide

theorem writes_hex {ds : List Nat} (hne : ds ≠ []) (hds : ∀ d ∈ ds, d < 16) :
    Writes 16 (ds.foldl (fun n d => n * 16 + d) 0) (ds.map Hex.digit) where
  nonempty := by simpa using hne
  digits := by
    rw [List.forall_mem_map]
    intro d hd
    rw [digitValue?_digit d (hds d hd)]
    rfl
  value := by
    rw [List.foldl_map]
    refine List.foldl_ext _ _ 0 fun n d hd => ?_
    rw [digitValue?_digit d (hds d hd), Option.getD_some]

/-- A group is written in one to four hexadecimal digits. -/
theorem writes_groupText (h : g < 65536) :
    Writes 16 g (groupText g).toList ∧ (groupText g).toList.length ≤ 4 := by
  suffices hdigits : ∃ ds : List Nat, ds ≠ [] ∧ (∀ d ∈ ds, d < 16) ∧ ds.foldl (fun n d => n * 16 + d) 0 = g ∧
      ds.length ≤ 4 ∧ groupText g = String.ofList (ds.map Hex.digit) by
    obtain ⟨ds, hne, hds, rfl, hlength, htext⟩ := hdigits
    rw [htext, String.toList_ofList, List.length_map]
    exact ⟨writes_hex hne hds, hlength⟩
  unfold groupText
  split
  · exact ⟨[g], by simp; omega⟩
  · split
    · exact ⟨[g / 16, g % 16], by simp; omega⟩
    · split
      · exact ⟨[g / 256, g / 16 % 16, g % 16], by simp; omega⟩
      · exact ⟨[g / 4096, g / 256 % 16, g / 16 % 16, g % 16], by simp; omega⟩

/-- The characters of groups, with a colon in front of every group but the first. -/
def groupsChars : (first : Bool) → List Nat → List Char
  | _, [] => []
  | first, g :: gs => (if first then [] else [':']) ++ ((groupText g).toList ++ groupsChars false gs)

theorem toList_groupsText (gs : List Nat) : (groupsText gs).toList = groupsChars true gs := by
  induction gs with
  | nil => simp [groupsText, groupsChars]
  | cons g gs ih =>
    cases gs with
    | nil => simp [groupsText, groupsChars]
    | cons g' gs =>
      rw [groupsText, List.map_cons, List.map_cons, String.intercalate_cons_cons, ← List.map_cons, ← groupsText]
      simp [ih, groupsChars]

/-- A group ends here, and it is not the first part of an IPv4 address. -/
structure EndsGroup (rest : List Char) : Prop where
  ends : Ends 16 rest
  ne_point : rest.head? ≠ some '.'

/-- All groups end here: no colon with another group behind it follows. -/
structure Closes (rest : List Char) : Prop extends EndsGroup rest where
  no_group : ∀ cs, rest = ':' :: cs → Ends 16 cs

/-- The digits of a group do not start an IPv4 address, even where all of them are decimal ones. -/
theorem readV4_of_hex (hds : ∀ c ∈ ds, (digitValue? 16 c).isSome) (hrest : EndsGroup rest) :
    readV4 (ds ++ rest) = none := by
  refine readV4_of_ne ?_
  rw [List.dropWhile_append, dropWhile_of_ends hrest.ends.decimal]
  split
  · exact hrest.ne_point
  · next hempty =>
    -- The digits are not all decimal, and the first other one is no point.
    obtain ⟨d, ds', hd⟩ := List.exists_cons_of_ne_nil (mt List.isEmpty_iff.mpr hempty)
    have hmem : d ∈ ds := (List.dropWhile_suffix _).mem (hd ▸ List.mem_cons_self)
    rw [hd, List.cons_append, List.head?_cons]
    rintro ⟨⟩
    exact absurd (hds _ hmem) (by decide)

theorem separator_append (first : Bool) (cs : List Char) :
    separator first ((if first then [] else [':']) ++ cs) = some ((), cs) := by
  cases first with
  | true => rfl
  | false => exact readChar_cons ':' cs

/-- Behind a separator that stands in front of a closed text there is no digit. -/
theorem Closes.ends_of_separator (h : Closes rest) (hcs : separator first rest = some ((), cs)) : Ends 16 cs := by
  cases first with
  | true =>
    cases hcs
    exact h.ends
  | false =>
    cases rest with
    | nil => cases hcs
    | cons d rest =>
      simp only [separator, readChar, Bool.false_eq_true, if_false, Option.ite_none_right_eq_some] at hcs
      obtain ⟨rfl, hcs⟩ := hcs
      cases hcs
      exact h.no_group _ rfl

theorem readGroups_of_closes (h : Closes rest) : readGroups limit first rest = ([], false, rest) := by
  cases limit with
  | zero => rfl
  | succ limit =>
    cases hsep : separator first rest with
    | none => simp [readGroups, hsep]
    | some r =>
      have hends : Ends 16 r.2 := h.ends_of_separator hsep
      simp [readGroups, hsep, readV4_of_ends hends.decimal, readNumber_of_ends hends]

/-- A group is read, and those behind it. -/
theorem readGroups_cons (hg : g < 65536) (hrest : EndsGroup rest) :
    readGroups (limit + 1) first ((if first then [] else [':']) ++ ((groupText g).toList ++ rest)) =
      (g :: (readGroups limit false rest).1, (readGroups limit false rest).2) := by
  obtain ⟨hwrites, hlength⟩ := writes_groupText hg
  have hgroup : readNumber 16 65536 (some 4) true ((groupText g).toList ++ rest) = some (g, rest) :=
    readNumber_append hwrites hg (by simpa using hlength) (.inl rfl) hrest.ends
  have hv4 := readV4_of_hex hwrites.digits hrest
  simp [readGroups, separator_append, hv4, hgroup]

/-- Groups come back. -/
theorem readGroups_append (hgs : ∀ g ∈ gs, g < 65536) (hlength : gs.length ≤ limit) (hrest : Closes rest) :
    readGroups limit first (groupsChars first gs ++ rest) = (gs, false, rest) := by
  induction gs generalizing limit first with
  | nil => exact readGroups_of_closes hrest
  | cons g gs ih =>
    obtain ⟨hg, hgs⟩ := List.forall_mem_cons.mp hgs
    -- Behind a group stands the colon of the next one, or what follows all of them.
    have hmore : EndsGroup (groupsChars false gs ++ rest) := by
      cases gs with
      | nil => exact hrest.toEndsGroup
      | cons g' gs => exact ⟨ends_cons.mpr (by decide), by simp [groupsChars]⟩
    cases limit with
    | zero => cases hlength
    | succ limit =>
      rw [groupsChars, List.append_assoc, List.append_assoc, readGroups_cons hg hmore,
        ih hgs (Nat.le_of_succ_le_succ hlength)]

/-! ## IPv6 -/

/-- Groups by division stand for the number as far as they go. -/
theorem foldl_groups (n k : Nat) :
    ((List.range k).map fun i => n / 65536 ^ (k - 1 - i) % 65536).foldl (fun n g => n * 65536 + g) 0 =
      n % 65536 ^ k := by
  induction k generalizing n with
  | zero => simp [Nat.mod_one]
  | succ k ih =>
    -- In front of the last group are those of the number without it.
    have hfront : ((List.range k).map fun i => n / 65536 ^ (k + 1 - 1 - i) % 65536) =
        (List.range k).map fun i => n / 65536 / 65536 ^ (k - 1 - i) % 65536 := by
      refine List.map_congr_left fun i hi => ?_
      have hk : k + 1 - 1 - i = k - 1 - i + 1 := by
        have := List.mem_range.mp hi
        omega
      rw [hk, Nat.pow_succ', Nat.div_div_eq_div_mul]
    rw [List.range_succ, List.map_append, List.foldl_append, hfront, ih, Nat.pow_succ', Nat.mod_mul]
    simp only [List.map_cons, List.map_nil, List.foldl_cons, List.foldl_nil, Nat.add_sub_cancel, Nat.sub_self,
      Nat.pow_zero, Nat.div_one]
    omega

theorem ofGroups_groups (ip : BitVec 128) : ofGroups (groups ip) = ip := by
  have hlt : ip.toNat < 65536 ^ 8 := ip.isLt
  rw [ofGroups, groups, foldl_groups ip.toNat 8, Nat.mod_eq_of_lt hlt, BitVec.ofNat_toNat, BitVec.setWidth_eq]

theorem lt_of_mem_groups (ip : BitVec 128) : ∀ g ∈ groups ip, g < 65536 := by
  simp only [groups, List.forall_mem_map]
  exact fun i _ => Nat.mod_lt _ (by decide)

theorem length_groups (ip : BitVec 128) : (groups ip).length = 8 := by simp [groups]

/-- Where a run of zeros is counted there are as many zeros. -/
theorem zeros_of_getElem?_zeroRuns {k i : Nat} (h : (zeroRuns gs)[i]? = some k) :
    List.replicate k 0 <+: gs.drop i := by
  induction gs generalizing i k with
  | nil => simp [zeroRuns] at h
  | cons g gs ih =>
    cases i with
    | zero =>
      obtain rfl : (if g = 0 then (zeroRuns gs).headD 0 + 1 else 0) = k := by simpa [zeroRuns] using h
      split
      · next hg =>
        rw [hg, List.replicate_succ, List.drop_zero, List.prefix_cons_inj]
        cases hruns : zeroRuns gs with
        | nil => exact List.nil_prefix
        | cons m ms => simpa using ih (i := 0) (by rw [hruns]; rfl)
      · exact List.nil_prefix
    | succ i => exact ih (by simpa [zeroRuns] using h)

/-- At the place of the longest run there are as many zeros. -/
theorem zeros_longestZeros (gs : List Nat) :
    List.replicate (longestZeros gs).2 0 <+: gs.drop (longestZeros gs).1 := by
  unfold longestZeros
  refine List.foldlRecOn (motive := fun run : Nat × Nat => List.replicate run.2 0 <+: gs.drop run.1) _ _
    List.nil_prefix fun best hbest run hrun => ?_
  dsimp only
  split
  · exact zeros_of_getElem?_zeroRuns (List.mem_zipIdx_iff_getElem?.mp hrun)
  · exact hbest

/-- Zeros in the place of a run of zeros change nothing. -/
theorem take_append_zeros {start length : Nat} (h : List.replicate length 0 <+: gs.drop start) :
    gs.take start ++ List.replicate length 0 ++ gs.drop (start + length) = gs := by
  obtain ⟨back, hback⟩ := h
  have hdrop : gs.drop (start + length) = back := by
    rw [← List.drop_drop, ← hback]
    simp
  rw [hdrop, List.append_assoc, hback, List.take_append_drop]

theorem closes_cons (hdigit : digitValue? 16 c = none) (hpoint : c ≠ '.') (hcolon : c ≠ ':') :
    Closes (c :: rest) where
  ends := ends_cons.mpr hdigit
  ne_point := by simpa using hpoint
  no_group _ h := absurd (List.cons.inj h).1 hcolon

theorem closes_colons (rest : List Char) : Closes (':' :: ':' :: rest) where
  ends := ends_cons.mpr (by decide)
  ne_point := by simp
  no_group _ h := (List.cons.inj h).2 ▸ ends_cons.mpr (by decide)

theorem readV6_groups (hgs : ∀ g ∈ gs, g < 65536) (hlength : gs.length = 8) (hrest : Closes rest) :
    readV6 (groupsChars true gs ++ rest) = some (ofGroups gs, rest) := by
  simp [readV6, readGroups_append hgs (Nat.le_of_eq hlength) hrest, hlength]

/-- What is read behind a double colon. -/
theorem readV6_colons {front back : List Nat} {mapped : Bool} {cs : List Char} (hgs : ∀ g ∈ front, g < 65536)
    (hlength : front.length < 8) (hback : readGroups (7 - front.length) true cs = (back, mapped, rest)) :
    readV6 (groupsChars true front ++ ':' :: ':' :: cs) =
      some (ofGroups (front ++ List.replicate (8 - front.length - back.length) 0 ++ back), rest) := by
  simp [readV6, readGroups_append hgs (Nat.le_of_lt hlength) (closes_colons cs), Nat.ne_of_lt hlength,
    readChar_cons, hback]

/-- An IPv4 address in the place of two groups. -/
theorem readGroups_v4 (ip : UInt32) (hlimit : limit ≠ 0) (hrest : Ends 10 rest) :
    readGroups (limit + 1) false (':' :: ((v4Text ip).toList ++ rest)) =
      ([ip.toNat / 65536, ip.toNat % 65536], true, rest) := by
  simp [readGroups, separator, readChar_cons, readV4_append ip hrest, hlimit]

theorem ofGroups_mapped {ip : BitVec 128} (h : ip.toNat / 2 ^ 32 = 0xffff) :
    ofGroups (List.replicate 5 0 ++ [0xffff, ip.toNat % 2 ^ 32 / 65536, ip.toNat % 2 ^ 32 % 65536]) = ip := by
  refine BitVec.eq_of_toNat_eq ?_
  have := ip.isLt
  simp only [ofGroups, List.replicate, List.cons_append, List.nil_append, List.foldl_cons, List.foldl_nil,
    BitVec.toNat_ofNat]
  omega

/-- A mapped IPv4 address comes back. -/
theorem readV6_mapped {ip : BitVec 128} (h : ip.toNat / 2 ^ 32 = 0xffff) (hrest : Closes rest) :
    readV6 (("::ffff:" ++ v4Text (UInt32.ofNat (ip.toNat % 2 ^ 32))).toList ++ rest) = some (ip, rest) := by
  have htext : "::ffff:".toList = groupsChars true [] ++ ':' :: ':' :: ((groupText 0xffff).toList ++ [':']) := by
    decide
  have hgroup (cs : List Char) : readGroups 7 true ((groupText 0xffff).toList ++ ':' :: cs) =
      (0xffff :: (readGroups 6 false (':' :: cs)).1, (readGroups 6 false (':' :: cs)).2) := by
    have hends : EndsGroup (':' :: cs) := ⟨ends_cons.mpr (by decide), by simp⟩
    exact readGroups_cons (show 0xffff < 65536 by decide) hends
  have hback := hgroup ((v4Text (UInt32.ofNat (ip.toNat % 2 ^ 32))).toList ++ rest)
  rw [readGroups_v4 _ (by decide) hrest.ends.decimal, UInt32.toNat_ofNat_of_lt' (Nat.mod_lt _ (by decide))] at hback
  have hread := readV6_colons (List.forall_mem_nil _) (by decide) hback
  rw [String.toList_append, htext]
  simp only [List.append_assoc, List.cons_append, List.nil_append]
  exact hread.trans (congrArg (fun a => some (a, rest)) (ofGroups_mapped h))

/-- Groups with a run of zeros left out come back. -/
theorem readV6_zeros {start length : Nat} (hgs : ∀ g ∈ gs, g < 65536) (hlength : gs.length = 8)
    (hlong : 1 < length) (hzeros : List.replicate length 0 <+: gs.drop start) (hrest : Closes rest) :
    readV6 ((groupsText (gs.take start) ++ "::" ++ groupsText (gs.drop (start + length))).toList ++ rest) =
      some (ofGroups gs, rest) := by
  have hin := hzeros.length_le
  rw [List.length_replicate, List.length_drop, hlength] at hin
  have hfront : (gs.take start).length = start := by
    rw [List.length_take]
    omega
  have hback : (gs.drop (start + length)).length = 8 - start - length := by
    rw [List.length_drop]
    omega
  have hread : readGroups (7 - (gs.take start).length) true (groupsChars true (gs.drop (start + length)) ++ rest) =
      (gs.drop (start + length), false, rest) :=
    readGroups_append (fun g hg => hgs g (List.mem_of_mem_drop hg)) (by omega) hrest
  have hrun : 8 - start - (8 - start - length) = length := by omega
  rw [String.toList_append, String.toList_append, toList_groupsText, toList_groupsText,
    show "::".toList = [':', ':'] from rfl]
  simp only [List.append_assoc, List.cons_append, List.nil_append]
  rw [readV6_colons (fun g hg => hgs g (List.mem_of_mem_take hg)) (by omega) hread, hfront, hback, hrun,
    take_append_zeros hzeros]

/-- **An IPv6 address comes back.** -/
theorem readV6_append (ip : BitVec 128) (hrest : Closes rest) :
    readV6 ((v6Text ip).toList ++ rest) = some (ip, rest) := by
  unfold v6Text
  split
  · next hmapped => exact readV6_mapped hmapped hrest
  · dsimp only
    split
    · next hlong =>
      rw [readV6_zeros (lt_of_mem_groups ip) (length_groups ip) hlong (zeros_longestZeros (groups ip)) hrest,
        ofGroups_groups]
    · rw [toList_groupsText, readV6_groups (lt_of_mem_groups ip) (length_groups ip) hrest, ofGroups_groups]

/-! ## Socket addresses -/

theorem readEndpoint_append (endpoint : UInt16) (hrest : Ends 10 rest) :
    readEndpoint (':' :: ((toString endpoint.toNat).toList ++ rest)) = some (endpoint, rest) := by
  simp only [readEndpoint, readChar_cons, readNumber_toString endpoint.toNat_lt hrest, Option.bind_eq_bind,
    Option.bind_some, UInt16.ofNat_toNat]

/-- The text of a scope. -/
def scopeText (scope : UInt32) : String := if scope = 0 then "" else "%" ++ toString scope.toNat

theorem closes_scopeText (scope : UInt32) (rest : List Char) : Closes ((scopeText scope).toList ++ ']' :: rest) := by
  unfold scopeText
  split
  · exact closes_cons (by decide) (by decide) (by decide)
  · rw [String.toList_append]
    exact closes_cons (by decide) (by decide) (by decide)

theorem readScope_append (scope : UInt32) (rest : List Char) :
    readScope ((scopeText scope).toList ++ ']' :: rest) = some (scope, ']' :: rest) := by
  unfold scopeText
  split
  · next hscope =>
    rw [hscope]
    rfl
  · have hends : Ends 10 (']' :: rest) := ends_cons.mpr (by decide)
    rw [String.toList_append, show "%".toList = ['%'] from rfl, List.append_assoc, List.singleton_append]
    simp only [readScope, readChar_cons, readNumber_toString scope.toNat_lt hends, Option.bind_eq_bind,
      Option.bind_some, UInt32.ofNat_toNat]

/-- The address in front of a text. -/
def read? : Parse SocketAddress := fun cs => (socketV4 cs).or (socketV6 cs)

/-- **A socket address comes back,** up to a character that is no digit. -/
theorem read?_append (a : SocketAddress) (hrest : Ends 10 rest) : read? (a.text.toList ++ rest) = some (a, rest) := by
  cases a with
  | v4 ip endpoint =>
    have hends (cs : List Char) : Ends 10 (':' :: cs) := ends_cons.mpr (by decide)
    rw [text, String.toList_append, String.toList_append, show ":".toList = [':'] from rfl]
    simp only [List.append_assoc, List.cons_append, List.nil_append]
    simp only [read?, socketV4, readV4_append ip (hends _), readEndpoint_append endpoint hrest, Option.bind_eq_bind,
      Option.bind_some, Option.some_or]
  | v6 ip endpoint scope =>
    have hends (cs : List Char) : Ends 10 ('[' :: cs) := ends_cons.mpr (by decide)
    have htext : (text (.v6 ip endpoint scope)).toList ++ rest = '[' :: ((v6Text ip).toList ++
        ((scopeText scope).toList ++ ']' :: ':' :: ((toString endpoint.toNat).toList ++ rest))) := by
      simp [text, scopeText]
    rw [htext]
    -- No IPv4 address starts with a bracket.
    simp only [read?, socketV4, readV4_of_ends (hends _), Option.bind_eq_bind, Option.bind_none, Option.none_or]
    simp only [socketV6, readChar_cons, readV6_append ip (closes_scopeText _ _), readScope_append,
      readEndpoint_append endpoint hrest, Option.bind_eq_bind, Option.bind_some]

/-- **Every address is what its text is read as.** So each address is expressed by a text. -/
theorem parse?_text (a : SocketAddress) : parse? a.text = some a := by
  have hread := read?_append a ends_nil
  rw [List.append_nil] at hread
  unfold parse?
  cases hv4 : socketV4 a.text.toList with
  | some r =>
    obtain rfl : r = (a, []) := by simpa [read?, hv4] using hread
    rfl
  | none =>
    have hv6 : socketV6 a.text.toList = some (a, []) := by simpa [read?, hv4] using hread
    simp only [hv6]

/-- Different addresses have different texts. -/
theorem text_injective : Function.Injective text := fun a b h =>
  Option.some.inj (by rw [← parse?_text a, h, parse?_text b])

/-- Texts in front of something that is no digit are told apart. Digits behind them would belong to the endpoint. -/
theorem text_append_inj {a b : SocketAddress} {rest' : List Char} (hrest : Ends 10 rest) (hrest' : Ends 10 rest')
    (h : a.text.toList ++ rest = b.text.toList ++ rest') : a = b ∧ rest = rest' := by
  have hread := read?_append a hrest
  rw [h, read?_append b hrest'] at hread
  simpa [eq_comm] using hread

end Rpc.SocketAddress
