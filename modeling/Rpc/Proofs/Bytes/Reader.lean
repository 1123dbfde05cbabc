import Rpc.Bytes.Reader

/-!
# Reading back what was written

A writer puts a value in front of the bytes that follow it, and a reader takes it off again. What is known of a reader
on what was written carries over to sequences (`Reader.bind_eq`), to lists of a given length (`Reader.count_foldr`) and
to lists with commas (`Reader.separated_writeSeparated`).
-/

namespace Rpc.Reader

variable {α β : Type} {a : α} {bs rest : Bytes}

/-- What follows a reader goes on from its value and from the bytes behind it. -/
theorem bind_eq {x : Reader α} (f : α → Reader β) (h : x bs = some (a, rest)) : (x >>= f) bs = f a rest := by
  simp [bind, StateT.bind, h]

theorem pure_eq (a : α) (bs : Bytes) : (pure a : Reader α) bs = some (a, bs) := rfl

theorem ofOption_some (a : α) (bs : Bytes) : ofOption (some a) bs = some (a, bs) := rfl

theorem take_append {front : Bytes} {n : Nat} (h : front.length = n) : take n (front ++ rest) = some (front, rest) := by
  simp [take, ← h]

theorem literal_append (bs rest : Bytes) : literal bs (bs ++ rest) = some ((), rest) := by
  induction bs with
  | nil => rfl
  | cons b bs ih => simp [literal, ih]

theorem lt_length_cons_append (b : UInt8) (bs rest : Bytes) : rest.length < (b :: (bs ++ rest)).length := by
  rw [List.length_cons, List.length_append]
  omega

/-! ## Lists of a given length -/

section Count

variable {item : Reader α} {write : α → Bytes → Bytes} {bound : Nat} {as : List α}

theorem length_le_length_foldr (hwrite : ∀ a rest, rest.length < (write a rest).length) (as : List α) (rest : Bytes) :
    as.length + rest.length ≤ (as.foldr write rest).length := by
  induction as with
  | nil => simp
  | cons a as ih =>
    have := hwrite a (as.foldr write rest)
    rw [List.foldr_cons, List.length_cons]
    omega

/-- If each item is read back, so is the list, behind the items read before. -/
theorem countFrom_foldr (hwrite : ∀ a rest, rest.length < (write a rest).length)
    (hitem : ∀ a ∈ as, ∀ rest, (write a rest).length < bound → item (write a rest) = some (a, rest))
    (hbound : (as.foldr write rest).length < bound) (done : List α) :
    countFrom item as.length done (as.foldr write rest) = some (done.reverse ++ as, rest) := by
  induction as generalizing done with
  | nil => simp [countFrom]
  | cons a as ih =>
    obtain ⟨ha, has⟩ := List.forall_mem_cons.mp hitem
    have hrest : (as.foldr write rest).length < bound := Nat.lt_trans (hwrite a _) hbound
    rw [List.foldr_cons, List.length_cons, countFrom, ha _ hbound]
    simp only [ih has hrest, List.reverse_cons, List.append_assoc, List.singleton_append]

/-- If each item is read back, so is the list. -/
theorem count_foldr (hwrite : ∀ a rest, rest.length < (write a rest).length)
    (hitem : ∀ a ∈ as, ∀ rest, (write a rest).length < bound → item (write a rest) = some (a, rest))
    (hbound : (as.foldr write rest).length < bound) :
    count item as.length (as.foldr write rest) = some (as, rest) :=
  countFrom_foldr hwrite hitem hbound []

end Count

/-! ## Lists with commas -/

section Separated

variable {blanks : Reader Unit} {item : Reader α} {write : α → Bytes → Bytes} {comma close : UInt8} {as : List α}

/-- Items with `comma` between them and `close` behind them, in front of `rest`. -/
def writeSeparated (write : α → Bytes → Bytes) (comma close : UInt8) (rest : Bytes) : List α → Bytes
  | [] => close :: rest
  | a :: as => write a (as.foldr (fun a rest => comma :: write a rest) (close :: rest))

/-- The bytes behind an item are neither skipped as blanks nor read as a part of it. -/
structure Stops (blanks : Reader Unit) (item : Reader α) (write : α → Bytes → Bytes) (a : α) (b : UInt8) : Prop where
  blanks : ∀ rest, blanks (b :: rest) = some ((), b :: rest)
  item : ∀ rest, item (write a (b :: rest)) = some (a, b :: rest)

theorem separatedFrom_foldr (hne : comma ≠ close) {fuel : Nat} {a : α} (hfuel : as.length < fuel)
    (hcomma : ∀ a' ∈ a :: as, Stops blanks item write a' comma)
    (hclose : ∀ a' ∈ a :: as, Stops blanks item write a' close) (done : List α) :
    separatedFrom blanks item comma close fuel done
        (write a (as.foldr (fun a rest => comma :: write a rest) (close :: rest))) =
      some (done.reverse ++ a :: as, rest) := by
  induction as generalizing a fuel done with
  | nil =>
    obtain ⟨fuel, rfl⟩ := Nat.exists_eq_succ_of_ne_zero (Nat.ne_of_gt hfuel)
    have hstops := hclose a List.mem_cons_self
    simp [separatedFrom, hstops.item, hstops.blanks]
  | cons a' as ih =>
    obtain ⟨fuel, rfl⟩ := Nat.exists_eq_succ_of_ne_zero (Nat.ne_of_gt (Nat.zero_lt_of_lt hfuel))
    obtain ⟨hhead, hcomma⟩ := List.forall_mem_cons.mp hcomma
    have hrest := ih (Nat.lt_of_succ_lt_succ hfuel) hcomma (List.forall_mem_cons.mp hclose).2 (a :: done)
    simp [separatedFrom, hhead.item, hhead.blanks, hne, hrest]

/-- If each item is read back, so is the list with commas. -/
theorem separated_writeSeparated (hne : comma ≠ close) (hwrite : ∀ a rest, rest.length ≤ (write a rest).length)
    (hempty : blanks (close :: rest) = some ((), close :: rest))
    (hfirst : ∀ a ∈ as, ∀ rest, ∃ b tail, write a rest = b :: tail ∧ b ≠ close ∧
      blanks (b :: tail) = some ((), b :: tail))
    (hcomma : ∀ a ∈ as, Stops blanks item write a comma) (hclose : ∀ a ∈ as, Stops blanks item write a close) :
    separated blanks item comma close (writeSeparated write comma close rest as) = some (as, rest) := by
  cases as with
  | nil => simp [separated, writeSeparated, hempty]
  | cons a as =>
    obtain ⟨b, tail, hstart, hb, hblanks⟩ := hfirst a List.mem_cons_self
      (as.foldr (fun a rest => comma :: write a rest) (close :: rest))
    have hfuel : as.length < tail.length + 1 := by
      have hstep (a : α) (rest : Bytes) : rest.length < (comma :: write a rest).length :=
        Nat.lt_succ_of_le (hwrite a rest)
      have hlist := length_le_length_foldr hstep as (close :: rest)
      have hitem := hwrite a (as.foldr (fun a rest => comma :: write a rest) (close :: rest))
      rw [hstart, List.length_cons] at hitem
      rw [List.length_cons] at hlist
      omega
    rw [writeSeparated, separated, hstart, hblanks]
    simp only [hb, if_false]
    rw [← hstart]
    exact separatedFrom_foldr hne hfuel hcomma hclose []

end Separated

end Rpc.Reader
