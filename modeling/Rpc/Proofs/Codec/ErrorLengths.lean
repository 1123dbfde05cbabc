import Rpc.Proofs.Cbor.Heads
import Rpc.Proofs.Frame.Limits
import Rpc.Proofs.Json.Values

/-!
# Lengths of errors

How long the body of a response with an error can be. A writer that puts a text in front of other bytes adds at most so
many bytes to them (`Adds`), and writers one after the other add what each of them adds. A message is plain if JSON
writes it without escapes (`Json.Plain`).

- `Json.adds_writeResponse`, `Cbor.adds_writeResponse`: a response with an error, by the length of its message.
-/

namespace Rpc

/-- A writer puts at most `n` bytes in front of others. -/
def Adds (n : Nat) (write : Bytes → Bytes) : Prop := ∀ rest, (write rest).length ≤ n + rest.length

namespace Adds

variable {m n : Nat} {f g : Bytes → Bytes}

/-- Writers one after the other. -/
theorem comp (hf : Adds m f) (hg : Adds n g) : Adds (m + n) fun rest => f (g rest) := fun rest => by
  have := hf (g rest)
  have := hg rest
  show (f (g rest)).length ≤ m + n + rest.length
  omega

theorem mono (hf : Adds m f) (h : m ≤ n) : Adds n f := fun rest => Nat.le_trans (hf rest) (Nat.add_le_add_right h _)

theorem byte (b : UInt8) : Adds 1 (b :: ·) := fun rest => by simp [Nat.add_comm]

end Adds

/-! ## JSON -/

namespace Json

/-- The byte stands between quotes as it is. -/
def IsVerbatim (b : UInt8) : Prop := escapeLetter? b = none ∧ ¬ b < 0x20

instance : DecidablePred IsVerbatim := fun b => inferInstanceAs (Decidable (escapeLetter? b = none ∧ ¬ b < 0x20))

theorem escape_of_isVerbatim {b : UInt8} (h : IsVerbatim b) (rest : Bytes) : escape b rest = b :: rest := by
  rw [escape, h.1]
  exact if_neg h.2

/-- The text has at most `n` bytes, all plain. -/
structure Plain (n : Nat) (s : String) : Prop where
  length_le : (Bytes.ofString s).length ≤ n
  unescaped : ∀ b ∈ Bytes.ofString s, IsVerbatim b

variable {m n : Nat} {s t : String}

theorem plain_of_all (hlen : (Bytes.ofString s).length ≤ n)
    (hall : ((Bytes.ofString s).all fun b => decide (IsVerbatim b)) = true) : Plain n s :=
  ⟨hlen, by simpa using hall⟩

theorem Plain.append (hs : Plain m s) (ht : Plain n t) : Plain (m + n) (s ++ t) where
  length_le := by
    rw [Bytes.ofString_append, List.length_append]
    exact Nat.add_le_add hs.length_le ht.length_le
  unescaped := by
    rw [Bytes.ofString_append]
    exact List.forall_mem_append.mpr ⟨hs.unescaped, ht.unescaped⟩

/-- A number below `10 ^ n` has at most `n` digits. -/
theorem length_digits_le {k : Nat} (hn : 0 < n) (h : k < 10 ^ n) : (digits k).length ≤ n := by
  refine digits_induction (P := fun k ds => ∀ n, 0 < n → k < 10 ^ n → ds.length ≤ n) ?_ ?_ k n hn h
  · intro d _ n hn _
    exact hn
  · intro k ds d hk _ ih n hn hlt
    obtain ⟨n, rfl⟩ := Nat.exists_eq_succ_of_ne_zero (Nat.ne_of_gt hn)
    rw [Nat.succ_eq_add_one, Nat.pow_succ] at hlt
    have hn : 0 < n := Nat.pos_of_ne_zero fun h0 => by subst h0; omega
    rw [List.length_append, List.length_singleton]
    exact Nat.succ_le_succ (ih n hn (by omega))

theorem isVerbatim_of_mem_digits {k : Nat} : ∀ b ∈ digits k, IsVerbatim b := by
  have hdigit : ∀ d < 10, IsVerbatim (digitByte d) := by decide
  refine digits_induction (P := fun _ ds => ∀ b ∈ ds, IsVerbatim b) ?_ ?_ k
  · intro d hd
    exact List.forall_mem_singleton.mpr (hdigit d hd)
  · intro _ ds d _ hd ih
    exact List.forall_mem_append.mpr ⟨ih, List.forall_mem_singleton.mpr (hdigit d hd)⟩

theorem plain_toString {k : Nat} (hn : 0 < n) (h : k < 10 ^ n) : Plain n (toString k) := by
  constructor
  · rw [ofString_toString_nat]
    exact length_digits_le hn h
  · rw [ofString_toString_nat]
    exact isVerbatim_of_mem_digits

/-- What is written for a plain text are its bytes. -/
theorem foldr_escape {bs : Bytes} (h : ∀ b ∈ bs, IsVerbatim b) (rest : Bytes) : bs.foldr escape rest = bs ++ rest := by
  induction bs with
  | nil => rfl
  | cons b bs ih =>
    obtain ⟨hb, hbs⟩ := List.forall_mem_cons.mp h
    rw [List.foldr_cons, ih hbs, escape_of_isVerbatim hb, List.cons_append]

theorem adds_writeString (hs : Plain n s) : Adds (n + 2) (writeString s) := fun rest => by
  have := hs.length_le
  rw [writeString, foldr_escape hs.unescaped, List.length_cons, List.length_append, List.length_cons]
  omega

theorem adds_writeField (hs : Plain n s) : Adds (n + 3) (writeField s) :=
  (adds_writeString hs).comp (.byte 0x3a)

theorem adds_writeNull : Adds 4 (writeText "null") := fun rest => by
  rw [writeText, ofString_null, List.length_append]
  exact Nat.le_refl _

theorem adds_writeNumber {k : Nat} (hn : 0 < n) (h : k < 10 ^ n) : Adds n (writeText (toString k)) := fun rest => by
  rw [writeText, List.length_append]
  exact Nat.add_le_add_right (plain_toString hn h).length_le _

/-- The names in a response with an error. -/
theorem plain_names :
    Plain 10 "request_id" ∧ Plain 6 "result" ∧ Plain 5 "error" ∧ Plain 4 "kind" ∧ Plain 7 "message" ∧
      Plain 6 "filter" := by
  refine ⟨?_, ?_, ?_, ?_, ?_, ?_⟩ <;> exact plain_of_all (by cbv) (by cbv)

theorem plain_kind (kind : RemoteErrorKind) : Plain 15 kind.name := by
  cases kind <;> exact plain_of_all (by cbv) (by cbv)

/-- An error with a plain message. -/
theorem adds_writeError (kind : RemoteErrorKind) (h : Plain n s) : Adds (n + 53) (writeError ⟨kind, s, none⟩) := by
  obtain ⟨-, -, -, hkind, hmessage, hfilter⟩ := plain_names
  have hwrite := (Adds.byte 0x7b).comp <| (adds_writeField hkind).comp <| (adds_writeString (plain_kind kind)).comp <|
    (Adds.byte 0x2c).comp <| (adds_writeField hmessage).comp <| (adds_writeString h).comp <|
    (Adds.byte 0x2c).comp <| (adds_writeField hfilter).comp <| adds_writeNull.comp (.byte 0x7d)
  exact hwrite.mono (by omega)

theorem adds_writeResponse (id : UInt32) (kind : RemoteErrorKind) (h : Plain n s) :
    Adds (n + 101) (writeResponse (.err id ⟨kind, s, none⟩)) := by
  obtain ⟨hid, hresult, herror, -⟩ := plain_names
  have hnumber : Adds 10 (writeText (toString id.toNat)) :=
    adds_writeNumber (by decide) (Nat.lt_trans id.toNat_lt (by decide))
  have hwrite := (Adds.byte 0x7b).comp <| (adds_writeField hid).comp <| hnumber.comp <|
    (Adds.byte 0x2c).comp <| (adds_writeField hresult).comp <| adds_writeNull.comp <|
    (Adds.byte 0x2c).comp <| (adds_writeField herror).comp <| (adds_writeError kind h).comp (.byte 0x7d)
  exact hwrite.mono (by omega)

end Json

/-! ## CBOR -/

namespace Cbor

variable {n : Nat} {s : String}

theorem adds_writeArgument (major k : Nat) : Adds 9 (writeArgument major k) := fun rest => by
  rw [length_writeArgument]
  exact Nat.add_le_add_right (headLength_le k) _

theorem adds_writeText (h : (Bytes.ofString s).length ≤ n) : Adds (n + 9) (writeText s) := fun rest => by
  have := headLength_le (Bytes.ofString s).length
  rw [length_writeText rfl]
  omega

/-- An error with a short message. -/
theorem adds_writeError (kind : RemoteErrorKind) (h : (Bytes.ofString s).length ≤ n) :
    Adds (n + 87) (writeError ⟨kind, s, none⟩) := by
  obtain ⟨-, -, -, hkind, hmessage, hfilter⟩ := Json.plain_names
  have hwrite := (adds_writeArgument 5 3).comp <| (adds_writeText hkind.length_le).comp <|
    (adds_writeText (Json.plain_kind kind).length_le).comp <| (adds_writeText hmessage.length_le).comp <|
    (adds_writeText h).comp <| (adds_writeText hfilter.length_le).comp (.byte 0xf6)
  exact hwrite.mono (by omega)

theorem adds_writeResponse (id : UInt32) (kind : RemoteErrorKind) (h : (Bytes.ofString s).length ≤ n) :
    Adds (n + 154) (writeResponse (.err id ⟨kind, s, none⟩)) := by
  obtain ⟨hid, hresult, herror, -⟩ := Json.plain_names
  have hwrite := (adds_writeArgument 5 3).comp <| (adds_writeText hid.length_le).comp <|
    (adds_writeArgument 0 id.toNat).comp <| (adds_writeText hresult.length_le).comp <| (Adds.byte 0xf6).comp <|
    (adds_writeText herror.length_le).comp (adds_writeError kind h)
  exact hwrite.mono (by omega)

end Cbor

end Rpc
