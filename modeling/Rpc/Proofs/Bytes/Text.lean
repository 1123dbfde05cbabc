import Rpc.Bytes

/-!
# Texts as bytes

A text comes back from its UTF-8 bytes (`Bytes.toString?_ofString`). The bytes of a text are those of its characters
one after the other (`Bytes.ofString_ofList`), one byte each where they are ASCII (`Bytes.ofString_ascii`).
-/

namespace Rpc.Bytes

theorem toList_loop (bs : ByteArray) (i : Nat) (done : Bytes) :
    ByteArray.toList.loop bs i done = done.reverse ++ bs.data.toList.drop i := by
  fun_induction ByteArray.toList.loop bs i done with
  | case1 i done h ih =>
    have hi : i < bs.data.size := h
    rw [ih, List.drop_eq_getElem_cons (show i < bs.data.toList.length from hi), List.reverse_cons, List.append_assoc]
    simp [show bs.get! i = bs.data[i] from getElem!_pos bs.data i hi]
  | case2 i done h =>
    have hi : bs.data.toList.length ≤ i := Nat.le_of_not_lt h
    rw [List.drop_eq_nil_of_le hi, List.append_nil]

theorem ofString_eq (s : String) : ofString s = s.toByteArray.data.toList := by
  rw [ofString, String.toUTF8_eq_toByteArray, ByteArray.toList, toList_loop, List.reverse_nil, List.nil_append,
    List.drop_zero]

/-- **A text comes back from its bytes.** -/
theorem toString?_ofString (s : String) : toString? (ofString s) = some s := by
  have hbytes : (ofString s).toByteArray = s.toByteArray := by
    rw [ofString_eq]
    exact ByteArray.ext (by simp)
  rw [toString?, hbytes, String.fromUTF8?, dif_pos s.isValidUTF8]
  rfl

/-- Different texts have different bytes. -/
theorem ofString_inj {s t : String} : ofString s = ofString t ↔ s = t := by
  refine ⟨fun h => Option.some.inj ?_, congrArg ofString⟩
  rw [← toString?_ofString s, h, toString?_ofString t]

theorem ofString_append (s t : String) : ofString (s ++ t) = ofString s ++ ofString t := by
  simp only [ofString_eq, String.toByteArray_append, ByteArray.toList_data_append]

/-- The bytes of a text are those of its characters. -/
theorem ofString_ofList (cs : List Char) : ofString (String.ofList cs) = cs.flatMap String.utf8EncodeChar := by
  rw [ofString_eq, String.toByteArray_ofList]
  induction cs with
  | nil => simp
  | cons c cs ih =>
    rw [List.utf8Encode_cons, ByteArray.toList_data_append, ih, List.utf8Encode_singleton, List.flatMap_cons]
    simp

/-- An ASCII character is one byte. -/
theorem utf8EncodeChar_ascii {c : Char} (h : c.toNat < 128) : String.utf8EncodeChar c = [UInt8.ofNat c.toNat] :=
  String.utf8EncodeChar_eq_singleton (Char.utf8Size_eq_one_iff.mpr (UInt32.le_iff_toNat_le.mpr (Nat.le_of_lt_succ h)))

/-- The bytes of an ASCII text are its characters. -/
theorem ofString_ascii {cs : List Char} (h : ∀ c ∈ cs, c.toNat < 128) :
    ofString (String.ofList cs) = cs.map fun c => UInt8.ofNat c.toNat := by
  rw [ofString_ofList]
  induction cs with
  | nil => rfl
  | cons c cs ih =>
    obtain ⟨hc, hcs⟩ := List.forall_mem_cons.mp h
    rw [List.flatMap_cons, utf8EncodeChar_ascii hc, ih hcs, List.map_cons, List.singleton_append]

/-- A text that repeats an ASCII character has a byte for each time. -/
theorem length_ofString_replicate {c : Char} (h : c.toNat < 128) (n : Nat) :
    (ofString (String.ofList (List.replicate n c))).length = n := by
  have hascii : ∀ d ∈ List.replicate n c, d.toNat < 128 := fun d hd => by rwa [List.eq_of_mem_replicate hd]
  rw [ofString_ascii hascii, List.length_map, List.length_replicate]

end Rpc.Bytes
