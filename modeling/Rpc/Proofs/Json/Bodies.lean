import Rpc.Proofs.Json.Values

/-!
# JSON bodies that come back

A field of a record is read back if what stands behind its name is, up to the comma or the brace behind it
(`Json.readFields_comma`, `Json.readFields_close`), and a record if all of its fields are. So requests and responses come
back (`Json.readRequest_writeRequest`, `Json.readResponse_writeResponse`), and with them every payload without doubles
whose body is nested no deeper than the reader allows (`Serializer.json_round_trip`).
-/

namespace Rpc

namespace Json

open Reader

variable {draft α : Type} {field : FieldReader draft} {d d' : draft} {name : String} {names : List String}
  {read : Reader α} {set : Option α → draft} {a : α} {b : UInt8} {tail rest more : Bytes}

/-! ## Records -/

/-- A field that has not come before is read back if what stands behind its name is. -/
theorem readField_writeField (hfield : field name d = some (onceField none read set))
    (hread : read tail = some (a, rest)) : readField field d (writeField name tail) = some (set (some a), rest) := by
  rw [readField, writeField, bind_eq _ (readString_writeString name _), bind_eq _ (blanks_cons (by decide) _),
    bind_eq _ (expect_cons 0x3a _)]
  simp only [hfield, onceField]
  rw [bind_eq _ hread]
  rfl

/-- Behind a field and a comma the others are read. -/
theorem readFields_comma {fuel : Nat} (hfield : field name d = some (onceField none read set))
    (hread : read tail = some (a, 0x2c :: rest)) (hrest : readFields field fuel (set (some a)) rest = some (d', more)) :
    readFields field (fuel + 1) d (writeField name tail) = some (d', more) := by
  rw [readFields, bind_eq _ (readField_writeField hfield hread), bind_eq _ (blanks_cons (by decide) rest)]
  exact hrest

/-- Behind a field and a brace the record is at its end. -/
theorem readFields_close {fuel : Nat} (hfield : field name d = some (onceField none read set))
    (hread : read tail = some (a, 0x7d :: rest)) :
    readFields field (fuel + 1) d (writeField name tail) = some (set (some a), rest) := by
  rw [readFields, bind_eq _ (readField_writeField hfield hread), bind_eq _ (blanks_cons (by decide) rest)]
  rfl

/-- A record comes back if its fields do, at most four of them. -/
theorem readRecord_writeField (h : ∀ fuel, readFields field (fuel + 4) d (writeField name tail) = some (d', rest)) :
    readRecord field names d (0x7b :: writeField name tail) = some (d', rest) := by
  obtain ⟨fuel, hfuel⟩ : ∃ fuel, (writeField name tail).length + 1 = fuel + 4 := by
    have := length_writeString name (0x3a :: tail)
    rw [List.length_cons] at this
    exact ⟨(writeField name tail).length - 3, by rw [writeField]; omega⟩
  have hblanks : blanks (writeField name tail) = some ((), writeField name tail) := blanks_cons (by decide) _
  have hquote : accept 0x7d (writeField name tail) = some (false, writeField name tail) := accept_of_ne (by decide) _
  have hbyte : Reader.byte (0x7b :: writeField name tail) = some (0x7b, writeField name tail) := rfl
  rw [readRecord, bind_eq _ (blanks_cons (by decide) _), bind_eq _ hbyte, if_pos rfl,
    bind_eq _ hblanks, bind_eq _ hquote, if_neg (by decide), hfuel]
  exact h fuel

/-! ## Fields -/

theorem writeList_eq (write : α → Bytes → Bytes) (rest : Bytes) (as : List α) :
    writeList write rest as = 0x5b :: writeSeparated write 0x2c 0x5d rest as := by
  cases as <;> rfl

theorem readStrings_writeList (ss : List String) (rest : Bytes) :
    readStrings (writeList writeString rest ss) = some (ss, rest) := by
  have hback : separated blanks readString 0x2c 0x5d (writeSeparated writeString 0x2c 0x5d rest ss) = some (ss, rest) :=
    list_back (.inl rfl) (fun s rest => Nat.le_of_add_right_le (length_writeString s rest))
      (fun s _ rest => ⟨0x22, _, rfl, by decide, by decide⟩)
      (fun s _ b rest _ => readString_writeString s (b :: rest)) rest
  rw [readStrings, writeList_eq, bind_eq _ (blanks_cons (by decide) _), bind_eq _ (expect_cons _ _)]
  exact hback

theorem readValues_writeList {vs : List Value} {depth : Nat} (hplain : ∀ v ∈ vs, IsPlain v)
    (hdepth : Value.depthItems vs ≤ depth) (rest : Bytes) :
    readValues depth (writeList writeValue rest vs) = some (vs, rest) := by
  have hdepth := Value.depthItems_le_iff.mp hdepth
  have hback := list_back (.inl rfl) le_length_writeValue (fun v hv => writeValue_first (hplain v hv))
    (fun v hv b rest hb => readValue_writeValue (hplain v hv) (hdepth v hv) hb rest) rest
  rw [readValues, writeList_eq, bind_eq _ (blanks_cons (by decide) _), bind_eq _ (expect_cons _ _)]
  exact hback

/-- **A number of 32 bits comes back.** -/
theorem readUInt32_toString (n : UInt32) (hb : goesOn b = false) (rest : Bytes) :
    readUInt32 (writeText (toString n.toNat) (b :: rest)) = some (n, b :: rest) := by
  have hlt := n.toNat_lt
  have hrange : Value.isIntegerInRange n.toNat := by
    simp only [Value.isIntegerInRange, Bool.and_eq_true, decide_eq_true_eq]
    omega
  have hfits : (0 ≤ (n.toNat : Int) && (n.toNat : Int) < 2 ^ 32) = true := by
    simp only [Bool.and_eq_true, decide_eq_true_eq]
    omega
  have hcast : toString (n.toNat : Int) = toString n.toNat := rfl
  obtain ⟨m, hread, hvalue⟩ := readNumeral_toString hrange hb rest
  obtain ⟨d, ds, hds, hd⟩ := startsNumber_toString n.toNat
  rw [hcast] at hread hds
  have hblanks : blanks (writeText (toString n.toNat) (b :: rest)) =
      some ((), writeText (toString n.toNat) (b :: rest)) := by
    rw [writeText, hds]
    exact blanks_cons (startsNumber_only hd).1 _
  rw [readUInt32, bind_eq _ hblanks, bind_eq _ hread]
  simp only [hvalue, hfits, if_true, Int.toNat_natCast, UInt32.ofNat_toNat, pure_eq]

theorem readErrorKind_writeString (kind : RemoteErrorKind) (rest : Bytes) :
    readErrorKind (writeString kind.name rest) = some (kind, rest) := by
  have hblanks : blanks (writeString kind.name rest) = some ((), writeString kind.name rest) :=
    blanks_cons (by decide) _
  have hpeek : peek (writeString kind.name rest) = some (0x22, writeString kind.name rest) := rfl
  rw [readErrorKind, bind_eq _ hblanks, bind_eq _ hpeek, if_neg (by decide), bind_eq _ (readString_writeString _ rest),
    RemoteErrorKind.ofName?_name, ofOption_some]

/-- What may be absent is null, or comes back as it is where it does not start like null. -/
theorem readOption_writeOption {write : α → Bytes → Bytes} {a? : Option α}
    (hread : ∀ a, read (write a rest) = some (a, rest))
    (hfirst : ∀ a, ∃ b tail, write a rest = b :: tail ∧ isBlank b = false ∧ b ≠ 0x6e) :
    readOption read (writeOption write a? rest) = some (a?, rest) := by
  cases a? with
  | none =>
    have hstart : writeText "null" rest = 0x6e :: ([0x75, 0x6c, 0x6c] ++ rest) := by
      rw [writeText, ofString_null, List.cons_append]
    rw [writeOption, readOption, hstart, bind_eq _ (blanks_cons (by decide) _), bind_eq _ (peek_cons _ _), if_pos rfl,
      ← hstart]
    exact word_writeText "null" none rest
  | some a =>
    obtain ⟨b, tail, hstart, hblank, hb⟩ := hfirst a
    have hread := hread a
    rw [writeOption, readOption]
    rw [hstart] at hread ⊢
    rw [bind_eq _ (blanks_cons hblank _), bind_eq _ (peek_cons _ _), if_neg hb, bind_eq _ hread]
    rfl

/-! ## Requests -/

/-- **A request comes back.** -/
theorem readRequest_writeRequest {r : Request} (hplain : ∀ v ∈ r.args, IsPlain v)
    (hdepth : Value.depthItems r.args ≤ maxDepth - 2) (rest : Bytes) :
    readRequest (writeRequest r rest) = some (r, rest) := by
  have hfields (fuel : Nat) :
      readFields requestField (fuel + 4) {}
          (writeField "service" (writeString r.service <|
            0x2c :: writeField "method" (writeString r.method <|
            0x2c :: writeField "param_types" (writeList writeString (
            0x2c :: writeField "args" (writeList writeValue (0x7d :: rest) r.args)) r.paramTypes)))) =
        some (⟨some r.service, some r.method, some r.paramTypes, some r.args⟩, rest) :=
    readFields_comma rfl (readString_writeString _ _) <|
    readFields_comma rfl (readString_writeString _ _) <|
    readFields_comma rfl (readStrings_writeList _ _) <|
    readFields_close rfl (readValues_writeList hplain hdepth _)
  exact bind_eq _ (readRecord_writeField hfields)

/-! ## Responses -/

/-- **An error comes back.** -/
theorem readError_writeError (e : RemoteError) (rest : Bytes) : readError (writeError e rest) = some (e, rest) := by
  have hfields (fuel : Nat) :
      readFields errorField (fuel + 4) {}
          (writeField "kind" (writeString e.kind.name <|
            0x2c :: writeField "message" (writeString e.message <|
            0x2c :: writeField "filter" (writeOption writeString e.filter (0x7d :: rest))))) =
        some (⟨some e.kind, some e.message, some e.filter⟩, rest) :=
    readFields_comma rfl (readErrorKind_writeString _ _) <|
    readFields_comma rfl (readString_writeString _ _) <|
    readFields_close rfl (readOption_writeOption (fun s => readString_writeString s _) fun _ =>
      ⟨0x22, _, rfl, by decide, by decide⟩)
  have hblanks : blanks (writeError e rest) = some ((), writeError e rest) := blanks_cons (by decide) _
  have hpeek : peek (writeError e rest) = some (0x7b, writeError e rest) := rfl
  rw [readError, bind_eq _ hblanks, bind_eq _ hpeek]
  exact bind_eq _ (readRecord_writeField hfields)

/-- **The fields of a response come back.** -/
theorem readResponse_writeResponse {r : Response} (hplain : IsPlain r.wireResult)
    (hdepth : r.wireResult.depth ≤ maxDepth - 1) (rest : Bytes) :
    readResponse (writeResponse r rest) = some (⟨r.requestId, r.wireResult, r.error?⟩, rest) := by
  have hfields (fuel : Nat) :
      readFields responseField (fuel + 4) {}
          (writeField "request_id" (writeText (toString r.requestId.toNat) <|
            0x2c :: writeField "result" (writeValue r.wireResult <|
            0x2c :: writeField "error" (writeOption writeError r.error? (0x7d :: rest))))) =
        some (⟨some r.requestId, some r.wireResult, some r.error?⟩, rest) :=
    readFields_comma rfl (readUInt32_toString _ (by decide) _) <|
    readFields_comma rfl (readValue_writeValue hplain hdepth (by decide) _) <|
    readFields_close rfl (readOption_writeOption (fun e => readError_writeError e _) fun _ =>
      ⟨0x7b, _, rfl, by decide, by decide⟩)
  exact bind_eq _ (readRecord_writeField hfields)

end Json

/-! ## Payloads -/

/-- **Every payload without doubles comes back from its body,** nested up to the limit of the reader. -/
theorem Serializer.json_round_trip {type : MessageType} {p : Payload} (hfits : p.fits type)
    (hplain : ∀ v ∈ p.values, Json.IsPlain v) (hdepth : p.depth ≤ Json.maxDepth) :
    ∃ body, Serializer.json.serialize p = .ok body ∧ Serializer.json.deserialize type body = .ok p := by
  refine Serializer.ofRecords_round_trip hfits ?_ ?_
  · rintro r rfl
    have hargs : Value.depthItems r.args ≤ Json.maxDepth - 2 := Nat.le_sub_of_add_le hdepth
    rw [Json.readRequest?, Json.readRequest_writeRequest hplain hargs]
    rfl
  · rintro r rfl
    obtain ⟨hresult, hresultDepth⟩ := Response.wireResult_within hplain hdepth
    rw [Json.readResponse?, Json.readResponse_writeResponse hresult hresultDepth]
    simp only [r.toResponse_fields]
    rfl

/-- A response with the greatest and the least integer, and with texts that need escapes or are beyond ASCII. -/
def stockResponse : Response :=
  .ok 7 (.object
    [("größe", .int 18446744073709551615),
      ("tags", .array [.null, .int (-9223372036854775808), .bool true, .string "\"✓\"\n"])])

theorem Serializer.json_round_trip_stock :
    ∃ body, Serializer.json.serialize (.response stockResponse) = .ok body ∧
      Serializer.json.deserialize .response body = .ok (.response stockResponse) :=
  Serializer.json_round_trip rfl (List.forall_mem_singleton.mpr (by decide)) (by decide)

end Rpc
