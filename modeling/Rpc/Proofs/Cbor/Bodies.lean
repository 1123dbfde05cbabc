import Rpc.Proofs.Cbor.Values

/-!
# CBOR bodies that come back

A field of a record is read back if what stands behind its name is (`Cbor.readField_writeText`), and a record if all of
its fields are, one after the other. So requests and responses come back (`Cbor.readRequest_writeRequest`,
`Cbor.readResponse_writeResponse`), and with them every payload whose values CBOR can hold and whose body is nested no
deeper than the reader allows (`Serializer.cbor_round_trip`).
-/

namespace Rpc

namespace Cbor

open Reader

variable {draft α : Type} {depth : Nat} {field : FieldReader draft} {d d' : draft} {name : String} {tail rest : Bytes}

/-! ## Records -/

theorem onceField_none {read : Reader α} {set : Option α → draft} {a : α} (h : read tail = some (a, rest)) :
    onceField none read set tail = some (set (some a), rest) := by
  rw [onceField, bind_eq _ h]
  rfl

/-- The entries of a record come back if the first one does, whose field has not come before, and the others do. -/
theorem countFields_succ {read : Reader α} {set : Option α → draft} {write : α → Bytes → Bytes} {a : α} {n : Nat}
    (hname : isKey name) (hfield : field name d = some (onceField none read set))
    (hlen : (writeText name (write a tail)).length < 2 ^ 64) (hwrite : ∀ rest, rest.length < (write a rest).length)
    (hread : (write a tail).length < 2 ^ 64 → read (write a tail) = some (a, tail))
    (hrest : tail.length < 2 ^ 64 → countFields depth field n (set (some a)) tail = some (d', rest)) :
    countFields depth field (n + 1) d (writeText name (write a tail)) = some (d', rest) := by
  have hvalue : (write a tail).length < 2 ^ 64 := Nat.lt_trans (lt_length_writeText name _) hlen
  have hentry : readField depth field d (writeText name (write a tail)) = some (set (some a), tail) := by
    rw [readField, bind_eq _ (readName_writeText (of_decide_eq_true hname) hlen)]
    simp only [Option.bind_some, hfield]
    exact onceField_none (hread hvalue)
  rw [countFields, bind_eq _ hentry]
  exact hrest (Nat.lt_trans (hwrite tail) hvalue)

/-- A record comes back if its entries do. -/
theorem readRecord_writeArgument {n : Nat} (hn : n < 2 ^ 64) (h : countFields depth field n d tail = some (d', rest)) :
    readRecord depth field d (writeArgument 5 n tail) = some (d', rest) := by
  have hhead := untagged_of_readHead (readHead_writeArgument (show 5 < 7 by decide) hn tail) nofun
  rw [readRecord, bind_eq _ hhead]
  exact h

/-! ## Fields -/

theorem lt_length_writeTexts (ss : List String) (rest : Bytes) : rest.length < (writeTexts ss rest).length := by
  have := length_le_length_foldr lt_length_writeText ss rest
  have := lt_length_writeArgument 4 ss.length (ss.foldr writeText rest)
  rw [writeTexts]
  omega

theorem readTexts_writeTexts {ss : List String} (hlen : (writeTexts ss rest).length < 2 ^ 64) :
    readTexts (writeTexts ss rest) = some (ss, rest) := by
  obtain ⟨hhead, hitems⟩ :=
    list_back (by decide) lt_length_writeText (fun _ _ _ hlen => readText_writeText hlen) hlen
  rw [readTexts, writeTexts, bind_eq _ (untagged_of_readHead hhead nofun)]
  exact hitems

/-- A list of values. -/
def writeValues (vs : List Value) (rest : Bytes) : Bytes := writeArgument 4 vs.length (writeItems vs rest)

theorem lt_length_writeValues (vs : List Value) (rest : Bytes) : rest.length < (writeValues vs rest).length :=
  lt_length_writeValue (.array vs) rest

theorem readValues_writeValues {vs : List Value} (hwithin : ∀ v ∈ vs, v.isWithin Binary64.isFinite isKey)
    (hdepth : Value.depthItems vs ≤ depth) (hlen : (writeValues vs rest).length < 2 ^ 64) :
    readValues depth (writeValues vs rest) = some (vs, rest) := by
  have hdepth := Value.depthItems_le_iff.mp hdepth
  rw [writeValues, writeItems_eq_foldr] at hlen ⊢
  obtain ⟨hhead, hitems⟩ := list_back (by decide) lt_length_writeValue
    (fun v hv _ hlen => readValue_writeValue (hwithin v hv) (hdepth v hv) hlen) hlen
  rw [readValues, bind_eq _ (untagged_of_readHead hhead nofun)]
  exact hitems

theorem isKey_kind (kind : RemoteErrorKind) : isKey kind.name := by
  cases kind <;> exact isKey_iff.mpr (by decide)

/-- A kind is written as its name. -/
def writeKind (kind : RemoteErrorKind) (rest : Bytes) : Bytes := writeText kind.name rest

theorem readErrorKind_writeKind {kind : RemoteErrorKind} (hlen : (writeKind kind rest).length < 2 ^ 64) :
    readErrorKind (writeKind kind rest) = some (kind, rest) := by
  have hname := readName_writeText (of_decide_eq_true (isKey_kind kind)) hlen
  simp [readErrorKind, writeKind, untagged_writeText hlen, hname, RemoteErrorKind.ofName?_name]

section Option

variable {read : Reader α} {write : α → Bytes → Bytes} {a? : Option α}

theorem lt_length_writeOption (hwrite : ∀ a rest, rest.length < (write a rest).length) (a? : Option α) (rest : Bytes) :
    rest.length < (writeOption write a? rest).length := by
  cases a? with
  | none => exact Nat.lt_succ_self _
  | some a => exact hwrite a rest

/-- What may be absent is null, or comes back as it is where it does not start like null. -/
theorem readOption_writeOption (hlen : (writeOption write a? rest).length < 2 ^ 64)
    (hread : ∀ a, a? = some a → (write a rest).length < 2 ^ 64 → read (write a rest) = some (a, rest) ∧
      ∃ h tail, readHead (write a rest) = some (h, tail) ∧ ∀ n, h ≠ .simple n) :
    readOption read (writeOption write a? rest) = some (a?, rest) := by
  cases a? with
  | none => rfl
  | some a =>
    obtain ⟨hback, h, tail, hhead, hsimple⟩ := hread a rfl hlen
    simp only [readOption, writeOption, hhead, hback, Option.bind_eq_bind, Option.bind_some]
    cases h with
    | simple n => exact absurd rfl (hsimple n)
    | _ => rfl

end Option

/-! ## Requests -/

/-- **A request comes back.** -/
theorem readRequest_writeRequest {r : Request} (hwithin : ∀ v ∈ r.args, v.isWithin Binary64.isFinite isKey)
    (hdepth : Value.depthItems r.args ≤ maxDepth - 2) (hlen : (writeRequest r rest).length < 2 ^ 64) :
    readRequest (writeRequest r rest) = some (r, rest) := by
  have hentries :
      countFields (maxDepth - 1) requestField 4 {}
          (writeText "service" <| writeText r.service <|
            writeText "method" <| writeText r.method <|
            writeText "param_types" <| writeTexts r.paramTypes <|
            writeText "args" <| writeValues r.args rest) =
        some (⟨some r.service, some r.method, some r.paramTypes, some r.args⟩, rest) :=
    countFields_succ (isKey_iff.mpr (by decide)) rfl (Nat.lt_trans (lt_length_writeArgument 5 4 _) hlen)
      (lt_length_writeText _) readText_writeText fun hlen =>
    countFields_succ (isKey_iff.mpr (by decide)) rfl hlen (lt_length_writeText _) readText_writeText fun hlen =>
    countFields_succ (isKey_iff.mpr (by decide)) rfl hlen (lt_length_writeTexts _) readTexts_writeTexts fun hlen =>
    countFields_succ (isKey_iff.mpr (by decide)) rfl hlen (lt_length_writeValues _) (readValues_writeValues hwithin hdepth)
      fun _ => rfl
  exact bind_eq _ (readRecord_writeArgument (by decide) hentries)

/-! ## Responses -/

theorem lt_length_writeError (e : RemoteError) (rest : Bytes) : rest.length < (writeError e rest).length :=
  calc rest.length
    _ < (writeOption writeText e.filter rest).length := lt_length_writeOption lt_length_writeText _ _
    _ < (writeText "filter" _).length := lt_length_writeText _ _
    _ < (writeText e.message _).length := lt_length_writeText _ _
    _ < (writeText "message" _).length := lt_length_writeText _ _
    _ < (writeText e.kind.name _).length := lt_length_writeText _ _
    _ < (writeText "kind" _).length := lt_length_writeText _ _
    _ < (writeError e rest).length := lt_length_writeArgument 5 3 _

theorem readHead_writeError (e : RemoteError) (rest : Bytes) :
    ∃ tail, readHead (writeError e rest) = some (.map (some 3), tail) :=
  ⟨_, readHead_writeArgument (show 5 < 7 by decide) (show 3 < 2 ^ 64 by decide) _⟩

/-- **An error comes back.** -/
theorem readError_writeError {e : RemoteError} (hlen : (writeError e rest).length < 2 ^ 64) :
    readError (writeError e rest) = some (e, rest) := by
  have hfilter (hlen : (writeOption writeText e.filter rest).length < 2 ^ 64) :
      readOption readText (writeOption writeText e.filter rest) = some (e.filter, rest) :=
    readOption_writeOption hlen fun s _ hlen => ⟨readText_writeText hlen, _, _, readHead_writeText hlen, nofun⟩
  have hentries :
      countFields (maxDepth - 2) errorField 3 {}
          (writeText "kind" <| writeKind e.kind <|
            writeText "message" <| writeText e.message <|
            writeText "filter" <| writeOption writeText e.filter rest) =
        some (⟨some e.kind, some e.message, some e.filter⟩, rest) :=
    countFields_succ (isKey_iff.mpr (by decide)) rfl (Nat.lt_trans (lt_length_writeArgument 5 3 _) hlen)
      (lt_length_writeText _) readErrorKind_writeKind fun hlen =>
    countFields_succ (isKey_iff.mpr (by decide)) rfl hlen (lt_length_writeText _) readText_writeText fun hlen =>
    countFields_succ (isKey_iff.mpr (by decide)) rfl hlen (lt_length_writeOption lt_length_writeText _) hfilter fun _ => rfl
  exact bind_eq _ (readRecord_writeArgument (by decide) hentries)

/-- **The fields of a response come back.** -/
theorem readResponse_writeResponse {r : Response} (hwithin : r.wireResult.isWithin Binary64.isFinite isKey)
    (hdepth : r.wireResult.depth ≤ maxDepth - 1) (hlen : (writeResponse r rest).length < 2 ^ 64) :
    readResponse (writeResponse r rest) = some (⟨r.requestId, r.wireResult, r.error?⟩, rest) := by
  have herror (hlen : (writeOption writeError r.error? rest).length < 2 ^ 64) :
      readOption readError (writeOption writeError r.error? rest) = some (r.error?, rest) :=
    readOption_writeOption hlen fun e _ hlen =>
      have ⟨tail, hhead⟩ := readHead_writeError e rest
      ⟨readError_writeError hlen, _, tail, hhead, nofun⟩
  have hentries :
      countFields (maxDepth - 1) responseField 3 {}
          (writeText "request_id" <| writeUInt32 r.requestId <|
            writeText "result" <| writeValue r.wireResult <|
            writeText "error" <| writeOption writeError r.error? rest) =
        some (⟨some r.requestId, some r.wireResult, some r.error?⟩, rest) :=
    countFields_succ (isKey_iff.mpr (by decide)) rfl (Nat.lt_trans (lt_length_writeArgument 5 3 _) hlen)
      (lt_length_writeArgument 0 _) (fun _ => readUInt32_writeUInt32 _ _) fun hlen =>
    countFields_succ (isKey_iff.mpr (by decide)) rfl hlen (lt_length_writeValue _)
      (readValue_writeValue hwithin hdepth) fun hlen =>
    countFields_succ (isKey_iff.mpr (by decide)) rfl hlen (lt_length_writeOption lt_length_writeError _) herror fun _ => rfl
  exact bind_eq _ (readRecord_writeArgument (by decide) hentries)

end Cbor

/-! ## Payloads -/

/-- **Every payload that CBOR can hold comes back from its body,** integers as integers and doubles bit for bit. The
length of a body is a number of 64 bits. -/
theorem Serializer.cbor_round_trip {type : MessageType} {p : Payload} (hfits : p.fits type)
    (hwithin : ∀ v ∈ p.values, v.isWithin Binary64.isFinite Cbor.isKey) (hdepth : p.depth ≤ Cbor.maxDepth)
    (hlen : ∀ body, Serializer.cbor.serialize p = .ok body → body.length < 2 ^ 64) :
    ∃ body, Serializer.cbor.serialize p = .ok body ∧ Serializer.cbor.deserialize type body = .ok p := by
  refine Serializer.ofRecords_round_trip hfits ?_ ?_
  · rintro r rfl
    have hargs : Value.depthItems r.args ≤ Cbor.maxDepth - 2 := Nat.le_sub_of_add_le hdepth
    rw [Cbor.readRequest?, Cbor.readRequest_writeRequest hwithin hargs (hlen _ rfl)]
  · rintro r rfl
    obtain ⟨hresult, hresultDepth⟩ := Response.wireResult_within hwithin hdepth
    rw [Cbor.readResponse?, Cbor.readResponse_writeResponse hresult hresultDepth (hlen _ rfl)]
    exact r.toResponse_fields

/-- A request with an object, a negative number, a double and a text beyond ASCII. -/
def orderRequest : Request :=
  (Request.new "shop" "order").arg "Item"
    (.object [("count", .int (-3)), ("größe", .float ⟨0x3ff8000000000000⟩), ("tags", .array [.null, .string "✓"])])

theorem Serializer.cbor_round_trip_order :
    ∃ body, Serializer.cbor.serialize (.request orderRequest) = .ok body ∧
      Serializer.cbor.deserialize .request body = .ok (.request orderRequest) :=
  Serializer.cbor_round_trip rfl (List.forall_mem_singleton.mpr (by decide +kernel)) (by decide) fun body hbody => by
    obtain rfl := Except.ok.inj hbody
    decide +kernel

end Rpc
