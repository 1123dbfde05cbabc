import Rpc.Proofs.Codec.Accepted
import Rpc.Proofs.Json.Bodies

/-!
# JSON bodies that are accepted

Fields in any order, records as arrays, blanks and escapes give values of the type: integers of 64 bits and objects in
order, nested no deeper than the reader allows.

- `Json.readValue_yields`: values;
- `Json.readRecord_yields`: records, by what each field keeps;
- `Serializer.json_accepted`: an accepted body without doubles, written again, gives the same payload.
-/

namespace Rpc

namespace Json

open Reader

variable {draft : Type} {field : FieldReader draft} {I : draft → Prop} {depth : Nat}

/-- A value that JSON can hold, if its doubles are left aside. -/
abbrev Holds (depth : Nat) (v : Value) : Prop := v.Fits (fun _ => true) (fun _ => true) depth

/-! ## Numbers -/

theorem absorb_lt (ds : Bytes) {n : Nat} (h : n < 2 ^ 64) : (Numeral.absorb n ds).1 < 2 ^ 64 := by
  induction ds generalizing n with
  | nil => exact h
  | cons d ds ih =>
    rw [Numeral.absorb]
    split
    · next hnext => exact ih hnext
    · exact h

/-- A number that is read as an integer fits 64 bits. -/
theorem isIntegerInRange_of_toInt? {n : Numeral} {m : Int} (h : n.toInt? = some m) : Value.isIntegerInRange m := by
  have hlt := absorb_lt n.whole (show 0 < 2 ^ 64 by decide)
  unfold Numeral.toInt? at h
  split at h
  · dsimp only at h
    simp only [Value.isIntegerInRange, Bool.and_eq_true, decide_eq_true_eq]
    repeat' split at h
    all_goals cases h
    all_goals omega
  · cases h

theorem fits_toValue? {n : Numeral} {v : Value} (h : n.toValue? = some v) : Holds depth v := by
  unfold Numeral.toValue? at h
  split at h
  · next m hm =>
    cases h
    exact Value.fits_scalar (isIntegerInRange_of_toInt? hm) rfl
  · obtain ⟨x, -, rfl⟩ := Option.map_eq_some_iff.mp h
    exact Value.fits_scalar rfl rfl

/-! ## Values -/

theorem word_yields {α : Type} (text : String) {a : α} {P : α → Prop} (h : P a) : Yields (word text a) P :=
  .after fun _ => .pure h

theorem readScalar_yields (first : UInt8) : Yields (readScalar first) (Holds depth) := by
  refine .ite (fun _ => word_yields _ (Value.fits_scalar rfl rfl)) fun _ => ?_
  refine .ite (fun _ => word_yields _ (Value.fits_scalar rfl rfl)) fun _ => ?_
  refine .ite (fun _ => word_yields _ (Value.fits_scalar rfl rfl)) fun _ => ?_
  refine .ite (fun _ => .after fun s => .pure (Value.fits_scalar rfl rfl)) fun _ => ?_
  exact .after fun n => .ofOption fun v hv => fits_toValue? hv

/-- **What is read is a value of the type,** nested no deeper than the reader allows. -/
theorem readValue_yields (depth : Nat) : Yields (readValue depth) (Holds depth) := by
  induction depth with
  | zero => exact .after fun _ => .after fun b => .ite (fun _ => .failure) fun _ => readScalar_yields b
  | succ depth ih =>
    refine .after fun _ => .after fun b => .ite (fun _ => .after fun _ => ?_) fun _ => ?_
    · exact (Yields.separated blanks ih 0x2c 0x5d).bind fun vs hvs => .pure (Value.fits_array hvs)
    · refine .ite (fun _ => .after fun _ => ?_) fun _ => readScalar_yields b
      have hentry : Yields (readEntry (readValue depth)) fun e => true ∧ Holds depth e.2 :=
        .after fun k => .after fun _ => .after fun _ => ih.bind fun v hv => .pure ⟨rfl, hv⟩
      exact (Yields.separated blanks hentry 0x2c 0x7d).bind fun es hes => .pure (Value.fits_ofEntries hes)

theorem readValues_yields (depth : Nat) : Yields (readValues depth) fun vs => ∀ v ∈ vs, Holds depth v :=
  .after fun _ => .after fun _ => (readValue_yields depth).separated blanks 0x2c 0x5d

/-! ## Records -/

theorem readField_yields (hfield : FieldsKeep field I) {d : draft} (hd : I d) : Yields (readField field d) I := by
  refine .after fun k => .after fun _ => .after fun _ => ?_
  split
  · next read hread => exact hfield hread hd
  · exact .after fun _ => .pure hd

theorem readFields_yields (hfield : FieldsKeep field I) (fuel : Nat) {d : draft} (hd : I d) :
    Yields (readFields field fuel d) I := by
  induction fuel generalizing d with
  | zero => exact .failure
  | succ fuel ih =>
    refine (readField_yields hfield hd).bind fun d hd => .after fun _ => .after fun b => ?_
    exact .ite (fun _ => .pure hd) fun _ => .ite (fun _ => ih hd) fun _ => .failure

theorem readPositions_yields (hfield : FieldsKeep field I) (names : List String) {d : draft} (hd : I d) :
    Yields (readPositions field names d) I := by
  induction names generalizing d with
  | nil => exact .after fun _ => .after fun _ => .pure hd
  | cons name names ih =>
    refine .after fun _ => ?_
    split
    · exact .failure
    · next read hread =>
      refine (hfield hread hd).bind fun d hd => .after fun _ => .after fun closed => ?_
      exact .ite (fun _ => .pure hd) fun _ => ih hd

/-- **A record keeps what its fields keep,** by name in whatever order they come, or by their places. -/
theorem readRecord_yields (hfield : FieldsKeep field I) (names : List String) {d : draft} (hd : I d) :
    Yields (readRecord field names d) I := by
  refine .after fun _ => .after fun b => .ite (fun _ => .after fun _ => .after fun closed => ?_) fun _ =>
    .ite (fun _ => .after fun _ => .after fun closed => ?_) fun _ => .failure
  · exact .ite (fun _ => .pure hd) fun _ => .here fun bs => readFields_yields hfield _ hd
  · exact .ite (fun _ => .pure hd) fun _ _ _ _ hread => readPositions_yields hfield names hd hread

theorem requestField_keeps : FieldsKeep requestField (·.Fits (fun _ => true) (fun _ => true) (maxDepth - 2)) := by
  intro name d read hread hd
  unfold requestField at hread
  repeat' split at hread
  all_goals cases hread
  · exact .once _ (.any _) fun _ _ => hd
  · exact .once _ (.any _) fun _ _ => hd
  · exact .once _ (.any _) fun _ _ => hd
  · exact .once _ (readValues_yields _) fun vs hvs _ h => Option.some.inj h ▸ hvs

theorem responseField_keeps : FieldsKeep responseField (·.Fits (fun _ => true) (fun _ => true) (maxDepth - 1)) := by
  intro name d read hread hd
  unfold responseField at hread
  repeat' split at hread
  all_goals cases hread
  · exact .once _ (.any _) fun _ _ => hd
  · exact .once _ (readValue_yields _) fun v hv _ h => Option.some.inj h ▸ hv
  · exact .once _ (.any _) fun _ _ => hd

/-! ## Bodies -/

theorem readRequest_yields : Yields readRequest fun r => ∀ v ∈ r.args, Holds (maxDepth - 2) v :=
  (readRecord_yields requestField_keeps _ RequestDraft.fits_empty).bind fun _ hd => .ofOption fun _ hr => hd.finish hr

theorem readResponse_yields : Yields readResponse fun f => Holds (maxDepth - 1) f.result :=
  (readRecord_yields responseField_keeps _ ResponseDraft.fits_empty).bind fun _ hd => .ofOption fun _ hf =>
    hd.finish hf

theorem args_of_readRequest? {bs : Bytes} {r : Request} (h : readRequest? bs = .ok r) :
    ∀ v ∈ r.args, Holds (maxDepth - 2) v := by
  unfold readRequest? at h
  split at h
  · next hread =>
    split at h
    · cases h
      exact readRequest_yields hread
    · cases h
  · cases h

/-- The fields in an accepted body are those of the response. -/
theorem fields_of_readResponse? {bs : Bytes} {r : Response} (h : readResponse? bs = .ok r) :
    ∃ rest, readResponse bs = some (⟨r.requestId, r.wireResult, r.error?⟩, rest) := by
  unfold readResponse? at h
  split at h
  · next f rest hread =>
    cases hf : f.toResponse with
    | error e =>
      rw [hf] at h
      cases h
    | ok r' =>
      rw [hf] at h
      obtain rfl := ResponseFields.eq_of_toResponse hf
      change (if isTrailing rest then Except.ok r' else .error BodyError.malformed) = .ok r at h
      split at h
      · cases h
        exact ⟨rest, hread⟩
      · cases h
  · cases h

end Json

/-- **An accepted body without doubles comes back:** its payload, written again, is read as the same payload. -/
theorem Serializer.json_accepted {type : MessageType} {body : Bytes} {p : Payload}
    (h : Serializer.json.deserialize type body = .ok p)
    (hnone : ∀ v ∈ p.values, v.isMadeOf (fun _ => false) fun _ => true) :
    ∃ written, Serializer.json.serialize p = .ok written ∧ Serializer.json.deserialize type written = .ok p := by
  obtain ⟨hfits, hrequest, hresponse⟩ := Serializer.of_ofRecords_eq_ok h
  refine Serializer.ofRecords_round_trip hfits ?_ ?_
  · rintro r rfl
    have hargs := Json.args_of_readRequest? (hrequest r rfl)
    have hdepth : Value.depthItems r.args ≤ Json.maxDepth - 2 :=
      Value.depthItems_le_iff.mpr fun v hv => (hargs v hv).2
    have hplain : ∀ v ∈ r.args, Json.IsPlain v := fun v hv => by
      simpa using Value.isWithin_both (hargs v hv).1 (hnone v hv)
    rw [Json.readRequest?, Json.readRequest_writeRequest hplain hdepth]
    rfl
  · rintro r rfl
    obtain ⟨rest, hread⟩ := Json.fields_of_readResponse? (hresponse r rfl)
    obtain ⟨hwithin, hdepth⟩ := Json.readResponse_yields hread
    have hplain : Json.IsPlain r.wireResult := by
      have hmade := Response.wireResult_of_values (P := fun v => v.isMadeOf (fun _ => false) fun _ => true) rfl hnone
      simpa using Value.isWithin_both hwithin hmade
    rw [Json.readResponse?, Json.readResponse_writeResponse hplain hdepth]
    simp only [r.toResponse_fields]
    rfl

end Rpc
