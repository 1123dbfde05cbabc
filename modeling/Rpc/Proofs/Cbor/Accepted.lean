import Rpc.Proofs.Cbor.Bodies
import Rpc.Proofs.Codec.Accepted

/-!
# CBOR bodies that are accepted

Heads of any width, strings and lists of any kind and fields in any order give values that CBOR can hold: integers of
64 bits, finite doubles and objects in order, nested no deeper than the reader allows. A key of an object can be of any
length unless it comes first, and may come first only when the object is put in order.

- `Cbor.readValue_yields`: values;
- `Cbor.readRecord_yields`: records, by what each field keeps;
- `Serializer.cbor_accepted`: a body that is accepted, written again, gives the same payload, if its keys are short
  enough.
-/

namespace Rpc

namespace Cbor

open Reader

variable {draft : Type} {field : FieldReader draft} {I : draft → Prop} {depth : Nat}

/-- A value that CBOR can hold, if its keys are left aside. -/
abbrev Holds (depth : Nat) (v : Value) : Prop := v.Fits Binary64.isFinite (fun _ => true) depth

/-! ## Values -/

theorem scalarTail_yields (h : Head) : Yields (scalarTail h) (Holds depth) := by
  have hint : Yields (do Reader.ofOption (Value.ofInt? (← integerTail h))) (Holds depth) :=
    .after fun n => .ofOption fun v hv => Value.fits_ofInt? hv
  cases h with
  | float x =>
    refine .pure ?_
    unfold Value.ofBinary64
    split
    · next hfinite => exact Value.fits_scalar hfinite rfl
    · exact Value.fits_scalar rfl rfl
  | text n => exact .after fun s => .pure (Value.fits_scalar rfl rfl)
  | simple n =>
    refine .ite (fun _ => .pure (Value.fits_scalar rfl rfl)) fun _ => ?_
    refine .ite (fun _ => .pure (Value.fits_scalar rfl rfl)) fun _ => ?_
    exact .ite (fun _ => .pure (Value.fits_scalar rfl rfl)) fun _ => .failure
  | bytes _ | array _ | map _ | stop => exact .failure
  | unsigned _ | negative _ | tag _ => exact hint

theorem items_yields {α : Type} {item : Reader α} {P : α → Prop} (h : Yields item P) (n : Option Nat) :
    Yields (items item n) fun as => ∀ a ∈ as, P a := by
  cases n with
  | none => exact h.untilStop 0xff
  | some n => exact h.count n

/-- The values of entries are what the reader of values gives. -/
theorem readEntries_yields {value : Reader Value} {P : Value → Prop} (h : Yields value P) (n : Option Nat) :
    Yields (readEntries value n) fun es => ∀ e ∈ es, P e.2 := by
  have hentry (key : Reader String) : Yields (readEntry key value) fun e => P e.2 :=
    .after fun _ => h.bind fun _ hv => .pure hv
  have hsome (others : Option Nat) : Yields (someEntries value others) fun es => ∀ e ∈ es, P e.2 :=
    (hentry readKey).bind fun e he => (items_yields (hentry readText) others).bind fun es hes =>
      .pure (List.forall_mem_cons.mpr ⟨he, hes⟩)
  have hnone : ∀ e ∈ ([] : List (String × Value)), P e.2 := List.forall_mem_nil _
  match n with
  | some 0 => exact .pure hnone
  | some (n + 1) => exact hsome (some n)
  | none => exact .after fun _ => .ite (fun _ => .pure hnone) fun _ => hsome none

/-- **What is read is a value that CBOR can hold,** nested no deeper than the reader allows. -/
theorem readValue_yields (depth : Nat) : Yields (readValue depth) (Holds depth) := by
  induction depth with
  | zero => exact .after scalarTail_yields
  | succ depth ih =>
    refine .after fun h => ?_
    split
    · next n => exact (items_yields ih n).bind fun vs hvs => .pure (Value.fits_array hvs)
    · next n =>
      exact (readEntries_yields ih n).bind fun es hes => .pure (Value.fits_ofEntries fun e he => ⟨rfl, hes e he⟩)
    · exact scalarTail_yields _

/-- The bytes of a byte string are integers. -/
theorem readValues_yields (depth : Nat) : Yields (readValues depth) fun vs => ∀ v ∈ vs, Holds depth v := by
  refine .after fun h => ?_
  split
  · exact items_yields (readValue_yields depth) _
  · refine .after fun bs => .pure fun v hv => ?_
    obtain ⟨b, -, rfl⟩ := List.mem_map.mp hv
    have hrange : Value.isIntegerInRange b.toNat := by
      have := b.toNat_lt
      simp only [Value.isIntegerInRange, Bool.and_eq_true, decide_eq_true_eq]
      omega
    exact Value.fits_scalar hrange rfl
  · exact .failure

/-! ## Records -/

theorem readField_yields (hfield : FieldsKeep field I) {d : draft} (hd : I d) : Yields (readField depth field d) I := by
  refine .after fun name => ?_
  split
  · next read hread =>
    obtain ⟨k, -, hk⟩ := Option.bind_eq_some_iff.mp hread
    exact hfield hk hd
  · exact .after fun _ => .pure hd

theorem countFields_yields (hfield : FieldsKeep field I) (n : Nat) {d : draft} (hd : I d) :
    Yields (countFields depth field n d) I := by
  induction n generalizing d with
  | zero => exact .pure hd
  | succ n ih => exact (readField_yields hfield hd).bind fun d hd => ih hd

theorem stopFields_yields (hfield : FieldsKeep field I) (fuel : Nat) {d : draft} (hd : I d) :
    Yields (stopFields depth field fuel d) I := by
  induction fuel generalizing d with
  | zero => exact .failure
  | succ fuel ih =>
    refine .after fun stop => .ite (fun _ => .pure hd) fun _ => ?_
    exact (readField_yields hfield hd).bind fun d hd => ih hd

/-- **A record keeps what its fields keep,** in whatever order they come. -/
theorem readRecord_yields (hfield : FieldsKeep field I) {d : draft} (hd : I d) :
    Yields (readRecord depth field d) I := by
  refine .after fun h => ?_
  split
  · exact countFields_yields hfield _ hd
  · exact .here fun bs => stopFields_yields hfield _ hd
  · exact .failure

theorem requestField_keeps : FieldsKeep requestField (·.Fits Binary64.isFinite (fun _ => true) (maxDepth - 2)) := by
  intro name d read hread hd
  unfold requestField at hread
  repeat' split at hread
  all_goals cases hread
  · exact .once _ (.any _) fun _ _ => hd
  · exact .once _ (.any _) fun _ _ => hd
  · exact .once _ (.any _) fun _ _ => hd
  · exact .once _ (readValues_yields _) fun vs hvs _ h => Option.some.inj h ▸ hvs

theorem responseField_keeps : FieldsKeep responseField (·.Fits Binary64.isFinite (fun _ => true) (maxDepth - 1)) := by
  intro name d read hread hd
  unfold responseField at hread
  repeat' split at hread
  all_goals cases hread
  · exact .once _ (.any _) fun _ _ => hd
  · exact .once _ (readValue_yields _) fun v hv _ h => Option.some.inj h ▸ hv
  · exact .once _ (.any _) fun _ _ => hd

/-! ## Bodies -/

theorem readRequest_yields : Yields readRequest fun r => ∀ v ∈ r.args, Holds (maxDepth - 2) v :=
  (readRecord_yields requestField_keeps RequestDraft.fits_empty).bind fun _ hd => .ofOption fun _ hr => hd.finish hr

theorem readResponse_yields : Yields readResponse fun f => Holds (maxDepth - 1) f.result :=
  (readRecord_yields responseField_keeps ResponseDraft.fits_empty).bind fun _ hd => .ofOption fun _ hf => hd.finish hf

theorem args_of_readRequest? {bs : Bytes} {r : Request} (h : readRequest? bs = .ok r) :
    ∀ v ∈ r.args, Holds (maxDepth - 2) v := by
  unfold readRequest? at h
  split at h
  · next hread =>
    cases h
    exact readRequest_yields hread
  · cases h

/-- The fields in an accepted body are those of the response. -/
theorem fields_of_readResponse? {bs : Bytes} {r : Response} (h : readResponse? bs = .ok r) :
    ∃ rest, readResponse bs = some (⟨r.requestId, r.wireResult, r.error?⟩, rest) := by
  unfold readResponse? at h
  split at h
  · next f rest hread =>
    obtain rfl := ResponseFields.eq_of_toResponse h
    exact ⟨rest, hread⟩
  · cases h

end Cbor

/-- **An accepted body with short keys comes back:** its payload, written again, is read as the same payload. -/
theorem Serializer.cbor_accepted {type : MessageType} {body : Bytes} {p : Payload}
    (h : Serializer.cbor.deserialize type body = .ok p)
    (hkeys : ∀ v ∈ p.values, v.isMadeOf (fun _ => true) Cbor.isKey)
    (hlen : ∀ written, Serializer.cbor.serialize p = .ok written → written.length < 2 ^ 64) :
    ∃ written, Serializer.cbor.serialize p = .ok written ∧ Serializer.cbor.deserialize type written = .ok p := by
  obtain ⟨hfits, hrequest, hresponse⟩ := Serializer.of_ofRecords_eq_ok h
  refine Serializer.ofRecords_round_trip hfits ?_ ?_
  · rintro r rfl
    have hargs := Cbor.args_of_readRequest? (hrequest r rfl)
    have hdepth : Value.depthItems r.args ≤ Cbor.maxDepth - 2 :=
      Value.depthItems_le_iff.mpr fun v hv => (hargs v hv).2
    have hwithin : ∀ v ∈ r.args, v.isWithin Binary64.isFinite Cbor.isKey := fun v hv => by
      simpa using Value.isWithin_both (hargs v hv).1 (hkeys v hv)
    rw [Cbor.readRequest?, Cbor.readRequest_writeRequest hwithin hdepth (hlen _ rfl)]
  · rintro r rfl
    obtain ⟨rest, hread⟩ := Cbor.fields_of_readResponse? (hresponse r rfl)
    obtain ⟨hholds, hdepth⟩ := Cbor.readResponse_yields hread
    have hwithin : r.wireResult.isWithin Binary64.isFinite Cbor.isKey := by
      have hmade := Response.wireResult_of_values (P := fun v => v.isMadeOf (fun _ => true) Cbor.isKey) rfl hkeys
      simpa using Value.isWithin_both hholds hmade
    rw [Cbor.readResponse?, Cbor.readResponse_writeResponse hwithin hdepth (hlen _ rfl)]
    exact r.toResponse_fields

end Rpc
