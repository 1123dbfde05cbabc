import Mathlib
import Rpc.Proofs.Cbor.Accepted
import Rpc.Proofs.Json.Accepted

/-!
# Accepted bodies are stable

Readers take many more bodies than writers produce. Whatever a serializer accepts is a payload that it can write, and
that comes back then, unless a format has a reason of its own: doubles in JSON, and long keys in CBOR, which are read
behind another key and may be written in front of it. A response that carries both a result and an error is not accepted.
-/

namespace Rpc

/-- A response carries no result beside an error. -/
theorem Response.result_or_error (r : Response) : r.error? = none ∨ r.wireResult = .null := by
  obtain ⟨requestId, error | result⟩ := r
  · exact .inr rfl
  · exact .inl rfl

/-- **Every accepted body is stable.** The fields that are read of a response are those that the response has, of which
the result is null or the error is none. What is read, written by the same serializer, is read again: in CBOR if no key
of an object has more than 4096 bytes, in JSON if there are no doubles. -/
theorem Serializer.accepted_is_stable (type : MessageType) (body : Bytes) (p : Payload) :
    (Serializer.cbor.deserialize type body = .ok p →
      (∀ r, p = .response r → (r.error? = none ∨ r.wireResult = .null) ∧
        ∃ rest, Cbor.readResponse body = some (⟨r.requestId, r.wireResult, r.error?⟩, rest)) ∧
      ((∀ v ∈ p.values, v.isMadeOf (fun _ => true) Cbor.isKey) →
        ∃ written, Serializer.cbor.serialize p = .ok written ∧
          (written.length < 2 ^ 64 → Serializer.cbor.deserialize type written = .ok p))) ∧
    (Serializer.json.deserialize type body = .ok p →
      (∀ r, p = .response r → (r.error? = none ∨ r.wireResult = .null) ∧
        ∃ rest, Json.readResponse body = some (⟨r.requestId, r.wireResult, r.error?⟩, rest)) ∧
      ((∀ v ∈ p.values, v.isMadeOf (fun _ => false) fun _ => true) →
        ∃ written, Serializer.json.serialize p = .ok written ∧ Serializer.json.deserialize type written = .ok p)) := by
  refine ⟨fun h => ⟨fun r hr => ?_, fun hkeys => ?_⟩, fun h => ⟨fun r hr => ?_, Serializer.json_accepted h⟩⟩
  · have hread := (Serializer.of_ofRecords_eq_ok h).2.2 r hr
    exact ⟨r.result_or_error, Cbor.fields_of_readResponse? hread⟩
  · obtain ⟨written, hwritten⟩ : ∃ written, Serializer.cbor.serialize p = .ok written := by
      cases p <;> exact ⟨_, rfl⟩
    refine ⟨written, hwritten, fun hlen => ?_⟩
    obtain ⟨again, hagain, hback⟩ := Serializer.cbor_accepted h hkeys fun again hagain => by
      cases hwritten.symm.trans hagain
      exact hlen
    cases hwritten.symm.trans hagain
    exact hback
  · have hread := (Serializer.of_ofRecords_eq_ok h).2.2 r hr
    exact ⟨r.result_or_error, Json.fields_of_readResponse? hread⟩

/-- A response in CBOR of indefinite length, with its result in front of its id and no error. The result is an object of
indefinite length whose second key is of indefinite length too and comes first in order; it stands for a double that is
not a number. -/
def openEnded : Bytes :=
  [0xbf, 0x66, 0x72, 0x65, 0x73, 0x75, 0x6c, 0x74,
    0xbf, 0x61, 0x62, 0x18, 0x05, 0x7f, 0x61, 0x61, 0xff, 0xf9, 0x7e, 0x00, 0xff,
    0x6a, 0x72, 0x65, 0x71, 0x75, 0x65, 0x73, 0x74, 0x5f, 0x69, 0x64, 0x1a, 0x00, 0x00, 0x00, 0x07, 0xff]

/-- The same response in JSON, as an array of its fields up to the result. -/
def inPlaces : Bytes :=
  [0x5b, 0x37, 0x2c, 0x20, 0x7b, 0x22, 0x62, 0x22, 0x3a, 0x35, 0x2c, 0x22, 0x61, 0x22, 0x3a, 0x6e, 0x75, 0x6c, 0x6c,
    0x7d, 0x5d]

/-- What both of them stand for. -/
def sevenResponse : Payload := .response (.ok 7 (.object [("a", .null), ("b", .int 5)]))

theorem Serializer.accepted_is_stable_seven :
    Serializer.cbor.deserialize .response openEnded = .ok sevenResponse ∧
    Serializer.json.deserialize .response inPlaces = .ok sevenResponse ∧
    (∃ written, Serializer.cbor.serialize sevenResponse = .ok written ∧
      (written.length < 2 ^ 64 → Serializer.cbor.deserialize .response written = .ok sevenResponse)) ∧
    ∃ written, Serializer.json.serialize sevenResponse = .ok written ∧
      Serializer.json.deserialize .response written = .ok sevenResponse := by
  have hcbor : Serializer.cbor.deserialize .response openEnded = .ok sevenResponse := by cbv
  have hjson : Serializer.json.deserialize .response inPlaces = .ok sevenResponse := by cbv
  have hkeys : ∀ v ∈ sevenResponse.values, v.isMadeOf (fun _ => true) Cbor.isKey :=
    List.forall_mem_singleton.mpr (by decide +kernel)
  exact ⟨hcbor, hjson, ((Serializer.accepted_is_stable .response openEnded sevenResponse).1 hcbor).2 hkeys,
    ((Serializer.accepted_is_stable .response inPlaces sevenResponse).2 hjson).2 (List.forall_mem_singleton.mpr rfl)⟩

end Rpc
