import Rpc.Cbor.Reader
import Rpc.Cbor.Writer
import Rpc.Codec.Registry
import Rpc.Gzip
import Rpc.Json.Reader
import Rpc.Json.Writer

/-!
# The built-in codecs

CBOR and JSON bodies, gzip, and the registry that has them under their ids, and nothing else (`CodecRegistry.builtin`).
-/

namespace Rpc

/-- The failure of a body that cannot be read. -/
def CodecError.ofBody (e : BodyError) : CodecError := .deserializationFailed e.text

/-- A serializer from the writers and readers of the two records. Nothing is written for an empty payload, and nothing
is read for a heartbeat. -/
def Serializer.ofRecords (name : String) (writeRequest : Request → Bytes) (writeResponse : Response → Bytes)
    (readRequest : Bytes → Except BodyError Request) (readResponse : Bytes → Except BodyError Response) :
    Serializer where
  name := name
  serialize
    | .empty => .ok []
    | .request r => .ok (writeRequest r)
    | .response r => .ok (writeResponse r)
  deserialize type body :=
    match type with
    | .request => (readRequest body).mapError .ofBody |>.map .request
    | .response => (readResponse body).mapError .ofBody |>.map .response
    | .heartbeatRequest | .heartbeatResponse => .ok .empty

/-- Bodies in CBOR. -/
def Serializer.cbor : Serializer :=
  .ofRecords "cbor" (Cbor.writeRequest · []) (Cbor.writeResponse · []) Cbor.readRequest? Cbor.readResponse?

/-- Bodies in JSON. -/
def Serializer.json : Serializer :=
  .ofRecords "json" (Json.writeRequest · []) (Json.writeResponse · []) Json.readRequest? Json.readResponse?

/-- The failure of a gzip member. -/
def CodecError.ofGzip (limit : Nat) : Gzip.Fault → CodecError
  | .corrupt => .decompressionFailed "corrupt gzip member"
  | .tooLarge => .decompressedTooLarge limit

/-- Bodies as gzip members. -/
def Compressor.gzip : Compressor where
  name := "gzip"
  compress body := .ok (Gzip.compress body)
  decompress limit body := (Gzip.decompress limit body).map (·.mapError (.ofGzip limit))

/-- The registry of the built-in codecs. -/
def CodecRegistry.builtin : CodecRegistry where
  serializers := (Table.empty.set serializerCbor .cbor).set serializerJson .json
  compressors := Table.empty.set compressorGzip .gzip

/-- The registry has the built-in serializers and no others. -/
theorem CodecRegistry.serializer_builtin {id : UInt8} {s : Serializer}
    (h : CodecRegistry.builtin.serializer id = .ok s) : s = .cbor ∨ s = .json := by
  have hget : CodecRegistry.builtin.serializers.get? id =
      if serializerJson = id then some .json else if serializerCbor = id then some .cbor else none := by
    simp [CodecRegistry.builtin, Table.get?_set]
  unfold CodecRegistry.serializer at h
  rw [hget] at h
  split at h
  · next t ht =>
    cases h
    split at ht
    · exact .inr (Option.some.inj ht).symm
    · split at ht
      · exact .inl (Option.some.inj ht).symm
      · cases ht
  · cases h

/-- The registry has gzip and no other compressor. -/
theorem CodecRegistry.compressor_builtin {id : UInt8} {k : Compressor}
    (h : CodecRegistry.builtin.compressor id = .ok (some k)) : id = compressorGzip ∧ k = .gzip := by
  have hget : CodecRegistry.builtin.compressors.get? id = if compressorGzip = id then some .gzip else none := by
    simp [CodecRegistry.builtin, Table.get?_set]
  unfold CodecRegistry.compressor at h
  split at h
  · cases h
  · rw [hget] at h
    split at h
    · next t ht =>
      cases h
      split at ht
      · next hid => exact ⟨hid.symm, (Option.some.inj ht).symm⟩
      · cases ht
    · cases h

theorem CodecRegistry.compressor_gzip : CodecRegistry.builtin.compressor compressorGzip = .ok (some .gzip) := rfl

end Rpc
