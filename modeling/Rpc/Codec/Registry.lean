import Rpc.Bytes
import Rpc.Codec.Error
import Rpc.Panic
import Rpc.Table

/-!
# Codecs by id

Serializers and compressors are records of functions (`Serializer`, `Compressor`), found by the ids in a frame's
header (`CodecRegistry`). Compressor id 0 is always understood: it means none.
-/

namespace Rpc

/-- Turns payloads into bodies and back. -/
structure Serializer where
  name : String
  serialize : Payload → Except CodecError Bytes
  deserialize : MessageType → Bytes → Except CodecError Payload

/-- Makes bodies shorter and long again. -/
structure Compressor where
  name : String
  compress : Bytes → Except CodecError Bytes
  /-- The content of a compressed body, of at most `limit` bytes. A call may also end the program. -/
  decompress : (limit : Nat) → Bytes → Except Panic (Except CodecError Bytes)

/-- What a call of decompression returns. Nobody gets to see what stands here for a call that ends the program. -/
def Compressor.returned (k : Compressor) (limit : Nat) (body : Bytes) : Except CodecError Bytes :=
  match k.decompress limit body with
  | .ok r => r
  | .error _ => .error (.decompressionFailed "no content")

theorem Compressor.returned_of_ok {k : Compressor} {limit : Nat} {body : Bytes} {r : Except CodecError Bytes}
    (h : k.decompress limit body = .ok r) : k.returned limit body = r := by
  rw [returned, h]

/-- Serializers and compressors by id. -/
structure CodecRegistry where
  serializers : Table UInt8 Serializer
  compressors : Table UInt8 Compressor

namespace CodecRegistry

/-- No serializers, and no compressor but none. -/
def empty : CodecRegistry := ⟨.empty, .empty⟩

/-- With a serializer under an id, in place of the one before. -/
def registerSerializer (r : CodecRegistry) (id : UInt8) (s : Serializer) : CodecRegistry :=
  { r with serializers := r.serializers.set id s }

/-- With a compressor under an id, in place of the one before. -/
def registerCompressor (r : CodecRegistry) (id : UInt8) (c : Compressor) : Except CodecError CodecRegistry :=
  if id = compressorOff then .error .reservedCompressorId
  else .ok { r with compressors := r.compressors.set id c }

/-- The serializer of an id. -/
def serializer (r : CodecRegistry) (id : UInt8) : Except CodecError Serializer :=
  match r.serializers.get? id with
  | some s => .ok s
  | none => .error (.unknownSerializer id)

/-- The compressor of an id; none for the id that means none. -/
def compressor (r : CodecRegistry) (id : UInt8) : Except CodecError (Option Compressor) :=
  if id = compressorOff then .ok none
  else
    match r.compressors.get? id with
    | some c => .ok (some c)
    | none => .error (.unknownCompressor id)

/-- Entries in ascending order of ids. -/
def ascending {α : Type} (t : Table UInt8 α) : List (UInt8 × α) :=
  t.entries.mergeSort fun a b => a.1 ≤ b.1

/-- The least id of a serializer with a name. -/
def serializerId? (r : CodecRegistry) (name : String) : Option UInt8 :=
  ((ascending r.serializers).find? fun (_, s) => s.name == name).map (·.1)

/-- The least id of a compressor with a name; `off` and `none` are names of none. -/
def compressorId? (r : CodecRegistry) (name : String) : Option UInt8 :=
  if name = "off" ∨ name = "none" then some compressorOff
  else ((ascending r.compressors).find? fun (_, c) => c.name == name).map (·.1)

/-- Ids and names, in ascending order of ids. -/
def nameList (entries : List (UInt8 × String)) : String :=
  "[" ++ String.intercalate ", " (entries.map fun (id, name) =>
    "(" ++ toString id.toNat ++ ", \"" ++ name ++ "\")") ++ "]"

/-- All ids and names. -/
def summary (r : CodecRegistry) : String :=
  "CodecRegistry \x7b serializers: " ++ nameList ((ascending r.serializers).map fun (id, s) => (id, s.name)) ++
    ", compressors: " ++ nameList ((ascending r.compressors).map fun (id, c) => (id, c.name)) ++ " \x7d"

end CodecRegistry

end Rpc
