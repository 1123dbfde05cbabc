import Rpc.Message
import Rpc.Text.Hex

/-!
# Errors of bodies and frames

- `CodecError`: a body cannot be written or read; the stream stays aligned on frames;
- `ProtocolError`: the stream is not, or no longer, a sequence of frames; the connection is lost.
-/

namespace Rpc

/-- Why a body cannot be written or read. -/
inductive CodecError where
  | unknownSerializer (id : UInt8)
  | unknownCompressor (id : UInt8)
  /-- The id that means no compression cannot be given to a compressor. -/
  | reservedCompressorId
  | unknownMessageType (type : UInt8)
  | payloadMismatch (type : String)
  | serializationFailed (detail : String)
  | deserializationFailed (detail : String)
  | compressionFailed (detail : String)
  | decompressionFailed (detail : String)
  | decompressedTooLarge (max : Nat)
  deriving DecidableEq

/-- The wording in messages to people. -/
def CodecError.message : CodecError → String
  | .unknownSerializer id => "Unknown serializer id: " ++ toString id.toNat
  | .unknownCompressor id => "Unknown compressor id: " ++ toString id.toNat
  | .reservedCompressorId => "Compressor id 0 is reserved"
  | .unknownMessageType type => "Unknown message type: " ++ Hex.short type
  | .payloadMismatch type => "Payload does not match message type " ++ type
  | .serializationFailed detail => "Failed to serialize: " ++ detail
  | .deserializationFailed detail => "Failed to deserialize: " ++ detail
  | .compressionFailed detail => "Failed to compress: " ++ detail
  | .decompressionFailed detail => "Failed to decompress: " ++ detail
  | .decompressedTooLarge max => "Decompressed body exceeds " ++ toString max ++ " bytes"

/-- Why a stream is not a sequence of frames. -/
inductive ProtocolError where
  /-- The first bytes of the frame; those not yet received are zero. -/
  | badMagic (found : List UInt8)
  | incompatibleVersion (expected actual : UInt8)
  | frameTooLarge (size max : Nat)
  | frameTooShort (size : Nat)
  deriving DecidableEq

/-- The wording in messages to people. -/
def ProtocolError.message : ProtocolError → String
  | .badMagic found => "Unknown magic number: [" ++ String.intercalate ", " (found.map Hex.ofByte) ++ "]"
  | .incompatibleVersion expected actual =>
    "Incompatible version: expected " ++ toString expected.toNat ++ ", got " ++ toString actual.toNat
  | .frameTooLarge size max => "Frame size " ++ toString size ++ " exceeds maximum " ++ toString max
  | .frameTooShort size => "Frame size " ++ toString size ++ " is smaller than the header"

end Rpc
