import Rpc.Bytes

/-!
# CRC-32

The checksum of gzip: the reflected polynomial `0xedb88320`, with all bits inverted before and after.
-/

namespace Rpc

/-- One bit of the division by the polynomial. -/
def crcBit (r : UInt32) : UInt32 := if r &&& 1 = 0 then r >>> 1 else (r >>> 1) ^^^ 0xedb88320

/-- The register after one more byte. -/
def crcByte (r : UInt32) (b : UInt8) : UInt32 := Nat.repeat crcBit 8 (r ^^^ b.toUInt32)

/-- The checksum of a byte string. -/
def crc32 (bs : Bytes) : UInt32 := bs.foldl crcByte 0xffffffff ^^^ 0xffffffff

end Rpc
