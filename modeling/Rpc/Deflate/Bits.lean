import Rpc.Bytes

/-!
# Bit streams

DEFLATE packs bits into bytes from the least significant bit up. A stream is read as the list of its bits
(`BitStream.toList`), of which only the current byte is ever spelled out.

- `BitStream.next?`, `BitStream.bits?`: one bit, and a number of a given width;
- `BitStream.align`: the whole bytes that follow;
- `packBits`: bits as bytes, the last one filled up with zeros.
-/

namespace Rpc.Deflate

/-- The bits of a byte, least significant first. -/
def bitsOf (b : UInt8) : List Bool :=
  (List.range 8).map fun i => b.toNat.testBit i

/-- The `width` low bits of `n`, least significant first. -/
def lowBits (width n : Nat) : List Bool :=
  (List.range width).map n.testBit

/-- The `width` low bits of `n`, most significant first. -/
def codeBits (width n : Nat) : List Bool := (lowBits width n).reverse

/-- The number written by bits, least significant first. -/
def bitsToNat : List Bool → Nat
  | [] => 0
  | b :: bs => b.toNat + 2 * bitsToNat bs

/-- The unread bits: those of the current byte, then whole bytes. -/
structure BitStream where
  current : List Bool
  rest : Bytes

namespace BitStream

/-- The stream of all bits of a byte string. -/
def ofBytes (bs : Bytes) : BitStream := ⟨[], bs⟩

/-- All unread bits. -/
def toList (s : BitStream) : List Bool := s.current ++ s.rest.flatMap bitsOf

/-- An upper bound on the number of unread bits. -/
def bound (s : BitStream) : Nat := s.current.length + 8 * s.rest.length

/-- The next bit. -/
def next? (s : BitStream) : Option (Bool × BitStream) :=
  match s.current with
  | b :: bs => some (b, ⟨bs, s.rest⟩)
  | [] =>
    match s.rest with
    | [] => none
    | c :: cs =>
      match bitsOf c with
      | b :: bs => some (b, ⟨bs, cs⟩)
      | [] => none

/-- A number of `width` bits, least significant first. -/
def bits? : (width : Nat) → BitStream → Option (Nat × BitStream)
  | 0, s => some (0, s)
  | width + 1, s => do
    let (b, s) ← s.next?
    let (n, s) ← bits? width s
    some (b.toNat + 2 * n, s)

/-- The whole bytes behind the current one. -/
def align (s : BitStream) : Bytes := s.rest

end BitStream

/-- The byte made of up to eight bits, least significant first. -/
def packByte (bits : List Bool) : UInt8 := UInt8.ofNat (bitsToNat bits)

/-- The steps of `packBits`: bits of the byte under way, and finished bytes, both last one first. -/
def packFrom (byte : List Bool) (done : Bytes) : List Bool → Bytes
  | [] => if byte.isEmpty then done.reverse else (packByte byte.reverse :: done).reverse
  | b :: bs =>
    if byte.length = 7 then packFrom [] (packByte (b :: byte).reverse :: done) bs
    else packFrom (b :: byte) done bs

/-- Bits as bytes, the last one filled up with zeros. -/
def packBits (bits : List Bool) : Bytes := packFrom [] [] bits

end Rpc.Deflate
