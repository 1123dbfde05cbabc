import Rpc.Deflate.Inflate

/-!
# Compressed streams

What a compressed stream is, whoever made it: the output is cut into blocks and the blocks into tokens in any way, and
every block is stored as it is, or written with the fixed codes or with codes of its own.

- `Tokens`: the tokens of a block, written with two codes;
- `CodeLengths`, `Codes`: the word lengths of two codes, in front of a block;
- `Block`, `Blocks`: one block, and all up to the last one;
- `Encodes`: the bytes that hold such a stream;
- `BlocksSoFar`: how far a stream goes that may be cut off;
- `Unfolds`, `UnfoldsSoFar`: the same for a stream whose copies may reach back before its start, where there are zeros
  (`blank`).
-/

namespace Rpc.Deflate

/-- A symbol has a word. -/
def Huffman.HasWord (lengths : List Nat) (symbol : Nat) : Prop :=
  ∃ l, lengths[symbol]? = some l ∧ 0 < l ∧ l ≤ maxCodeLength

/-- The bits that follow an entry of a table: how far a number is beyond the base. -/
inductive ExtraBits (bases : List (Nat × Nat)) (i n : Nat) : List Bool → Prop
  | intro {base extra : Nat} : bases[i]? = some (base, extra) → base ≤ n → n - base < 2 ^ extra →
      ExtraBits bases i n (lowBits extra (n - base))

/-! ## Tokens -/

/-- Bits that carry the output on from one to another, up to the end of a block. -/
inductive Tokens (literals distances : List Nat) : Array UInt8 → List Bool → Array UInt8 → Prop
  | stop {out : Array UInt8} : Huffman.HasWord literals endOfBlock →
      Tokens literals distances out (Huffman.codeword literals endOfBlock) out
  | literal {out after : Array UInt8} {b : UInt8} {bits : List Bool} : Huffman.HasWord literals b.toNat →
      Tokens literals distances (out.push b) bits after →
      Tokens literals distances out (Huffman.codeword literals b.toNat ++ bits) after
  /-- What is copied is there. -/
  | copy {out after : Array UInt8} {i length d distance : Nat} {lengthBits distanceBits bits : List Bool} :
      Huffman.HasWord literals (257 + i) → ExtraBits lengthBases i length lengthBits →
      Huffman.HasWord distances d → ExtraBits distanceBases d distance distanceBits → distance ≤ out.size →
      Tokens literals distances (Token.copyBack distance length out) bits after →
      Tokens literals distances out
        (Huffman.codeword literals (257 + i) ++ (lengthBits ++
          (Huffman.codeword distances d ++ (distanceBits ++ bits)))) after

/-! ## Codes -/

/-- Bits that carry a list of word lengths on to all of them. -/
inductive CodeLengths (code : List Nat) : List Nat → List Bool → List Nat → Prop
  | stop {all : List Nat} : CodeLengths code all [] all
  | one {sent all : List Nat} {l : Nat} {bits : List Bool} : l < 16 → Huffman.HasWord code l →
      CodeLengths code (sent ++ [l]) bits all → CodeLengths code sent (Huffman.codeword code l ++ bits) all
  /-- The last length again, three to six times. -/
  | again {sent all : List Nat} {l n : Nat} {bits : List Bool} : sent.getLast? = some l → n < 4 →
      Huffman.HasWord code 16 → CodeLengths code (sent ++ List.replicate (3 + n) l) bits all →
      CodeLengths code sent (Huffman.codeword code 16 ++ (lowBits 2 n ++ bits)) all
  /-- Three to ten zeros. -/
  | zeros {sent all : List Nat} {n : Nat} {bits : List Bool} : n < 8 → Huffman.HasWord code 17 →
      CodeLengths code (sent ++ List.replicate (3 + n) 0) bits all →
      CodeLengths code sent (Huffman.codeword code 17 ++ (lowBits 3 n ++ bits)) all
  /-- Eleven to 138 zeros. -/
  | manyZeros {sent all : List Nat} {n : Nat} {bits : List Bool} : n < 128 → Huffman.HasWord code 18 →
      CodeLengths code (sent ++ List.replicate (11 + n) 0) bits all →
      CodeLengths code sent (Huffman.codeword code 18 ++ (lowBits 7 n ++ bits)) all

/-- Bits that hold the word lengths of two codes, written with a third one that comes first. -/
inductive Codes : List Bool → List Nat → List Nat → Prop
  | intro {sent literals distances : List Nat} {bits : List Bool} :
      257 ≤ literals.length → literals.length ≤ 286 → 1 ≤ distances.length → distances.length ≤ 30 →
      4 ≤ sent.length → sent.length ≤ 19 → (∀ n ∈ sent, n < 8) → Huffman.isComplete (arrange sent) →
      CodeLengths (arrange sent) [] bits (literals ++ distances) → isUsable literals → isUsable distances →
      Codes (lowBits 5 (literals.length - 257) ++ (lowBits 5 (distances.length - 1) ++
        (lowBits 4 (sent.length - 4) ++ (sent.flatMap (lowBits 3) ++ bits)))) literals distances

/-! ## Blocks -/

/-- A block of some kind, by the bits that follow it. -/
inductive Block (rest : List Bool) : (kind : Nat) → Array UInt8 → List Bool → Array UInt8 → Prop
  /-- The bytes as they are, from the next whole byte on. -/
  | stored {out : Array UInt8} {pad : List Bool} {bytes : Bytes} : pad.length < 8 → rest.length % 8 = 0 →
      bytes.length ≤ 0xffff →
      Block rest 0 out (pad ++ (Bytes.littleEndian 2 bytes.length ++
        (Bytes.littleEndian 2 (0xffff - bytes.length) ++ bytes)).flatMap bitsOf) (out ++ bytes)
  | fixed {out after : Array UInt8} {bits : List Bool} :
      Tokens fixedLiteralLengths fixedDistanceLengths out bits after → Block rest 1 out bits after
  | dynamic {out after : Array UInt8} {front bits : List Bool} {literals distances : List Nat} :
      Codes front literals distances → Tokens literals distances out bits after → Block rest 2 out (front ++ bits) after

/-- The blocks up to the last one, and what fills the last byte. -/
inductive Blocks : Array UInt8 → List Bool → Array UInt8 → Prop
  | last {kind : Nat} {out after : Array UInt8} {bits pad : List Bool} : Block pad kind out bits after →
      pad.length < 8 → Blocks out (true :: (lowBits 2 kind ++ (bits ++ pad))) after
  | next {kind : Nat} {out mid after : Array UInt8} {bits rest : List Bool} : Block rest kind out bits mid →
      Blocks mid rest after → Blocks out (false :: (lowBits 2 kind ++ (bits ++ rest))) after

/-- A compressed form of a byte string. -/
def Encodes (compressed content : Bytes) : Prop := Blocks #[] (compressed.flatMap bitsOf) content.toArray

/-! ## Beginnings -/

/-- The bits of one token. -/
inductive OneToken (literals distances : List Nat) : Array UInt8 → List Bool → Array UInt8 → Prop
  | literal {out : Array UInt8} {b : UInt8} : Huffman.HasWord literals b.toNat →
      OneToken literals distances out (Huffman.codeword literals b.toNat) (out.push b)
  | copy {out : Array UInt8} {i length d distance : Nat} {lengthBits distanceBits : List Bool} :
      Huffman.HasWord literals (257 + i) → ExtraBits lengthBases i length lengthBits →
      Huffman.HasWord distances d → ExtraBits distanceBases d distance distanceBits → distance ≤ out.size →
      OneToken literals distances out
        (Huffman.codeword literals (257 + i) ++ (lengthBits ++ (Huffman.codeword distances d ++ distanceBits)))
        (Token.copyBack distance length out)

/-- The first tokens of a block. -/
inductive TokensSoFar (literals distances : List Nat) : Array UInt8 → List Bool → Array UInt8 → Prop
  | none {out : Array UInt8} : TokensSoFar literals distances out [] out
  | next {out mid after : Array UInt8} {bits rest : List Bool} : OneToken literals distances out bits mid →
      TokensSoFar literals distances mid rest after → TokensSoFar literals distances out (bits ++ rest) after

/-- The beginning of a block of some kind: its first tokens, or its first bytes with more to come. -/
inductive BlockSoFar : (kind : Nat) → Array UInt8 → List Bool → Array UInt8 → Prop
  | none {kind : Nat} {out : Array UInt8} : BlockSoFar kind out [] out
  | stored {out : Array UInt8} {pad : List Bool} {bytes : Bytes} {more : Nat} : pad.length < 8 →
      bytes.length + more ≤ 0xffff →
      BlockSoFar 0 out (pad ++ (Bytes.littleEndian 2 (bytes.length + more) ++
        (Bytes.littleEndian 2 (0xffff - (bytes.length + more)) ++ bytes)).flatMap bitsOf) (out ++ bytes)
  | fixed {out after : Array UInt8} {bits : List Bool} :
      TokensSoFar fixedLiteralLengths fixedDistanceLengths out bits after → BlockSoFar 1 out bits after
  | dynamic {out after : Array UInt8} {front bits : List Bool} {literals distances : List Nat} :
      Codes front literals distances → TokensSoFar literals distances out bits after →
      BlockSoFar 2 out (front ++ bits) after

/-- Bits that begin with blocks, the last of which may be cut off, and carry the output on so far. -/
inductive BlocksSoFar : Array UInt8 → List Bool → Array UInt8 → Prop
  | none {out : Array UInt8} {unread : List Bool} : BlocksSoFar out unread out
  | within {final : Bool} {kind : Nat} {out after : Array UInt8} {bits unread : List Bool} :
      BlockSoFar kind out bits after → BlocksSoFar out (final :: (lowBits 2 kind ++ (bits ++ unread))) after
  | next {kind : Nat} {out mid after : Array UInt8} {bits rest : List Bool} : Block rest kind out bits mid →
      BlocksSoFar mid rest after → BlocksSoFar out (false :: (lowBits 2 kind ++ (bits ++ rest))) after

/-! ## The window -/

/-- What a copy finds before the start of the output. -/
def blank : Array UInt8 := Array.replicate Token.maxDistance 0

/-- A compressed form of a byte string, in which copies may reach back before its start. -/
def Unfolds (compressed content : Bytes) : Prop := Blocks blank (compressed.flatMap bitsOf) (blank ++ content)

/-- Bytes that begin with such a form of a byte string, or of one that begins with it. -/
def UnfoldsSoFar (bs content : Bytes) : Prop := BlocksSoFar blank (bs.flatMap bitsOf) (blank ++ content)

end Rpc.Deflate
