import Rpc.Deflate.Huffman
import Rpc.Deflate.Token

/-!
# Compression

All tokens go into one block with the fixed codes (`Deflate.compress`).
-/

namespace Rpc.Deflate

/-- The words of the fixed code of literals and match lengths. -/
def fixedLiteralWords : Array (List Bool) :=
  (Array.range 288).map (Huffman.codeword fixedLiteralLengths)

/-- The words of the fixed code of distances. -/
def fixedDistanceWords : Array (List Bool) :=
  (Array.range 32).map (Huffman.codeword fixedDistanceLengths)

/-- The last entry of a table whose base is not above `n`: its rank, its base and its extra bits. -/
def entryOf (bases : List (Nat × Nat)) (n : Nat) : Nat × Nat × Nat :=
  bases.zipIdx.foldl (fun found (entry, i) => if entry.1 ≤ n then (i, entry) else found) (0, 1, 0)

/-- The bits of a token. -/
def tokenBits : Token → List Bool
  | .literal b => fixedLiteralWords.getD b.toNat []
  | .copy length distance =>
    let (l, lengthBase, lengthExtra) := entryOf lengthBases length
    let (d, distanceBase, distanceExtra) := entryOf distanceBases distance
    fixedLiteralWords.getD (257 + l) [] ++ lowBits lengthExtra (length - lengthBase) ++
      (fixedDistanceWords.getD d [] ++ lowBits distanceExtra (distance - distanceBase))

/-- The bits in front of the tokens: the last block, with the fixed codes. -/
def fixedBlockHeader : List Bool := [true, true, false]

/-- The bits of a last block with the fixed codes. -/
def blockBits (tokens : List Token) : List Bool :=
  fixedBlockHeader ++ (tokens.flatMap tokenBits ++ fixedLiteralWords.getD endOfBlock [])

/-- The compressed form of a byte string. -/
def compress (bs : Bytes) : Bytes := packBits (blockBits (Token.ofBytes bs))

end Rpc.Deflate
