import Rpc.Deflate.Bits

/-!
# Canonical Huffman codes

A code is given by the lengths of its words, symbol by symbol, 0 for a symbol without a word. Words of one length are
consecutive numbers in the order of their symbols, and shorter words come first.

- `Huffman.codeword`: the word of a symbol;
- `Huffman.ofLengths`: the decoder, with the number of words of each length and the symbols in the order of the words;
- `Huffman.decode`: the next symbol of a stream;
- `Huffman.isComplete`: every long enough sequence of bits starts with a word.
-/

namespace Rpc.Deflate

/-- The longest word of a code. -/
def maxCodeLength : Nat := 15

/-- What a step of decompression meets. -/
inductive Step (α : Type) where
  | value (a : α) (rest : BitStream)
  /-- The stream ends too early. -/
  | starved
  /-- The stream cannot go on like this. -/
  | fault

/-- A code, ready for decoding. -/
structure Huffman where
  /-- How many words there are of length 1, 2, … -/
  counts : List Nat
  /-- The symbols in the order of their words. -/
  symbols : Array Nat

namespace Huffman

/-- How many symbols have words of a length. -/
def countOf (lengths : List Nat) (length : Nat) : Nat := lengths.count length

/-- The first word of a length. -/
def firstCode (lengths : List Nat) : (length : Nat) → Nat
  | 0 => 0
  | l + 1 => 2 * (firstCode lengths l + if l = 0 then 0 else countOf lengths l)

/-- The word of a symbol; empty if it has none. -/
def codeword (lengths : List Nat) (symbol : Nat) : List Bool :=
  match lengths[symbol]? with
  | none | some 0 => []
  | some l => codeBits l (firstCode lengths l + countOf (lengths.take symbol) l)

/-- The symbols with words of a length, in order. -/
def symbolsOf (lengths : List Nat) (length : Nat) : List Nat :=
  (lengths.zipIdx.filter (·.1 = length)).map (·.2)

/-- The decoder of a code. -/
def ofLengths (lengths : List Nat) : Huffman where
  counts := (List.range maxCodeLength).map fun l => countOf lengths (l + 1)
  symbols := ((List.range maxCodeLength).flatMap fun l => symbolsOf lengths (l + 1)).toArray

/-- The steps of `decode`: `first` is the first word and `index` the rank of its symbol among all, both for the words
of the next length, and `code` holds the bits read so far. -/
def decodeFrom (symbols : Array Nat) : (counts : List Nat) → (code first index : Nat) → BitStream → Step Nat
  | [], _, _, _, _ => .fault
  | n :: counts, code, first, index, s =>
    match s.next? with
    | none => .starved
    | some (b, s) =>
      let code := 2 * code + b.toNat
      let first := 2 * first
      if code < first + n then
        match symbols[index + (code - first)]? with
        | some symbol => .value symbol s
        | none => .fault
      else decodeFrom symbols counts code (first + n) (index + n) s

/-- The next symbol. -/
def decode (h : Huffman) (s : BitStream) : Step Nat := decodeFrom h.symbols h.counts 0 0 0 s

/-- The share of all sequences of bits that start with a word, in units of the longest words. -/
def weight (lengths : List Nat) : Nat :=
  (lengths.filter (0 < ·)).foldr (fun l n => 2 ^ (maxCodeLength - l) + n) 0

/-- Every long enough sequence of bits starts with exactly one word. -/
def isComplete (lengths : List Nat) : Bool := weight lengths = 2 ^ maxCodeLength

/-- At most one symbol has a word. -/
def isSingle (lengths : List Nat) : Bool := (lengths.filter (0 < ·)).length ≤ 1

end Huffman

/-! ## The codes of DEFLATE -/

/-- Word lengths of the fixed code of literals and match lengths. -/
def fixedLiteralLengths : List Nat :=
  List.replicate 144 8 ++ List.replicate 112 9 ++ List.replicate 24 7 ++ List.replicate 8 8

/-- Word lengths of the fixed code of distances. -/
def fixedDistanceLengths : List Nat := List.replicate 32 5

/-- The symbol at the end of a block. -/
def endOfBlock : Nat := 256

/-- The least match length of the symbols from 257 on, and how many extra bits follow them. -/
def lengthBases : List (Nat × Nat) :=
  [(3, 0), (4, 0), (5, 0), (6, 0), (7, 0), (8, 0), (9, 0), (10, 0), (11, 1), (13, 1), (15, 1), (17, 1), (19, 2),
   (23, 2), (27, 2), (31, 2), (35, 3), (43, 3), (51, 3), (59, 3), (67, 4), (83, 4), (99, 4), (115, 4), (131, 5),
   (163, 5), (195, 5), (227, 5), (258, 0)]

/-- The least distance of each symbol, and how many extra bits follow it. -/
def distanceBases : List (Nat × Nat) :=
  [(1, 0), (2, 0), (3, 0), (4, 0), (5, 1), (7, 1), (9, 2), (13, 2), (17, 3), (25, 3), (33, 4), (49, 4), (65, 5),
   (97, 5), (129, 6), (193, 6), (257, 7), (385, 7), (513, 8), (769, 8), (1025, 9), (1537, 9), (2049, 10), (3073, 10),
   (4097, 11), (6145, 11), (8193, 12), (12289, 12), (16385, 13), (24577, 13)]

end Rpc.Deflate
