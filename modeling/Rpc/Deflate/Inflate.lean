import Rpc.Deflate.Huffman
import Rpc.Deflate.Token

/-!
# Decompression

`Deflate.inflate` runs a stream block by block until it is done, until it would write more than `cap` bytes, until the
input ends or until it meets a fault (`Inflated`).

Codes have to be complete, except that a code of literals or distances may have a single word or none.
-/

namespace Rpc.Deflate

/-- How decompression ends. -/
inductive Inflated where
  /-- All blocks are read; the bytes behind them follow. -/
  | done (out : Array UInt8) (rest : Bytes)
  /-- The output would grow beyond the cap. -/
  | full
  /-- The input ends before the last block does. -/
  | starved (out : Array UInt8)
  | fault

/-- How a block ends. -/
inductive BlockEnd where
  | next (out : Array UInt8) (rest : BitStream)
  | full
  | starved (out : Array UInt8)
  | fault

/-! ## Blocks of tokens -/

/-- The number given by an entry of a table and its extra bits. -/
def readExtra (bases : List (Nat × Nat)) (i : Nat) (s : BitStream) : Step Nat :=
  match bases[i]? with
  | none => .fault
  | some (base, extra) =>
    match s.bits? extra with
    | none => .starved
    | some (n, s) => .value (base + n) s

/-- The distance of a copy. -/
def readDistance (distances : Huffman) (s : BitStream) : Step Nat :=
  match distances.decode s with
  | .value symbol s => readExtra distanceBases symbol s
  | .starved => .starved
  | .fault => .fault

/-- The token with a given symbol, which is not the end of the block. -/
def readToken (distances : Huffman) (symbol : Nat) (s : BitStream) : Step Token :=
  if symbol < endOfBlock then .value (.literal (UInt8.ofNat symbol)) s
  else
    match readExtra lengthBases (symbol - 257) s with
    | .value length s =>
      match readDistance distances s with
      | .value distance s => .value (.copy length distance) s
      | .starved => .starved
      | .fault => .fault
    | .starved => .starved
    | .fault => .fault

/-- The tokens of a block up to its end; each of them takes a bit at least. -/
def readTokens (literals distances : Huffman) (cap : Nat) : (fuel : Nat) → Array UInt8 → BitStream → BlockEnd
  | 0, _, _ => .fault
  | fuel + 1, out, s =>
    match literals.decode s with
    | .starved => .starved out
    | .fault => .fault
    | .value symbol s =>
      if symbol = endOfBlock then .next out s
      else
        match readToken distances symbol s with
        | .starved => .starved out
        | .fault => .fault
        | .value t s =>
          if out.size + t.width ≤ cap then readTokens literals distances cap fuel (t.emit out) s else .full

/-! ## Blocks as they are -/

/-- The bytes of a stored block. -/
def readStored (cap : Nat) (out : Array UInt8) (s : BitStream) : BlockEnd :=
  match s.align with
  | a :: b :: c :: d :: rest =>
    let length := Bytes.toNat [b, a]
    if Bytes.toNat [d, c] + length = 0xffff then
      let block := rest.take length
      if cap < out.size + block.length then .full
      else
        let out := out ++ block
        if block.length < length then .starved out
        else .next out (.ofBytes (rest.drop length))
    else .fault
  | _ => .starved out

/-! ## Codes sent with a block -/

/-- The order in which the word lengths of the code of word lengths are sent. -/
def lengthOrder : List Nat := [16, 17, 18, 0, 8, 7, 9, 6, 10, 5, 11, 4, 12, 3, 13, 2, 14, 1, 15]

/-- `n` numbers of three bits. -/
def readThrees : (n : Nat) → BitStream → Option (List Nat × BitStream)
  | 0, s => some ([], s)
  | n + 1, s => do
    let (a, s) ← s.bits? 3
    let (as, s) ← readThrees n s
    some (a :: as, s)

/-- The word lengths of the code of word lengths, symbol by symbol. -/
def arrange (sent : List Nat) : List Nat :=
  (List.range 19).map fun symbol => ((lengthOrder.zip sent).lookup symbol).getD 0

/-- What a symbol of the code of word lengths stands for: a length and how often it comes. -/
def readRun (symbol : Nat) (last : Option Nat) (s : BitStream) : Step (Nat × Nat) :=
  let run (length width least : Nat) : Step (Nat × Nat) :=
    match s.bits? width with
    | none => .starved
    | some (n, s) => .value (length, least + n) s
  if symbol < 16 then .value (symbol, 1) s
  else if symbol = 16 then
    match last with
    | none => .fault
    | some l => run l 2 3
  else if symbol = 17 then run 0 3 3
  else run 0 7 11

/-- Word lengths until there are `total` of them; `done` holds them last one first. -/
def readLengths (code : Huffman) (total : Nat) : (fuel : Nat) → (done : List Nat) → BitStream → Step (List Nat)
  | 0, _, _ => .fault
  | fuel + 1, done, s =>
    if done.length = total then .value done.reverse s
    else if total < done.length then .fault
    else
      match code.decode s with
      | .starved => .starved
      | .fault => .fault
      | .value symbol s =>
        match readRun symbol done.head? s with
        | .starved => .starved
        | .fault => .fault
        | .value (length, times) s => readLengths code total fuel (List.replicate times length ++ done) s

/-- A code that may be used: complete, or with a single word at most. -/
def isUsable (lengths : List Nat) : Bool := Huffman.isComplete lengths || Huffman.isSingle lengths

/-- The two codes in front of a block, as their word lengths. -/
def readCodes (s : BitStream) : Step (List Nat × List Nat) :=
  match (do
    let (literals, s) ← s.bits? 5
    let (distances, s) ← s.bits? 5
    let (sent, s) ← s.bits? 4
    let literals := literals + 257
    let distances := distances + 1
    some (literals, distances, sent + 4, s)) with
  | none => .starved
  | some (literals, distances, sent, s) =>
    if 286 < literals || 30 < distances then .fault
    else
      match readThrees sent s with
      | none => .starved
      | some (sent, s) =>
        let lengths := arrange sent
        if !Huffman.isComplete lengths then .fault
        else
          match readLengths (.ofLengths lengths) (literals + distances) (literals + distances + 1) [] s with
          | .starved => .starved
          | .fault => .fault
          | .value all s =>
            let (ls, ds) := (all.take literals, all.drop literals)
            if isUsable ls && isUsable ds then .value (ls, ds) s else .fault

/-! ## Streams -/

/-- The decoder of the fixed code of literals and match lengths. -/
def fixedLiterals : Huffman := .ofLengths fixedLiteralLengths

/-- The decoder of the fixed code of distances. -/
def fixedDistances : Huffman := .ofLengths fixedDistanceLengths

/-- A block of the given kind. -/
def readBlock (cap kind : Nat) (out : Array UInt8) (s : BitStream) : BlockEnd :=
  if kind = 0 then readStored cap out s
  else if kind = 1 then readTokens fixedLiterals fixedDistances cap (s.bound + 1) out s
  else if kind = 2 then
    match readCodes s with
    | .starved => .starved out
    | .fault => .fault
    | .value (ls, ds) s => readTokens (.ofLengths ls) (.ofLengths ds) cap (s.bound + 1) out s
  else .fault

/-- The blocks up to the last one; each of them takes three bits at least. -/
def readBlocks (cap : Nat) : (fuel : Nat) → Array UInt8 → BitStream → Inflated
  | 0, _, _ => .fault
  | fuel + 1, out, s =>
    match (do
      let (final, s) ← s.bits? 1
      let (kind, s) ← s.bits? 2
      some (final, kind, s)) with
    | none => .starved out
    | some (final, kind, s) =>
      match readBlock cap kind out s with
      | .full => .full
      | .starved out => .starved out
      | .fault => .fault
      | .next out s => if final = 1 then .done out s.align else readBlocks cap fuel out s

/-- The output of a compressed stream, of no more than `cap` bytes. -/
def inflate (cap : Nat) (bs : Bytes) : Inflated :=
  let s := BitStream.ofBytes bs
  readBlocks cap (s.bound + 1) #[] s

end Rpc.Deflate
