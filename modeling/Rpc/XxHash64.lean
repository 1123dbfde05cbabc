import Rpc.Bytes

/-!
# xxHash, 64 bits

The hash of a byte string for a seed (`xxHash64`): four lanes over stripes of 32 bytes, then what is left in words of
eight, four and one bytes, then a final mixing.
-/

namespace Rpc.XxHash64

def prime₁ : UInt64 := 0x9e3779b185ebca87
def prime₂ : UInt64 := 0xc2b2ae3d27d4eb4f
def prime₃ : UInt64 := 0x165667b19e3779f9
def prime₄ : UInt64 := 0x85ebca77c2b2ae63
def prime₅ : UInt64 := 0x27d4eb2f165667c5

/-- Rotation to the left, by at least one and less than 64 bits. -/
def rotate (x n : UInt64) : UInt64 := (x <<< n) ||| (x >>> (64 - n))

/-- The word of some bytes, least significant first. -/
def word (bs : Bytes) : UInt64 := UInt64.ofNat (Bytes.toNat bs.reverse)

/-- A lane after one more word. -/
def round (lane input : UInt64) : UInt64 := rotate (lane + input * prime₂) 31 * prime₁

/-- The four lanes. -/
structure Lanes where
  a : UInt64
  b : UInt64
  c : UInt64
  d : UInt64

/-- The lanes at the start. -/
def Lanes.start (seed : UInt64) : Lanes := ⟨seed + prime₁ + prime₂, seed + prime₂, seed, seed - prime₁⟩

/-- The lanes after a stripe of 32 bytes. -/
def Lanes.step (l : Lanes) (stripe : Bytes) : Lanes :=
  ⟨round l.a (word (stripe.take 8)), round l.b (word ((stripe.drop 8).take 8)),
   round l.c (word ((stripe.drop 16).take 8)), round l.d (word ((stripe.drop 24).take 8))⟩

/-- The lanes after a number of stripes. -/
def Lanes.stripes : (n : Nat) → Lanes → Bytes → Lanes
  | 0, l, _ => l
  | n + 1, l, bs => stripes n (l.step (bs.take 32)) (bs.drop 32)

/-- The hash with a lane merged in. -/
def merge (h lane : UInt64) : UInt64 := (h ^^^ round 0 lane) * prime₁ + prime₄

/-- The lanes as one number. -/
def Lanes.finish (l : Lanes) : UInt64 :=
  let h := rotate l.a 1 + rotate l.b 7 + rotate l.c 12 + rotate l.d 18
  merge (merge (merge (merge h l.a) l.b) l.c) l.d

/-- The hash after a word of eight bytes. -/
def mixEight (h : UInt64) (bs : Bytes) : UInt64 := rotate (h ^^^ round 0 (word bs)) 27 * prime₁ + prime₄

/-- The hash after a word of four bytes. -/
def mixFour (h : UInt64) (bs : Bytes) : UInt64 := rotate (h ^^^ (word bs * prime₁)) 23 * prime₂ + prime₃

/-- The hash after a byte. -/
def mixOne (h : UInt64) (b : UInt8) : UInt64 := rotate (h ^^^ (b.toUInt64 * prime₅)) 11 * prime₁

/-- The hash after a number of words of eight bytes. -/
def mixEights : (n : Nat) → UInt64 → Bytes → UInt64
  | 0, h, _ => h
  | n + 1, h, bs => mixEights n (mixEight h (bs.take 8)) (bs.drop 8)

/-- The hash after fewer than 32 bytes. -/
def mixRest (h : UInt64) (bs : Bytes) : UInt64 :=
  let eights := bs.length / 8
  let h := mixEights eights h bs
  let bs := bs.drop (8 * eights)
  let four := 4 ≤ bs.length
  let h := if four then mixFour h (bs.take 4) else h
  (if four then bs.drop 4 else bs).foldl mixOne h

/-- The last mixing. -/
def avalanche (h : UInt64) : UInt64 :=
  let h := (h ^^^ (h >>> 33)) * prime₂
  let h := (h ^^^ (h >>> 29)) * prime₃
  h ^^^ (h >>> 32)

end Rpc.XxHash64

namespace Rpc

/-- The hash of a byte string. -/
def xxHash64 (seed : UInt64) (bs : Bytes) : UInt64 :=
  let n := bs.length
  let stripes := n / 32
  let h := if stripes = 0 then seed + XxHash64.prime₅
    else ((XxHash64.Lanes.start seed).stripes stripes bs).finish
  XxHash64.avalanche (XxHash64.mixRest (h + UInt64.ofNat n) (bs.drop (32 * stripes)))

end Rpc
