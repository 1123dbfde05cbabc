import Rpc.Bytes

/-!
# Readers

A `Reader` takes a value off the front of a byte string, or refuses. A loop without a known number of items is bounded
by the number of bytes left, since every item takes at least one.

- `Reader.byte`, `Reader.peek`, `Reader.take`, `Reader.literal`: the smallest readers;
- `Reader.count`: a given number of items; `Reader.untilStop`: items up to a stop byte;
- `Reader.separated`: items with commas between them up to a closing byte.
-/

namespace Rpc

/-- A value off the front of a byte string, with what follows it, or a refusal. -/
abbrev Reader := StateT Bytes Option

namespace Reader

variable {α : Type}

/-- The next byte. -/
def byte : Reader UInt8
  | [] => none
  | b :: rest => some (b, rest)

/-- The next byte, which stays where it is. -/
def peek : Reader UInt8
  | [] => none
  | b :: rest => some (b, b :: rest)

/-- Whether the next byte is `b`; it is taken if so. -/
def accept (b : UInt8) : Reader Bool
  | [] => some (false, [])
  | c :: rest => some (if c = b then (true, rest) else (false, c :: rest))

/-- The next byte has to be `b`. -/
def expect (b : UInt8) : Reader Unit
  | [] => none
  | c :: rest => if c = b then some ((), rest) else none

/-- The next bytes have to be `bs`. -/
def literal : Bytes → Reader Unit
  | [], rest => some ((), rest)
  | _ :: _, [] => none
  | b :: bs, c :: rest => if c = b then literal bs rest else none

/-- The next `n` bytes. -/
def take (n : Nat) : Reader Bytes := fun bs =>
  let front := bs.take n
  if front.length = n then some (front, bs.drop n) else none

/-- All bytes up to the first that fails the test. -/
def takeWhile (p : UInt8 → Bool) : Reader Bytes := fun bs =>
  some (bs.takeWhile p, bs.dropWhile p)

/-- The value, unless there is none. -/
def ofOption : Option α → Reader α
  | none, _ => none
  | some a, rest => some (a, rest)

/-! ## Loops -/

/-- The steps of `count`, with the items read so far, last one first. -/
def countFrom (item : Reader α) : (n : Nat) → List α → Reader (List α)
  | 0, done, rest => some (done.reverse, rest)
  | n + 1, done, rest =>
    match item rest with
    | none => none
    | some (a, rest) => countFrom item n (a :: done) rest

/-- Exactly `n` items. -/
def count (item : Reader α) (n : Nat) : Reader (List α) :=
  countFrom item n []

/-- The steps of `untilStop`, with the items read so far, last one first. -/
def untilStopFrom (item : Reader α) (stop : UInt8) : (fuel : Nat) → List α → Reader (List α)
  | 0, _, _ => none
  | _ + 1, _, [] => none
  | fuel + 1, done, b :: rest =>
    if b = stop then some (done.reverse, rest) else
      match item (b :: rest) with
      | none => none
      | some (a, rest) => untilStopFrom item stop fuel (a :: done) rest

/-- Items up to a byte that is no start of an item. -/
def untilStop (item : Reader α) (stop : UInt8) : Reader (List α) := fun bs =>
  untilStopFrom item stop (bs.length + 1) [] bs

/-- The steps of `separated` from an item on. -/
def separatedFrom (blanks : Reader Unit) (item : Reader α) (comma close : UInt8) :
    (fuel : Nat) → List α → Reader (List α)
  | 0, _, _ => none
  | fuel + 1, done, bs =>
    match item bs with
    | none => none
    | some (a, rest) =>
      match blanks rest with
      | none => none
      | some (_, []) => none
      | some (_, b :: rest) =>
        if b = close then some ((a :: done).reverse, rest)
        else if b = comma then separatedFrom blanks item comma close fuel (a :: done) rest
        else none

/-- Items with `comma` between them up to `close`; blanks may stand around each of them. -/
def separated (blanks : Reader Unit) (item : Reader α) (comma close : UInt8) : Reader (List α) := fun bs =>
  match blanks bs with
  | none => none
  | some (_, []) => none
  | some (_, b :: rest) =>
    if b = close then some ([], rest)
    else separatedFrom blanks item comma close (rest.length + 1) [] (b :: rest)

end Reader

end Rpc
