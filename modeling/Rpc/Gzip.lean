import Rpc.Crc32
import Rpc.Deflate.Inflate
import Rpc.Deflate.Writer
import Rpc.Panic

/-!
# gzip members

- `Gzip.compress`: one member without optional header fields;
- `Gzip.decompress`: the content of the first member; what follows it is ignored. Reading stops one byte past the
  limit, and a limit to which one cannot be added in 64 bits ends the program.

Decompression runs a window of 32 KiB at a time, so a fault hides what its own window already holds: content beyond
the limit is `tooLarge` only once the window that holds the first byte beyond it is through.
-/

namespace Rpc.Gzip

/-- Why there is no content. -/
inductive Fault where
  /-- Not a member, or one that does not end as it says. -/
  | corrupt
  /-- The content is longer than the limit. -/
  | tooLarge
  deriving DecidableEq

/-! ## Writing -/

/-- The fixed header of a member: no flags, no time, unknown system. -/
def header : Bytes := [0x1f, 0x8b, 0x08, 0, 0, 0, 0, 0, 0, 0xff]

/-- The checksum and the length of the content. -/
def trailer (checksum : UInt32) (length : Nat) : Bytes :=
  Bytes.littleEndian 4 checksum.toNat ++ Bytes.littleEndian 4 length

/-- The member with the given content. -/
def compress (content : Bytes) : Bytes :=
  header ++ (Deflate.compress content ++ trailer (crc32 content) content.length)

/-! ## Header -/

/-- Optional text fields of a header are at most this long. -/
def maxHeaderText : Nat := 65535

/-- A text field of a header and the zero byte behind it gone. -/
def dropText (bs : Bytes) : Option Bytes :=
  match bs.dropWhile (· ≠ 0) with
  | [] => none
  | _ :: rest => if bs.length ≤ maxHeaderText + 1 + rest.length then some rest else none

/-- The extra field of a header gone. -/
def dropExtra : Bytes → Option Bytes
  | a :: b :: rest =>
    let length := Bytes.toNat [b, a]
    if (rest.take length).length = length then some (rest.drop length) else none
  | _ => none

/-- The checksum of the header gone, if it is the one of the bytes from `start` up to it. -/
def dropHeaderChecksum (start bs : Bytes) : Option Bytes :=
  match bs with
  | a :: b :: rest =>
    let covered := start.take (start.length - bs.length)
    if Bytes.toNat [b, a] = (crc32 covered).toNat % 2 ^ 16 then some rest else none
  | _ => none

/-- Applies `drop` if a flag is set. -/
def ifFlag (flags : UInt8) (bit : Nat) (drop : Bytes → Option Bytes) (bs : Bytes) : Option Bytes :=
  if flags.toNat.testBit bit then drop bs else some bs

/-- What follows the header of a member. -/
def dropHeader (start : Bytes) : Option Bytes :=
  match start with
  | 0x1f :: 0x8b :: 0x08 :: flags :: _ :: _ :: _ :: _ :: _ :: _ :: rest =>
    if 0x20 ≤ flags then none else do
      let rest ← ifFlag flags 2 dropExtra rest
      let rest ← ifFlag flags 3 dropText rest
      let rest ← ifFlag flags 4 dropText rest
      ifFlag flags 1 (dropHeaderChecksum start) rest
  | _ => none

/-! ## Reading -/

/-- The size of the window of decompression. -/
def window : Nat := 32768

/-- The content of the first member of at most `bound - 1` bytes. -/
def decompressBelow (bound : Nat) (bs : Bytes) : Except Fault Bytes :=
  match dropHeader bs with
  | none => .error .corrupt
  | some rest =>
    let cap := window * ((bound - 1) / window + 1)
    match Deflate.inflate cap rest with
    | .full => .error .tooLarge
    | .fault => .error .corrupt
    | .starved out => if bound ≤ out.size then .error .tooLarge else .error .corrupt
    | .done out rest =>
      if bound ≤ out.size then .error .tooLarge
      else
        let content := out.toList
        if rest.take 8 = trailer (crc32 content) out.size then .ok content else .error .corrupt

/-- The content of the first member, of at most `limit` bytes. The bound on what is read is one more than the limit, and
this sum is checked. -/
def decompress (limit : Nat) (bs : Bytes) : Except Panic (Except Fault Bytes) := do
  let bound ← checkedAdd limit 1
  return decompressBelow bound bs

end Rpc.Gzip
