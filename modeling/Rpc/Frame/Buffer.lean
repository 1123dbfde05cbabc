import Rpc.Frame

/-!
# Frames off a buffer

`FrameCodec.decode` says what a buffer gives to codecs that return. Here a frame comes off a buffer by the operations on
bytes that do it, one after the other, and an operation that is asked for what is not there ends the program (`Panic`),
as a compressor may do.

- `Cursor`: fields read one behind the other; `FrameHeader.read`: a header, field by field;
- `Buffer.reserve`, `Buffer.splitTo`: what a buffer does for a frame;
- `FrameCodec.readBody`: the message of a frame, and `FrameCodec.Returns`: no compressor ends the program;
- `FrameCodec.takeFrame`: the next step on a buffer, and `FrameCodec.Drains`: that step again and again, until it gives
  nothing or an error.
-/

namespace Rpc

/-! ## Operations -/

namespace Bytes

/-- The first `n` bytes. -/
def first (n : Nat) (bs : Bytes) : Except Panic Bytes :=
  if n ≤ bs.length then .ok (bs.take n) else .error .outOfBounds

/-- The bytes with others in the place of the first `n`. -/
def copyFirst (n : Nat) (new bs : Bytes) : Except Panic Bytes :=
  if n ≤ bs.length ∧ new.length = n then .ok (new ++ bs.drop n) else .error .outOfBounds

end Bytes

/-- Reads bytes from the front on. -/
abbrev Cursor := StateT Bytes (Except Panic)

namespace Cursor

/-- Leaves out `n` bytes. -/
def advance (n : Nat) : Cursor Unit := fun bs =>
  if n ≤ bs.length then .ok ((), bs.drop n) else .error .outOfBounds

/-- The next byte. -/
def byte : Cursor UInt8
  | b :: bs => .ok (b, bs)
  | [] => .error .outOfBounds

/-- The next four bytes as a number. -/
def word : Cursor Nat := fun bs =>
  if 4 ≤ bs.length then .ok (Bytes.toNat (bs.take 4), bs.drop 4) else .error .outOfBounds

end Cursor

/-! ## Headers -/

namespace FrameHeader

/-- Checks whatever part of magic and version is there. -/
def checkFront (buf : Bytes) : Except Panic (Except ProtocolError Unit) := do
  let seen := min buf.length 4
  let front ← Bytes.first seen buf
  if front ≠ (← Bytes.first seen magic) then
    return .error (.badMagic (← Bytes.copyFirst seen front (List.replicate 4 0)))
  else
    match buf[4]? with
    | some v => return if v = protocolVersion then .ok () else .error (.incompatibleVersion protocolVersion v)
    | none => return .ok ()

/-- The fields from the length on. -/
def readFields (max : Nat) : Cursor (Except ProtocolError FrameHeader) := do
  Cursor.advance lengthOffset
  let size ← Cursor.word
  match checkLength max size with
  | .error e => return .error e
  | .ok () =>
    let type ← Cursor.byte
    let serializer ← Cursor.byte
    let compressor ← Cursor.byte
    let requestId ← Cursor.word
    return .ok ⟨size, type, serializer, compressor, UInt32.ofNat requestId⟩

/-- The header that a slice of bytes holds. -/
def read (max : Nat) (slice : Bytes) : Except Panic (Except ProtocolError FrameHeader) := do
  match ← checkFront slice with
  | .error e => return .error e
  | .ok () => (readFields max).run' slice

/-- The length of the body. -/
def checkedBodyLength (h : FrameHeader) : Except Panic Nat := checkedSub h.fullLength headerLength

end FrameHeader

/-! ## Buffers -/

/-- Bytes that came in and are not taken. -/
structure Buffer where
  bytes : Bytes
  /-- For how many bytes there is space. -/
  space : Nat
  deriving DecidableEq

namespace Buffer

/-- The most space that one buffer can have. -/
def maxSpace : Nat := 2 ^ 63 - 1

/-- Makes space for `n` more bytes. -/
def reserve (n : Nat) : StateT Buffer (Except Panic) Unit := fun b =>
  if b.bytes.length + n ≤ maxSpace then .ok ((), { b with space := max b.space (b.bytes.length + n) })
  else .error .capacity

/-- Takes the first `n` bytes, and their space with them. -/
def splitTo (n : Nat) : StateT Buffer (Except Panic) Bytes := fun b => do
  let front ← b.bytes.first n
  .ok (front, ⟨b.bytes.drop n, b.space - n⟩)

end Buffer

/-! ## Frames -/

namespace FrameCodec

/-- The message with a header and a body. -/
def readBody (c : FrameCodec) (h : FrameHeader) (body : Bytes) : ExceptT CodecError (Except Panic) Message :=
  match MessageType.ofByte? h.type with
  | none => throw (.unknownMessageType h.type)
  | some type => do
    let payload ←
      if type.isHeartbeat then pure .empty
      else do
        let body ← match ← c.codecs.compressor h.compressor with
          | some k => ExceptT.mk (k.decompress c.maxFrameLength body)
          | none => pure body
        (← c.codecs.serializer h.serializer).deserialize type body
    return ⟨type, h.serializer, h.compressor, h.requestId, payload⟩

/-- Decompression returns, whatever bytes it is called with. -/
def Returns (c : FrameCodec) : Prop :=
  ∀ id k, c.codecs.compressor id = .ok (some k) → ∀ body, ∃ r, k.decompress c.maxFrameLength body = .ok r

/-- The next step on a buffer: a frame off its front, nothing, or an error about the stream. -/
def takeFrame (c : FrameCodec) : StateT Buffer (Except Panic) (Except ProtocolError (Option Inbound)) := do
  let buf := (← get).bytes
  match ← FrameHeader.checkFront buf with
  | .error e => return .error e
  | .ok () =>
    if buf.length < headerLength then return .ok none
    else
      match ← FrameHeader.read c.maxFrameLength (← buf.first headerLength) with
      | .error e => return .error e
      | .ok header =>
        if buf.length < header.fullLength then
          Buffer.reserve (← checkedSub header.fullLength buf.length)
          return .ok none
        else
          let frame ← Buffer.splitTo header.fullLength
          let ((), body) ← (Cursor.advance headerLength).run frame
          let message ← (c.readBody header body).run
          return .ok (some (message.mapError fun e => ⟨header, e⟩))

/-- Steps until one gives nothing or an error: the frames that come off, the error, and the buffer behind them. -/
inductive Drains (c : FrameCodec) : Buffer → List Inbound → Option ProtocolError → Buffer → Prop
  | nothing {b b' : Buffer} : c.takeFrame.run b = .ok (.ok none, b') → Drains c b [] none b'
  | fatal {b b' : Buffer} {e : ProtocolError} : c.takeFrame.run b = .ok (.error e, b') → Drains c b [] (some e) b'
  | item {b b' last : Buffer} {i : Inbound} {items : List Inbound} {e : Option ProtocolError} :
      c.takeFrame.run b = .ok (.ok (some i), b') → Drains c b' items e last → Drains c b (i :: items) e last

end FrameCodec

end Rpc
