import Rpc.Bytes
import Rpc.Codec.Registry

/-!
# Frames

A frame is a header of 16 bytes and a body. The header holds the magic, the version, the length of the whole frame in
32 bits, the type, the ids of serializer and compressor, and the request id, all numbers most significant byte first.

- `FrameHeader.parse`: the header at the front of a buffer, checked as far as its bytes go;
- `FrameCodec.encodeOnto`, `FrameCodec.encode`: the frame of a message behind other bytes, or nothing;
- `FrameCodec.encodeInto`: the frame written into a buffer part by part;
- `FrameCodec.decode`: the next step on a buffer: wait, take a frame off its front, or give up;
- `FrameCodec.drain`: all frames that are complete; `FrameCodec.finish`: the step at the end of the stream.
-/

namespace Rpc

/-! ## Headers -/

/-- The bytes at the start of every frame. -/
def magic : Bytes := [0x73, 0x72, 0x70, 0x63]

/-- The version of the protocol. -/
def protocolVersion : UInt8 := 1

/-- The length of a header. -/
def headerLength : Nat := 16

/-- Where the length stands in a header. -/
def lengthOffset : Nat := 5

/-- The longest frame unless configured otherwise. -/
def defaultMaxFrameLength : Nat := 4 * 1024 * 1024

/-- The fields of a header with the right magic and version. -/
structure FrameHeader where
  /-- The length of the frame, header included. -/
  fullLength : Nat
  /-- The type byte, known or not. -/
  type : UInt8
  serializer : UInt8
  compressor : UInt8
  requestId : UInt32
  deriving DecidableEq

/-- Why there is no header. -/
inductive HeaderFault where
  | protocol (e : ProtocolError)
  /-- What is there is right, but there is not enough of it. -/
  | incomplete
  deriving DecidableEq

namespace FrameHeader

/-- The length of the body. -/
def bodyLength (h : FrameHeader) : Nat := h.fullLength - headerLength

/-- Checks whatever part of magic and version is there. -/
def checkPrefix (buf : Bytes) : Except ProtocolError Unit :=
  let seen := buf.take 4
  if seen ≠ magic.take seen.length then
    .error (.badMagic (seen ++ List.replicate (4 - seen.length) 0))
  else
    match buf[4]? with
    | some v => if v = protocolVersion then .ok () else .error (.incompatibleVersion protocolVersion v)
    | none => .ok ()

/-- Checks a declared length. -/
def checkLength (max size : Nat) : Except ProtocolError Unit :=
  if max < size then .error (.frameTooLarge size max)
  else if size < headerLength then .error (.frameTooShort size)
  else .ok ()

/-- The header at the front of a buffer. -/
def parse (max : Nat) (buf : Bytes) : Except HeaderFault FrameHeader := do
  (checkPrefix buf).mapError .protocol
  match buf.drop lengthOffset with
  | l₁ :: l₂ :: l₃ :: l₄ :: rest =>
    let size := Bytes.toNat [l₁, l₂, l₃, l₄]
    (checkLength max size).mapError .protocol
    match rest with
    | t :: s :: c :: i₁ :: i₂ :: i₃ :: i₄ :: _ =>
      .ok ⟨size, t, s, c, UInt32.ofNat (Bytes.toNat [i₁, i₂, i₃, i₄])⟩
    | _ => .error .incomplete
  | _ => .error .incomplete

end FrameHeader

/-! ## Errors -/

/-- Why a message has no frame. -/
inductive EncodeError where
  | protocol (e : ProtocolError)
  | codec (e : CodecError)
  deriving DecidableEq

namespace EncodeError

/-- The connection cannot be used any more. -/
def isFatal : EncodeError → Bool
  | .protocol _ => true
  | .codec _ => false

/-- The wording in messages to people. -/
def message : EncodeError → String
  | .protocol e => "Protocol error: " ++ e.message
  | .codec e => "Codec error: " ++ e.message

end EncodeError

/-- Why a stream ends for good. -/
inductive StreamError where
  | protocol (e : ProtocolError)
  /-- The stream ends inside a frame. -/
  | truncated
  deriving DecidableEq

/-- The wording in messages to people. -/
def StreamError.message : StreamError → String
  | .protocol e => "Protocol error: " ++ e.message
  | .truncated => "I/O error: bytes remaining on stream"

/-- A frame whose body cannot be read. Its header still says which request it is about. -/
structure FrameError where
  header : FrameHeader
  source : CodecError
  deriving DecidableEq

/-- The wording in messages to people. -/
def FrameError.message (e : FrameError) : String := "Undecodable frame: " ++ e.source.message

/-- What a complete frame gives. -/
abbrev Inbound := Except FrameError Message

/-! ## Encoding -/

/-- Turns messages into frames and back. -/
structure FrameCodec where
  codecs : CodecRegistry
  maxFrameLength : Nat := defaultMaxFrameLength

namespace FrameCodec

/-- The body of a message. -/
def encodeBody (c : FrameCodec) (m : Message) : Except CodecError Bytes :=
  if !m.payload.fits m.type then .error (.payloadMismatch m.type.name)
  else if m.type.isHeartbeat then .ok []
  else do
    let body ← (← c.codecs.serializer m.serializer).serialize m.payload
    match ← c.codecs.compressor m.compressor with
    | some k => k.compress body
    | none => .ok body

/-- The header of a message, with zero in the place of the length of its frame. -/
def headerWithoutLength (m : Message) : Bytes :=
  magic ++ protocolVersion :: (Bytes.bigEndian 4 0 ++
    m.type.toByte :: m.serializer :: m.compressor :: Bytes.bigEndian 4 m.requestId.toNat)

/-- The buffer with the frame of a message behind its content. The length of the frame is filled in once the frame is
there; its field holds the low 32 bits. -/
def encodeOnto (c : FrameCodec) (m : Message) (buf : Bytes) : Except EncodeError Bytes := do
  let body ← (c.encodeBody m).mapError .codec
  let size := headerLength + body.length
  if c.maxFrameLength < size then .error (.protocol (.frameTooLarge size c.maxFrameLength))
  else
    let written := buf ++ headerWithoutLength m ++ body
    .ok (Bytes.overwrite written (buf.length + lengthOffset) (Bytes.bigEndian 4 (written.length - buf.length)))

/-- Writes the frame of a message behind what a buffer holds, part by part. What was written before a failure stays. -/
def encodeInto (c : FrameCodec) (m : Message) : ExceptT EncodeError (StateM Bytes) Unit := do
  let body ← (c.encodeBody m).mapError EncodeError.codec
  let size := headerLength + body.length
  if c.maxFrameLength < size then throw (.protocol (.frameTooLarge size c.maxFrameLength))
  let start := (← get).length
  modify (· ++ headerWithoutLength m)
  modify (· ++ body)
  modify fun buf => Bytes.overwrite buf (start + lengthOffset) (Bytes.bigEndian 4 (buf.length - start))

/-- The frame of a message. -/
def encode (c : FrameCodec) (m : Message) : Except EncodeError Bytes := c.encodeOnto m []

/-! ## Decoding -/

/-- The message with a header and a body, for codecs that return (see `readBody`). -/
def decodeBody (c : FrameCodec) (h : FrameHeader) (body : Bytes) : Except CodecError Message :=
  match MessageType.ofByte? h.type with
  | none => .error (.unknownMessageType h.type)
  | some type => do
    let payload ←
      if type.isHeartbeat then .ok .empty
      else do
        let body ← match ← c.codecs.compressor h.compressor with
          | some k => k.returned c.maxFrameLength body
          | none => .ok body
        (← c.codecs.serializer h.serializer).deserialize type body
    .ok ⟨type, h.serializer, h.compressor, h.requestId, payload⟩

/-- What can be done with a buffer. -/
inductive Step where
  /-- Nothing until more bytes come. -/
  | wait
  /-- A frame is taken off the front. -/
  | item (item : Inbound) (rest : Bytes)
  | fatal (e : ProtocolError)

/-- The next step on a buffer. Wrong magic or version is found as soon as its bytes are there, the rest of the header
when it is complete; no frame is looked into before it is complete. -/
def decode (c : FrameCodec) (buf : Bytes) : Step :=
  match FrameHeader.checkPrefix buf with
  | .error e => .fatal e
  | .ok () =>
    if buf.length < headerLength then .wait
    else
      match FrameHeader.parse c.maxFrameLength buf with
      | .error (.protocol e) => .fatal e
      | .error .incomplete => .wait
      | .ok h =>
        if buf.length < h.fullLength then .wait
        else
          let body := (buf.take h.fullLength).drop headerLength
          .item ((c.decodeBody h body).mapError fun e => ⟨h, e⟩) (buf.drop h.fullLength)

/-- What a buffer holds: complete frames, the bytes behind them, and whether those are no frame. -/
structure Drained where
  items : List Inbound
  rest : Bytes
  fatal : Option ProtocolError

/-- The steps of `drain`. -/
def drainFrom (c : FrameCodec) : (fuel : Nat) → Bytes → Drained
  | 0, buf => ⟨[], buf, none⟩
  | fuel + 1, buf =>
    match c.decode buf with
    | .wait => ⟨[], buf, none⟩
    | .fatal e => ⟨[], buf, some e⟩
    | .item i rest =>
      let d := drainFrom c fuel rest
      { d with items := i :: d.items }

/-- All complete frames of a buffer; each of them takes a header's length at least. -/
def drain (c : FrameCodec) (buf : Bytes) : Drained :=
  drainFrom c (buf.length / headerLength + 1) buf

/-- What each piece of a stream completes, with the bytes left over from the pieces before; nothing after an error. -/
def feed (c : FrameCodec) : (buf : Bytes) → (pieces : List Bytes) → List Drained
  | _, [] => []
  | buf, piece :: pieces =>
    let d := c.drain (buf ++ piece)
    match d.fatal with
    | some _ => [d]
    | none => d :: feed c d.rest pieces

/-- How a stream ends with a buffer left. -/
inductive Ending where
  | clean
  | item (item : Inbound)
  | fatal (e : StreamError)

/-- The step at the end of a stream. -/
def finish (c : FrameCodec) (buf : Bytes) : Ending :=
  match c.decode buf with
  | .item i _ => .item i
  | .fatal e => .fatal (.protocol e)
  | .wait => if buf.isEmpty then .clean else .fatal .truncated

end FrameCodec

end Rpc
