import ZigbeeHost.Command
import ZigbeeHost.Failure
/-!
# Frames on the serial line

A frame travels as a start byte, the length of its payload, a byte that packs its kind
and subsystem, its id, the payload, and a checksum over all but the start byte.

`Frame.encode` writes a frame and `Frame.decode` reads one from exactly its bytes.
`resync` drops what cannot begin a frame, so that a reader finds the next frame after
any noise, and `missing` says how many bytes are still needed.
-/

namespace ZigbeeHost

/-- The byte that starts a frame. -/
def startByte : UInt8 := 0xFE

/-- The bytes of a frame besides its payload. -/
def frameOverhead : Nat := 5

namespace Frame

/-- Kind and subsystem in one byte. -/
def packedKind (f : Frame) : UInt8 := f.kind.bits <<< 4 ||| f.command.subsystem.bits

/-- The frame without its checksum. -/
def unchecked (f : Frame) : Bytes :=
  startByte :: UInt8.ofNat f.payload.length :: f.packedKind :: f.command.id :: f.payload

/-- Writes the frame behind `before`. The checksum covers the whole buffer but its first
byte, so a frame is only good on an empty one. -/
def encodeOnto (before : Bytes) (f : Frame) : Except TransportFailure Bytes :=
  if f.payload.length > maxPayloadLength then .error (.invalidFrame .payloadTooLong)
  else
    let buffer := before ++ f.unchecked
    .ok (buffer ++ [checksum (buffer.drop 1)])

/-- The bytes of the frame. -/
def encode (f : Frame) : Except TransportFailure Bytes := f.encodeOnto []

/-- Reads a frame from exactly its bytes. The first fault found counts : the size, the
length field, the checksum, the kind. -/
def decode (bytes : Bytes) : Except TransportFailure Frame :=
  match bytes with
  | start :: len :: packed :: id :: rest =>
    if rest.isEmpty ∨ start ≠ startByte then .error (.invalidFrame .tooSmall)
    else if bytes.length ≠ len.toNat + frameOverhead then .error (.invalidFrame .badLength)
    else
      let payload := rest.take len.toNat
      if checksum (len :: packed :: id :: payload) ≠ rest.getLastD 0 then
        .error (.invalidFrame .badChecksum)
      else
        match FrameKind.ofBits? (packed >>> 4) with
        | none => .error (.invalidFrame .unknownKind)
        | some kind => .ok ⟨kind, ⟨.ofBits packed, id⟩, payload⟩
  | _ => .error (.invalidFrame .tooSmall)

end Frame

/-- Drops bytes until the rest is empty, or begins with a start byte that no impossible
length follows. -/
def resync : (buffer : Bytes) → Bytes
  | [] => []
  | [b] => if b = startByte then [b] else []
  | b :: len :: rest =>
    if b = startByte ∧ len.toNat ≤ maxPayloadLength then b :: len :: rest
    else resync (len :: rest)

/-- How many bytes a resynchronised buffer lacks until it holds its header, or after
that its frame. -/
def missing : (buffer : Bytes) → Nat
  | _ :: len :: rest => (len.toNat + frameOverhead) - (rest.length + 2)
  | buffer => 2 - buffer.length

end ZigbeeHost
