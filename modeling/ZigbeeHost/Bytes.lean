/-!
# Byte strings and words

Payloads, frames and buffers are lists of bytes. Words travel with their least
significant byte first : `littleEndian` writes the low `width` bytes of a number and
`ofLittleEndian` reads any number of bytes back. `checksum` is the exclusive or of a
byte string, which guards a frame on the serial line.
-/

namespace ZigbeeHost

/-- A byte string. -/
abbrev Bytes := List UInt8

/-- The low `width` bytes of `n`, least significant first. -/
def littleEndian : (width : Nat) → (n : Nat) → Bytes
  | 0, _ => []
  | width + 1, n => UInt8.ofNat n :: littleEndian width (n / 256)

/-- The number whose bytes, least significant first, are `bytes`. -/
def ofLittleEndian : (bytes : Bytes) → Nat
  | [] => 0
  | b :: rest => b.toNat + 256 * ofLittleEndian rest

@[simp] theorem length_littleEndian (width n : Nat) : (littleEndian width n).length = width := by
  induction width generalizing n with
  | zero => rfl
  | succ width ih => simp [littleEndian, ih]

/-- The exclusive or of all bytes. -/
def checksum (bytes : Bytes) : UInt8 :=
  bytes.foldl (· ^^^ ·) 0

end ZigbeeHost
