import ZigbeeHost.Bytes
/-!
# Layouts of payload values

A `Codec` writes values of a type as bytes and reads them from the start of a byte
string, returning what follows. Codecs are built from words, flags, enumerations and
blocks of a fixed size by pairing and by counted lists, so a layout is the list of its
fields. Reading fails at the first field that the bytes do not hold.

A counted list carries its count as a field of its own : writing never corrects a count
that disagrees with the list, and `Consistent` says of a value that all counts agree.
-/

namespace ZigbeeHost

/-- Why bytes do not hold a value. -/
inductive DecodeFailure where
  /-- Fewer bytes are left than the next scalar of `bits` bits needs. -/
  | notEnough (bits : Nat)
  /-- No alternative of `enumeration` has this number. -/
  | unknownAlternative (id : UInt8) (enumeration : String)
  /-- A flag is neither zero nor one. -/
  | notFlag (value : UInt8)
  deriving DecidableEq

namespace DecodeFailure

/-- The failure in words. -/
def message : DecodeFailure → String
  | notEnough bits => s!"Not enough data, need {bits} bits (or {bits / 8} bytes)"
  | unknownAlternative id enumeration =>
    s!"Parse error: Could not match enum variant id = {id.toNat} on enum \x60{enumeration}\x60"
  | notFlag value => s!"Parse error: cannot parse bool value: {value.toNat}"

end DecodeFailure

/-- A way to write values as bytes and to read them from the start of a byte string. -/
structure Codec (α : Type) where
  write : α → Bytes
  read : Bytes → Except DecodeFailure (α × Bytes)
  /-- Every count in the value is the length of the list that it counts. -/
  Consistent : α → Prop

namespace Codec

variable {α β : Type}

/-! ## Scalars -/

/-- A word of `width` bytes, least significant first. -/
def word (width : Nat) (ofNat : Nat → α) (toNat : α → Nat) : Codec α where
  write v := littleEndian width (toNat v)
  read bytes :=
    if bytes.length < width then .error (.notEnough (8 * width))
    else .ok (ofNat (ofLittleEndian (bytes.take width)), bytes.drop width)
  Consistent _ := True

/-- One byte. -/
def u8 : Codec UInt8 := word 1 UInt8.ofNat UInt8.toNat
/-- Two bytes. -/
def u16 : Codec UInt16 := word 2 UInt16.ofNat UInt16.toNat
/-- Four bytes. -/
def u32 : Codec UInt32 := word 4 UInt32.ofNat UInt32.toNat
/-- Eight bytes. -/
def u64 : Codec UInt64 := word 8 UInt64.ofNat UInt64.toNat

/-- A flag : one byte, zero or one. -/
def flag : Codec Bool where
  write b := [if b then 1 else 0]
  read bytes := do
    let (v, rest) ← u8.read bytes
    if v = 0 then .ok (false, rest)
    else if v = 1 then .ok (true, rest)
    else .error (.notFlag v)
  Consistent _ := True

/-- An enumeration : one byte, the number of one of the alternatives `all`. -/
def enumeration (name : String) (all : List α) (id : α → UInt8) : Codec α where
  write v := [id v]
  read bytes := do
    let (v, rest) ← u8.read bytes
    match all.find? (fun a => id a == v) with
    | some a => .ok (a, rest)
    | none => .error (.unknownAlternative v name)
  Consistent _ := True

/-! ## Composite layouts -/

/-- One field after another. -/
def pair (a : Codec α) (b : Codec β) : Codec (α × β) where
  write v := a.write v.1 ++ b.write v.2
  read bytes := do
    let (x, rest) ← a.read bytes
    let (y, rest) ← b.read rest
    .ok ((x, y), rest)
  Consistent v := a.Consistent v.1 ∧ b.Consistent v.2

/-- A layout under another presentation of its values. -/
def map (c : Codec α) (present : α → β) (fields : β → α) : Codec β where
  write v := c.write (fields v)
  read bytes := do
    let (v, rest) ← c.read bytes
    .ok (present v, rest)
  Consistent v := c.Consistent (fields v)

/-- Reads `count` items. -/
def readItems (item : Codec α) : (count : Nat) → Bytes → Except DecodeFailure (List α × Bytes)
  | 0, bytes => .ok ([], bytes)
  | count + 1, bytes => do
    let (x, rest) ← item.read bytes
    let (xs, rest) ← item.readItems count rest
    .ok (x :: xs, rest)

/-- A count in one byte, followed by that many items. The count is a field of the value. -/
def counted (item : Codec α) : Codec (UInt8 × List α) where
  write v := u8.write v.1 ++ v.2.flatMap item.write
  read bytes := do
    let (count, rest) ← u8.read bytes
    let (xs, rest) ← item.readItems count.toNat rest
    .ok ((count, xs), rest)
  Consistent v := v.1.toNat = v.2.length ∧ ∀ x ∈ v.2, item.Consistent x

/-- A list written behind its length in one byte. A list of more than 255 items is
written whole behind the low byte of its length. -/
def list (item : Codec α) : Codec (List α) where
  write xs := item.counted.write (UInt8.ofNat xs.length, xs)
  read bytes := do
    let (v, rest) ← item.counted.read bytes
    .ok (v.2, rest)
  Consistent xs := xs.length < 256 ∧ ∀ x ∈ xs, item.Consistent x

/-- A byte string behind its length in one byte. -/
def byteString : Codec Bytes := u8.list

/-- Reads `n` bytes one at a time. -/
def readBlock : (n : Nat) → Bytes → Except DecodeFailure (Vector UInt8 n × Bytes)
  | 0, bytes => .ok (#v[], bytes)
  | n + 1, bytes => do
    let (b, rest) ← u8.read bytes
    let (block, rest) ← readBlock n rest
    .ok ((#v[b] ++ block).cast (Nat.add_comm 1 n), rest)

/-- A block of exactly `n` bytes. -/
def block (n : Nat) : Codec (Vector UInt8 n) where
  write v := v.toList
  read := readBlock n
  Consistent _ := True

end Codec

end ZigbeeHost
