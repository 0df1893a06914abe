import ZigbeeHost.Payload.Codec
import ZigbeeHost.Payload.Datum
/-!
# Layouts with names

A `Layout` is a codec together with the names of the fields that it writes, so its values
can also be presented as data and parsed from data. `Fields` are part of a record : they
are joined one after the other and closed by `record`.
-/

namespace ZigbeeHost

/-- A codec whose values can be presented as data. -/
structure Layout (α : Type) extends Codec α where
  present : α → Datum
  parse : Datum → Option α

/-- Some fields of a record, one after the other. -/
structure Fields (α : Type) extends Codec α where
  present : α → List (String × Datum)
  parse : Datum → Option α

namespace Layout

variable {α β : Type}

/-! ## Scalars -/

/-- One byte, presented as a number. -/
def u8 : Layout UInt8 :=
  { Codec.u8 with present := fun v => .number v.toNat, parse := fun d => d.number?.map UInt8.ofNat }

/-- Two bytes, presented as a number. -/
def u16 : Layout UInt16 :=
  { Codec.u16 with
    present := fun v => .number v.toNat, parse := fun d => d.number?.map UInt16.ofNat }

/-- Four bytes, presented as a number. -/
def u32 : Layout UInt32 :=
  { Codec.u32 with
    present := fun v => .number v.toNat, parse := fun d => d.number?.map UInt32.ofNat }

/-- Eight bytes, presented as a number that may be wide. -/
def u64 : Layout UInt64 := { Codec.u64 with present := .wide, parse := Datum.wide? }

/-- A truth value. -/
def flag : Layout Bool := { Codec.flag with present := .flag, parse := Datum.flag? }

/-- The alternative with a name. -/
def parseName {α : Type} (all : List α) (name : α → String) (d : Datum) : Option α := do
  let text ← d.text?
  all.find? fun a => name a == text

/-- An enumeration, whose alternatives are presented by name. -/
def enumeration (title : String) (all : List α) (id : α → UInt8) (name : α → String) :
    Layout α :=
  { Codec.enumeration title all id with
    present := fun v => .text (name v)
    parse := parseName all name }

/-- A block of exactly `n` bytes. -/
def block (n : Nat) : Layout (Vector UInt8 n) :=
  { Codec.block n with
    present := fun v => .bytes v.toList
    parse := fun d => do
      let bytes ← d.bytes?
      if h : bytes.toArray.size = n then some ⟨bytes.toArray, h⟩ else none }

/-- A byte string behind its length. -/
def byteString : Layout Bytes :=
  { Codec.byteString with present := .bytes, parse := Datum.bytes? }

/-- A list behind its length. -/
def list (item : Layout α) : Layout (List α) :=
  { item.toCodec.list with
    present := fun xs => .list (xs.map item.present)
    parse := Datum.listOf? item.parse }

/-- A layout under another type. -/
def map (l : Layout α) (present : α → β) (fields : β → α) : Layout β :=
  { l.toCodec.map present fields with
    present := fun v => l.present (fields v)
    parse := fun d => (l.parse d).map present }

/-! ## Fields -/

/-- A field with a name. -/
def named (l : Layout α) (name : String) : Fields α :=
  { l.toCodec with
    present := fun v => [(name, l.present v)]
    parse := fun d => l.parse (d.field name) }

/-- A count and the list that it counts. -/
def counted (item : Layout α) (count name : String) : Fields (UInt8 × List α) :=
  { item.toCodec.counted with
    present := fun v =>
      [(count, .number v.1.toNat), (name, .list (v.2.map item.present))]
    parse := fun d => do
      return (← u8.parse (d.field count), ← Datum.listOf? item.parse (d.field name)) }

/-- A count and the bytes that it counts. -/
def countedBytes (count name : String) : Fields (UInt8 × Bytes) :=
  { Codec.u8.counted with
    present := fun v => [(count, .number v.1.toNat), (name, .bytes v.2)]
    parse := fun d => do return (← u8.parse (d.field count), ← (d.field name).bytes?) }

end Layout

namespace Fields

variable {α β : Type}

/-- One group of fields after another. -/
def pair (a : Fields α) (b : Fields β) : Fields (α × β) :=
  { a.toCodec.pair b.toCodec with
    present := fun v => a.present v.1 ++ b.present v.2
    parse := fun d => do return (← a.parse d, ← b.parse d) }

/-- A record of the fields. -/
def record (a : Fields α) (name : String) (present : α → β) (fields : β → α) : Layout β :=
  { a.toCodec.map present fields with
    present := fun v => .record name (a.present (fields v))
    parse := fun d => (a.parse d).map present }

end Fields

end ZigbeeHost
