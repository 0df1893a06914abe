import ZigbeeHost.Serial.Frame
/-!
# Frames and their bytes

`Frame.wire` lays a frame out as it travels. To encode a frame is to lay it out, unless its
payload is too long (`Frame.encode_eq`), and what was laid out is read back
(`Frame.decode_wire`).
-/

namespace ZigbeeHost

namespace Frame

/-- The bytes of a frame : the start byte, the length of its payload, kind and subsystem, the
id, the payload, and the exclusive or of all but the first. -/
def wire (f : Frame) : Bytes := f.unchecked ++ [checksum f.unchecked.tail]

/-- A frame is encoded as it is laid out, unless it is too long. -/
theorem encode_eq (f : Frame) :
    f.encode = if f.payload.length ≤ maxPayloadLength then .ok f.wire
      else .error (.invalidFrame .payloadTooLong) := by
  by_cases h : f.payload.length ≤ maxPayloadLength
  · simp [encode, encodeOnto, wire, h]
  · simp [encode, encodeOnto, h]

theorem wire_eq_cons (f : Frame) :
    f.wire = startByte :: UInt8.ofNat f.payload.length :: f.packedKind :: f.command.id ::
      (f.payload ++ [checksum f.unchecked.tail]) := rfl

/-- A frame takes five bytes besides its payload. -/
theorem length_wire (f : Frame) : f.wire.length = f.payload.length + frameOverhead := by
  simp [wire, unchecked, frameOverhead]

/-! ## Kind and subsystem share a byte -/

/-- The kind is read back. -/
theorem ofBits?_packedKind (f : Frame) :
    FrameKind.ofBits? (f.packedKind >>> 4) = some f.kind := by
  have hpacked : ∀ i : Fin 16, ∀ k : FrameKind,
      FrameKind.ofBits? ((k.bits <<< 4 ||| UInt8.ofNat i.val) >>> 4) = some k := by
    intro i k
    cases k <;> revert i <;> decide
  exact hpacked f.command.subsystem.index f.kind

/-- The subsystem is read back. -/
theorem ofBits_packedKind (f : Frame) : Subsystem.ofBits f.packedKind = f.command.subsystem := by
  have hpacked : ∀ i : Fin 16, ∀ k : FrameKind,
      Subsystem.ofBits (k.bits <<< 4 ||| UInt8.ofNat i.val) = ⟨i⟩ := by
    intro i k
    cases k <;> revert i <;> decide
  exact hpacked f.command.subsystem.index f.kind

/-! ## Reading back -/

/-- The length byte of a payload that it can count, even if it is too long to be written. -/
theorem toNat_length_of_lt {f : Frame} (h : f.payload.length < 256) :
    (UInt8.ofNat f.payload.length).toNat = f.payload.length := by
  rw [UInt8.toNat_ofNat']
  exact Nat.mod_eq_of_lt h

theorem lt_of_le_maxPayloadLength {n : Nat} (h : n ≤ maxPayloadLength) : n < 256 :=
  Nat.lt_of_le_of_lt h (by decide)

/-- The length byte of a payload that is not too long. -/
theorem toNat_length {f : Frame} (h : f.payload.length ≤ maxPayloadLength) :
    (UInt8.ofNat f.payload.length).toNat = f.payload.length :=
  toNat_length_of_lt (lt_of_le_maxPayloadLength h)

/-- A frame reads back as long as its length fits a byte. -/
theorem decode_wire_of_lt {f : Frame} (h : f.payload.length < 256) : decode f.wire = .ok f := by
  have hlength : f.wire.length = (UInt8.ofNat f.payload.length).toNat + frameOverhead := by
    rw [toNat_length_of_lt h, length_wire]
  have hlast : (f.payload ++ [checksum f.unchecked.tail]).getLastD 0 =
      checksum f.unchecked.tail := by simp
  have hpayload : (f.payload ++ [checksum f.unchecked.tail]).take f.payload.length =
      f.payload := by simp
  have hrest : (f.payload ++ [checksum f.unchecked.tail]).isEmpty = false := by
    cases f.payload <;> rfl
  rw [wire_eq_cons] at hlength ⊢
  simp only [decode, hlength, hrest, toNat_length_of_lt h, hpayload, hlast, ofBits?_packedKind,
    ofBits_packedKind]
  simp [unchecked]

/-- A frame within the limit reads back. -/
theorem decode_wire {f : Frame} (h : f.payload.length ≤ maxPayloadLength) :
    decode f.wire = .ok f :=
  decode_wire_of_lt (lt_of_le_maxPayloadLength h)

end Frame

end ZigbeeHost
