import ZigbeeHost.Proofs.Serial.Spans
/-!
# Damaged frames

Noise that spares the start byte and the length byte of a frame leaves a stretch of the same
length, wherever else it strikes (`Frame.Damaged`). If the checksum does not fit any more, the
stretch is refused as a whole (`Frame.Damaged.decode_eq`). One byte that changed is always
noticed (`Frame.damaged_set`), since an exclusive or tells which byte is missing.
-/

namespace ZigbeeHost

/-! ## The checksum -/

theorem checksum_cons (b : UInt8) (bytes : Bytes) :
    checksum (b :: bytes) = b ^^^ checksum bytes := by
  have hfoldl : bytes.foldl (· ^^^ ·) (b ^^^ 0) = b ^^^ bytes.foldl (· ^^^ ·) 0 :=
    List.foldl_assoc
  unfold checksum
  rw [List.foldl_cons, UInt8.zero_xor]
  rwa [UInt8.xor_zero] at hfoldl

/-- The checksum of a whole is that of its parts. -/
theorem checksum_append (bytes more : Bytes) :
    checksum (bytes ++ more) = checksum bytes ^^^ checksum more := by
  induction bytes with
  | nil => exact (UInt8.zero_xor).symm
  | cons b bytes ih =>
    rw [List.cons_append, checksum_cons, checksum_cons, ih, UInt8.xor_assoc]

/-- The checksum fits if all bytes together, with the checksum at the end, cancel out. -/
theorem checksum_concat_eq_zero {bytes : Bytes} {sum : UInt8} :
    checksum (bytes ++ [sum]) = 0 ↔ checksum bytes = sum := by
  rw [checksum_append, checksum_cons]
  show checksum bytes ^^^ (sum ^^^ 0) = 0 ↔ _
  rw [UInt8.xor_zero, UInt8.xor_eq_zero_iff]

/-- The same about a frame, whose checksum covers all but the first byte. -/
theorem checksum_tail_eq_zero {bytes : Bytes} (h : 1 < bytes.length) :
    checksum bytes.tail = 0 ↔ checksum bytes.tail.dropLast = bytes.getLastD 0 := by
  have htail : bytes.tail ≠ [] := by
    rw [ne_eq, ← List.length_eq_zero_iff, List.length_tail]
    omega
  have hlast : bytes.tail.getLast htail = bytes.getLastD 0 := by
    rw [List.getLast_tail, List.getLastD_eq_getLast?, List.getLast?_eq_some_getLast]
    rfl
  have hconcat : checksum (bytes.tail.dropLast ++ [bytes.tail.getLast htail]) = 0 ↔
      checksum bytes.tail.dropLast = bytes.tail.getLast htail := checksum_concat_eq_zero
  rwa [List.dropLast_concat_getLast, hlast] at hconcat

/-- One byte that changed shows in the checksum. -/
theorem checksum_set {bytes : Bytes} {i : Nat} (hi : i < bytes.length) (b : UInt8) :
    checksum (bytes.set i b) = checksum bytes ^^^ (bytes[i] ^^^ b) := by
  induction bytes generalizing i with
  | nil => exact absurd hi (Nat.not_lt_zero i)
  | cons a bytes ih =>
    cases i with
    | zero =>
      simp only [List.set_cons_zero, checksum_cons, List.getElem_cons_zero]
      rw [UInt8.xor_comm a (checksum bytes), UInt8.xor_assoc, ← UInt8.xor_assoc a a b,
        UInt8.xor_self, UInt8.zero_xor, UInt8.xor_comm]
    | succ i =>
      simp only [List.set_cons_succ, checksum_cons, List.getElem_cons_succ]
      rw [ih (Nat.lt_of_succ_lt_succ hi), UInt8.xor_assoc]

namespace Frame

/-! ## Damage behind the length byte -/

/-- The bytes of a frame after noise that spared the start byte and the length byte, if the
checksum does not fit any more. -/
structure Damaged (f : Frame) (bytes : Bytes) : Prop where
  length_eq : bytes.length = f.wire.length
  header : bytes.take 2 = f.wire.take 2
  mismatch : checksum bytes.tail.dropLast ≠ bytes.getLastD 0

variable {f : Frame} {bytes : Bytes}

/-- A frame with its checksum has the checksum zero. -/
theorem checksum_tail_wire (f : Frame) : checksum f.wire.tail = 0 :=
  checksum_concat_eq_zero.2 rfl

/-- Any other byte in the place of one behind the length byte is damage. -/
theorem damaged_set (f : Frame) {i : Nat} (htwo : 2 ≤ i) (hi : i < f.wire.length) {b : UInt8}
    (hb : b ≠ f.wire[i]) : f.Damaged (f.wire.set i b) where
  length_eq := List.length_set
  header := List.take_set_of_le htwo
  mismatch h := by
    have hlength : 1 < (f.wire.set i b).length := by rw [List.length_set]; omega
    obtain ⟨j, rfl⟩ : ∃ j, i = j + 1 := ⟨i - 1, by omega⟩
    have hj : j < f.wire.tail.length := by rw [List.length_tail]; omega
    have hcancel : checksum (f.wire.set (j + 1) b).tail = 0 :=
      (checksum_tail_eq_zero hlength).2 h
    have htail : (f.wire.set (j + 1) b).tail = f.wire.tail.set j b := rfl
    rw [htail, checksum_set hj, checksum_tail_wire, UInt8.zero_xor,
      UInt8.xor_eq_zero_iff, List.getElem_tail] at hcancel
    exact hb hcancel.symm

/-- The damaged bytes are of the frame's length. -/
theorem Damaged.exists_eq (h : f.Damaged bytes) :
    ∃ packed id body sum, bytes =
        startByte :: UInt8.ofNat f.payload.length :: packed :: id :: (body ++ [sum]) ∧
      body.length = f.payload.length ∧
      checksum (UInt8.ofNat f.payload.length :: packed :: id :: body) ≠ sum := by
  obtain ⟨hlength, hheader, hmismatch⟩ := h
  rw [f.wire_eq_cons, List.take_succ_cons, List.take_succ_cons, List.take_zero] at hheader
  rw [length_wire, frameOverhead] at hlength
  obtain ⟨start, len, packed, id, rest, rfl⟩ : ∃ start len packed id rest,
      bytes = start :: len :: packed :: id :: rest := by
    rcases bytes with _ | ⟨start, _ | ⟨len, _ | ⟨packed, _ | ⟨id, rest⟩⟩⟩⟩
    any_goals
      simp only [List.length_cons, List.length_nil] at hlength
      omega
    exact ⟨_, _, _, _, _, rfl⟩
  obtain ⟨rfl, rfl⟩ : start = startByte ∧ len = UInt8.ofNat f.payload.length := by
    simpa using hheader
  rcases List.eq_nil_or_concat rest with rfl | ⟨body, sum, rfl⟩
  · simp at hlength
  · rw [List.concat_eq_append] at hlength hmismatch ⊢
    refine ⟨packed, id, body, sum, rfl, by simpa using hlength, ?_⟩
    have hlast : (id :: (body ++ [sum])).getLast? = some sum := by
      rw [← List.cons_append, List.getLast?_concat]
    simpa [List.dropLast_cons_of_ne_nil, hlast] using hmismatch

/-- Damaged bytes are a stretch of the stream still. -/
theorem Damaged.isSpan (h : f.Damaged bytes) (hf : f.payload.length ≤ maxPayloadLength) :
    IsSpan bytes := by
  obtain ⟨packed, id, body, sum, rfl, hbody, -⟩ := h.exists_eq
  refine ⟨_, _, rfl, ?_, ?_⟩
  · rwa [toNat_length hf]
  · rw [toNat_length hf]
    simp [frameOverhead, hbody]

/-- A frame with one damaged byte is told by its checksum. -/
theorem Damaged.decode_eq (h : f.Damaged bytes) (hf : f.payload.length ≤ maxPayloadLength) :
    decode bytes = .error (.invalidFrame .badChecksum) := by
  obtain ⟨packed, id, body, sum, rfl, hbody, hsum⟩ := h.exists_eq
  have hrest : (body ++ [sum]).isEmpty = false := by cases body <;> rfl
  have htake : (body ++ [sum]).take f.payload.length = body := by rw [← hbody]; simp
  simp [decode, hrest, htake, toNat_length hf, frameOverhead, hbody, hsum]

end Frame

end ZigbeeHost
