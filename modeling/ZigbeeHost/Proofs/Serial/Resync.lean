import ZigbeeHost.Proofs.Serial.Spans
/-!
# Where a frame can still start

`resync` is written as one walk along the buffer. A reader that edits the buffer in place
goes in passes : it skips to the next start byte, and where an impossible length follows,
it takes that start byte off and skips again (`Passes`). Each pass leaves fewer bytes to
the next, so the passes come to an end, and they end with what `resync` keeps and with
what `missing` asks for (`passes_iff`).

What is kept begins at the first place where a frame can start (`CanStart`) : no place
before it is one (`not_canStart_of_dropped`), and from such a place on nothing is dropped
(`suffix_resync_of_canStart`).
-/

namespace ZigbeeHost

/-! ## The first start -/

/-- A frame can start with these bytes : they begin with a start byte, and no impossible
length follows it. -/
def CanStart (bytes : Bytes) : Prop :=
  bytes[0]? = some startByte ∧ ∀ len, bytes[1]? = some len → len.toNat ≤ maxPayloadLength

theorem canStart_cons_cons {b len : UInt8} {rest : Bytes} :
    CanStart (b :: len :: rest) ↔ b = startByte ∧ len.toNat ≤ maxPayloadLength := by
  simp [CanStart]

theorem canStart_singleton {b : UInt8} : CanStart [b] ↔ b = startByte := by
  simp [CanStart]

/-- Where no frame can start, another byte stands or an impossible length follows. -/
theorem not_canStart_iff {bytes : Bytes} :
    ¬CanStart bytes ↔ bytes[0]? ≠ some startByte ∨
      ∃ len, bytes[1]? = some len ∧ maxPayloadLength < len.toNat := by
  simp only [CanStart, Classical.not_and_iff_not_or_not, Classical.not_forall, Nat.not_le,
    exists_prop, ne_eq]

/-- Where a frame can start, nothing is dropped. -/
theorem resync_of_canStart {bytes : Bytes} (h : CanStart bytes) : resync bytes = bytes := by
  match bytes, h with
  | [b], h => rw [resync, if_pos (canStart_singleton.1 h)]
  | b :: len :: rest, h => rw [resync, if_pos (canStart_cons_cons.1 h)]

/-- A byte at which no frame can start is dropped. -/
theorem resync_of_not_canStart {b : UInt8} {bytes : Bytes} (h : ¬CanStart (b :: bytes)) :
    resync (b :: bytes) = resync bytes := by
  match bytes, h with
  | [], h => simp [resync, mt canStart_singleton.2 h]
  | len :: rest, h => rw [resync, if_neg (mt canStart_cons_cons.2 h)]

/-- What is kept is nothing, or can start a frame. -/
theorem resync_eq_nil_or_canStart (bytes : Bytes) :
    resync bytes = [] ∨ CanStart (resync bytes) := by
  rcases resync_cases bytes with hnil | hone | ⟨len, rest, hheader, hlen⟩
  · exact Or.inl hnil
  · exact Or.inr (hone ▸ canStart_singleton.2 rfl)
  · exact Or.inr (hheader ▸ canStart_cons_cons.2 ⟨rfl, hlen⟩)

/-- To resynchronise twice is to do it once. -/
theorem resync_resync (bytes : Bytes) : resync (resync bytes) = resync bytes := by
  rcases resync_eq_nil_or_canStart bytes with hnil | hstart
  · rw [hnil, resync]
  · exact resync_of_canStart hstart

/-- No frame can start at a byte that is dropped. -/
theorem not_canStart_of_dropped {bytes : Bytes} {i : Nat}
    (hi : i < bytes.length - (resync bytes).length) : ¬CanStart (bytes.drop i) := by
  induction bytes generalizing i with
  | nil => simp at hi
  | cons b bytes ih =>
    by_cases hb : CanStart (b :: bytes)
    · rw [resync_of_canStart hb] at hi
      omega
    · rw [resync_of_not_canStart hb, List.length_cons] at hi
      cases i with
      | zero => exact hb
      | succ i => exact ih (by omega)

/-- From a byte where a frame can start, nothing is dropped. -/
theorem suffix_resync_of_canStart {bytes start : Bytes} (hsuffix : start <:+ bytes)
    (hstart : CanStart start) : start <:+ resync bytes := by
  induction bytes with
  | nil =>
    rw [List.suffix_nil.1 hsuffix]
    exact List.nil_suffix
  | cons b bytes ih =>
    by_cases hb : CanStart (b :: bytes)
    · rwa [resync_of_canStart hb]
    · rw [resync_of_not_canStart hb]
      refine ih ((List.suffix_cons_iff.1 hsuffix).resolve_left ?_)
      rintro rfl
      exact hb hstart

/-! ## Pass by pass -/

/-- The bytes from the first start byte on. -/
def fromStartByte (bytes : Bytes) : Bytes := bytes.dropWhile (· != startByte)

/-- What is left is nothing, or begins with a start byte. -/
theorem fromStartByte_cases (bytes : Bytes) :
    fromStartByte bytes = [] ∨ ∃ rest, fromStartByte bytes = startByte :: rest := by
  induction bytes with
  | nil => exact Or.inl rfl
  | cons b bytes ih =>
    by_cases hb : b = startByte
    · exact Or.inr ⟨bytes, by simp [fromStartByte, hb]⟩
    · simpa [fromStartByte, hb] using ih

theorem length_fromStartByte_le (bytes : Bytes) :
    (fromStartByte bytes).length ≤ bytes.length :=
  (List.dropWhile_suffix _).length_le

/-- To skip to the first start byte drops nothing that would be kept. -/
theorem resync_fromStartByte (bytes : Bytes) : resync (fromStartByte bytes) = resync bytes := by
  induction bytes with
  | nil => rfl
  | cons b bytes ih =>
    by_cases hb : b = startByte
    · simp [fromStartByte, hb]
    · have hskip : fromStartByte (b :: bytes) = fromStartByte bytes := by
        simp [fromStartByte, hb]
      have hdrop : ¬CanStart (b :: bytes) := fun h => hb (by simpa using h.1)
      rw [hskip, ih, resync_of_not_canStart hdrop]

/-- A buffer is resynchronised in passes : they leave the bytes `rest` of it, of which
`need` more are wanted. -/
inductive Passes : (bytes rest : Bytes) → (need : Nat) → Prop
  /-- No length has arrived behind the start byte. -/
  | short {bytes : Bytes} : (fromStartByte bytes).length < 2 →
      Passes bytes (fromStartByte bytes) (2 - (fromStartByte bytes).length)
  /-- The length is possible. -/
  | header {bytes rest : Bytes} {b len : UInt8} : fromStartByte bytes = b :: len :: rest →
      len.toNat ≤ maxPayloadLength →
      Passes bytes (b :: len :: rest) (len.toNat + frameOverhead - (b :: len :: rest).length)
  /-- The length is impossible, and may be the next start byte. -/
  | again {bytes rest left : Bytes} {b len : UInt8} {need : Nat} :
      fromStartByte bytes = b :: len :: rest → maxPayloadLength < len.toNat →
      Passes (len :: rest) left need → Passes bytes left need

/-- The passes lead where the recursion does. -/
theorem Passes.eq_resync {bytes rest : Bytes} {need : Nat} (h : Passes bytes rest need) :
    rest = resync bytes ∧ need = missing (resync bytes) := by
  induction h with
  | @short bytes hshort =>
    rw [← resync_fromStartByte bytes]
    rcases fromStartByte_cases bytes with hnil | ⟨rest, hstart⟩
    · rw [hnil]
      exact ⟨rfl, rfl⟩
    · rw [hstart] at hshort ⊢
      obtain rfl : rest = [] :=
        List.eq_nil_of_length_eq_zero (Nat.lt_one_iff.1 (Nat.lt_of_succ_lt_succ hshort))
      exact ⟨rfl, rfl⟩
  | @header bytes rest b len hskip hlen =>
    rw [← resync_fromStartByte bytes, hskip]
    obtain rfl : b = startByte := by
      rcases fromStartByte_cases bytes with hnil | ⟨rest', hstart⟩
      · exact absurd (hskip.symm.trans hnil) (List.cons_ne_nil _ _)
      · exact (List.cons.inj (hskip.symm.trans hstart)).1
    rw [resync_of_le hlen]
    exact ⟨rfl, rfl⟩
  | @again bytes rest left b len need hskip hlen _ ih =>
    have hdrop : ¬CanStart (b :: len :: rest) := fun h =>
      absurd (canStart_cons_cons.1 h).2 (Nat.not_le.2 hlen)
    rwa [← resync_fromStartByte bytes, hskip, resync_of_not_canStart hdrop]

/-- The passes come to an end. The induction is on the length of the buffer, of which each
pass but the last takes a byte off. -/
theorem exists_passes (bytes : Bytes) : ∃ rest need, Passes bytes rest need := by
  induction hlength : bytes.length using Nat.strongRecOn generalizing bytes with
  | ind n ih =>
    match hskip : fromStartByte bytes with
    | [] | [_] => exact ⟨_, _, .short (by simp [hskip])⟩
    | b :: len :: rest =>
      rcases Nat.lt_or_ge maxPayloadLength len.toNat with hlen | hlen
      · have hshorter : (len :: rest).length < n := by
          have hle := length_fromStartByte_le bytes
          rw [hskip, hlength] at hle
          exact hle
        obtain ⟨left, need, hpasses⟩ := ih _ hshorter (len :: rest) rfl
        exact ⟨left, need, .again hskip hlen hpasses⟩
      · exact ⟨_, _, .header hskip hlen⟩

/-- The passes end, and leave what `resync` keeps. -/
theorem passes_iff {bytes rest : Bytes} {need : Nat} :
    Passes bytes rest need ↔ rest = resync bytes ∧ need = missing (resync bytes) := by
  refine ⟨Passes.eq_resync, ?_⟩
  rintro ⟨rfl, rfl⟩
  obtain ⟨rest, need, hpasses⟩ := exists_passes bytes
  obtain ⟨rfl, rfl⟩ := hpasses.eq_resync
  exact hpasses

/-! ## What resynchronising guarantees -/

/-- A buffer `bytes` was cut down to its end `rest`, of which `need` more bytes are
wanted. -/
structure Resynchronised (bytes rest : Bytes) (need : Nat) : Prop where
  suffix : rest <:+ bytes
  /-- What is left begins with a start byte, if at all. -/
  start : rest ≠ [] → rest[0]? = some startByte
  /-- If a second byte is left, it is a possible length. -/
  length_le : ∀ len, rest[1]? = some len → len.toNat ≤ maxPayloadLength
  /-- No byte that is dropped can start a frame. -/
  dropped : ∀ i < bytes.length - rest.length, bytes[i]? ≠ some startByte ∨
    ∃ len, bytes[i + 1]? = some len ∧ maxPayloadLength < len.toNat
  /-- From the first byte that can start a frame, all is left. -/
  kept : ∀ i, CanStart (bytes.drop i) → bytes.length - rest.length ≤ i
  /-- Without a length, the header is wanted. -/
  need_header : rest.length < 2 → need + rest.length = 2
  /-- With a length, the rest of the frame is wanted, if there is any. -/
  need_frame : ∀ len, rest[1]? = some len →
    (need : Int) = max 0 (len.toNat + frameOverhead - rest.length)
  /-- To resynchronise what is left changes nothing. -/
  again : ∀ rest' need', Passes rest rest' need' ↔ rest' = rest ∧ need' = need
  /-- What has the length of its frame fails neither by its size nor by its length. -/
  decode : need = 0 → ∀ len, rest[1]? = some len → rest.length = len.toNat + frameOverhead →
    Frame.decode rest ≠ .error (.invalidFrame .tooSmall) ∧
      Frame.decode rest ≠ .error (.invalidFrame .badLength)

/-- Without a header, the rest of the header is missing. -/
theorem missing_of_length_lt {bytes : Bytes} (h : bytes.length < 2) :
    missing bytes = 2 - bytes.length := by
  match bytes, h with
  | [], _ | [_], _ => rfl

/-- With a header, the rest of the frame is missing. -/
theorem missing_of_length {bytes : Bytes} {len : UInt8} (h : bytes[1]? = some len) :
    missing bytes = len.toNat + frameOverhead - bytes.length := by
  match bytes, h with
  | _ :: len' :: rest, h =>
    obtain rfl : len' = len := by simpa using h
    rfl

/-- All that is said of a resynchronised buffer holds of what the recursion leaves. -/
theorem resynchronised_resync (bytes : Bytes) :
    Resynchronised bytes (resync bytes) (missing (resync bytes)) where
  suffix := resync_suffix bytes
  start hne := ((resync_eq_nil_or_canStart bytes).resolve_left hne).1
  length_le len hlen := by
    rcases resync_eq_nil_or_canStart bytes with hnil | hstart
    · simp [hnil] at hlen
    · exact hstart.2 len hlen
  dropped i hi := by
    have hdrop := not_canStart_iff.1 (not_canStart_of_dropped hi)
    simpa [List.getElem?_drop] using hdrop
  kept i hstart := by
    have hle := (suffix_resync_of_canStart (List.drop_suffix i bytes) hstart).length_le
    rw [List.length_drop] at hle
    omega
  need_header h := by
    rw [missing_of_length_lt h]
    omega
  need_frame len hlen := by
    rw [missing_of_length hlen]
    omega
  again rest' need' := by rw [passes_iff, resync_resync]
  decode _ len hlen hlength := by
    have hspan : IsSpan (resync bytes) := by
      rcases resync_cases bytes with hnil | hone | ⟨len', rest, hheader, hle⟩
      · simp [hnil] at hlen
      · simp [hone] at hlen
      · obtain rfl : len' = len := by simpa [hheader] using hlen
        exact ⟨len', rest, hheader, hle, hlength⟩
    constructor <;> exact fun h => by simpa using hspan.decode_error h

/-- Whatever the buffer holds, resynchronising it comes to an end, in one way, and keeps
the first place where a frame can start. -/
theorem resync_keeps_first_start (bytes : Bytes) :
    (∃ rest need, Passes bytes rest need) ∧
      ∀ rest need, Passes bytes rest need →
        rest = resync bytes ∧ need = missing (resync bytes) ∧ Resynchronised bytes rest need := by
  refine ⟨exists_passes bytes, fun rest need hpasses => ?_⟩
  obtain ⟨rfl, rfl⟩ := hpasses.eq_resync
  exact ⟨rfl, rfl, resynchronised_resync bytes⟩

end ZigbeeHost
