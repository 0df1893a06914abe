import ZigbeeHost.Proofs.Serial.Wire
/-!
# The frames of a byte stream

`spans` cuts a whole byte string, all at once, into the stretches that are to be read as
frames. It is what a reader that takes the bytes one portion after the other is compared
with.

A reader drops what cannot begin a frame, and this changes no stretch, whatever bytes
follow (`spans_resync_append`). What it holds then is as `resync_cases` says. Garbage in
which no start byte can be mistaken for that of a frame is passed over
(`spans_append_of_garbage`), so frames are found wherever they are (`spans_stream`).
-/

namespace ZigbeeHost

/-! ## Cutting a stream -/

/-- The stretches of a byte string that are frames, good or bad. One begins at the first
start byte, unless an impossible length follows; then the search goes on behind that start
byte. It has as many bytes as its length byte says, and the next one is looked for behind
it. What is not complete yet is no stretch. -/
def spans : (bytes : Bytes) → List Bytes
  | [] => []
  | [_] => []
  | b :: len :: rest =>
    if b = startByte ∧ len.toNat ≤ maxPayloadLength then
      if len.toNat + frameOverhead ≤ rest.length + 2 then
        (b :: len :: rest).take (len.toNat + frameOverhead) ::
          spans ((b :: len :: rest).drop (len.toNat + frameOverhead))
      else []
    else spans (len :: rest)
termination_by bytes => bytes.length
decreasing_by
  · simp only [List.length_drop, List.length_cons, frameOverhead]
    omega
  · simp

/-- The bytes of one frame, if its length byte is right. -/
def IsSpan (bytes : Bytes) : Prop :=
  ∃ len rest, bytes = startByte :: len :: rest ∧ len.toNat ≤ maxPayloadLength ∧
    bytes.length = len.toNat + frameOverhead

/-- A frame as it is laid out is a stretch. -/
theorem isSpan_wire {f : Frame} (h : f.payload.length ≤ maxPayloadLength) : IsSpan f.wire := by
  refine ⟨_, _, f.wire_eq_cons, ?_, ?_⟩
  · rwa [Frame.toNat_length h]
  · rw [Frame.toNat_length h, Frame.length_wire]

/-- A stretch has a header at least. -/
theorem IsSpan.two_lt_length {span : Bytes} (h : IsSpan span) : 2 < span.length := by
  obtain ⟨len, rest, -, -, hlength⟩ := h
  rw [hlength]
  unfold frameOverhead
  omega

/-- A byte that begins no header is dropped. -/
theorem spans_cons_of_not_header {b len : UInt8}
    (h : ¬(b = startByte ∧ len.toNat ≤ maxPayloadLength)) (rest : Bytes) :
    spans (b :: len :: rest) = spans (len :: rest) := by
  rw [spans, if_neg h]

/-- What does not begin with a start byte begins no stretch. -/
theorem spans_cons_of_ne {b : UInt8} (hb : b ≠ startByte) (bytes : Bytes) :
    spans (b :: bytes) = spans bytes := by
  cases bytes with
  | nil => rw [spans, spans]
  | cons len rest => exact spans_cons_of_not_header (fun h => hb h.1) rest

/-- A stretch is followed by those of the bytes behind it. -/
theorem spans_append_of_isSpan {span : Bytes} (h : IsSpan span) (more : Bytes) :
    spans (span ++ more) = span :: spans more := by
  obtain ⟨len, rest, rfl, hlen, hlength⟩ := h
  have hfits : len.toNat + frameOverhead ≤ (rest ++ more).length + 2 := by
    rw [← hlength]
    simp
  simp only [List.cons_append]
  rw [spans, if_pos ⟨rfl, hlen⟩, if_pos hfits, ← hlength]
  simp

theorem spans_of_length_lt_two {bytes : Bytes} (h : bytes.length < 2) : spans bytes = [] := by
  cases bytes with
  | nil => rw [spans]
  | cons b rest =>
    have hrest : rest.length = 0 := by
      rw [List.length_cons] at h
      omega
    rw [List.eq_nil_of_length_eq_zero hrest, spans]

/-- A frame of which the end is missing is no stretch yet. -/
theorem spans_of_length_lt {len : UInt8} {rest : Bytes}
    (h : rest.length + 2 < len.toNat + frameOverhead) (hlen : len.toNat ≤ maxPayloadLength) :
    spans (startByte :: len :: rest) = [] := by
  rw [spans, if_pos ⟨rfl, hlen⟩, if_neg (Nat.not_le_of_lt h)]

/-- A stretch without its last byte is no stretch yet. -/
theorem spans_dropLast_of_isSpan {span : Bytes} (h : IsSpan span) : spans span.dropLast = [] := by
  have htwo := h.two_lt_length
  obtain ⟨len, rest, rfl, hlen, hlength⟩ := h
  have hrest : rest ≠ [] := by
    rintro rfl
    simp at htwo
  rw [List.dropLast_cons_of_ne_nil (by simp), List.dropLast_cons_of_ne_nil hrest]
  refine spans_of_length_lt ?_ hlen
  have hpos := List.length_pos_iff.2 hrest
  simp only [List.length_cons] at hlength
  simp only [List.length_dropLast]
  omega

/-! ## What a reader drops -/

/-- What is left after resynchronising : nothing, a start byte, or a possible header. -/
theorem resync_cases (bytes : Bytes) :
    resync bytes = [] ∨ resync bytes = [startByte] ∨
      ∃ len rest, resync bytes = startByte :: len :: rest ∧ len.toNat ≤ maxPayloadLength := by
  fun_induction resync bytes with
  | case1 => exact Or.inl rfl
  | case2 => exact Or.inr (Or.inl rfl)
  | case3 => exact Or.inl rfl
  | case4 b len rest h =>
    obtain ⟨rfl, hlen⟩ := h
    exact Or.inr (Or.inr ⟨len, rest, rfl, hlen⟩)
  | case5 b len rest h ih => exact ih

/-- Resynchronising drops bytes from the front only. -/
theorem resync_suffix (bytes : Bytes) : resync bytes <:+ bytes := by
  fun_induction resync bytes with
  | case1 => exact List.suffix_rfl
  | case2 => exact List.suffix_rfl
  | case3 => exact List.nil_suffix
  | case4 => exact List.suffix_rfl
  | case5 b len rest h ih => exact ih.trans (List.suffix_cons b _)

/-- A possible header is kept. -/
theorem resync_of_le {len : UInt8} (hlen : len.toNat ≤ maxPayloadLength) (rest : Bytes) :
    resync (startByte :: len :: rest) = startByte :: len :: rest := by
  rw [resync, if_pos ⟨rfl, hlen⟩]

/-- What is dropped in resynchronising is no part of a stretch, whatever follows. -/
theorem spans_resync_append (bytes more : Bytes) :
    spans (resync bytes ++ more) = spans (bytes ++ more) := by
  fun_induction resync bytes with
  | case1 => rfl
  | case2 => rfl
  | case3 b hb => exact (spans_cons_of_ne hb more).symm
  | case4 => rfl
  | case5 b len rest h ih =>
    exact ih.trans (spans_cons_of_not_header h (rest ++ more)).symm

/-! ## Frames among garbage -/

/-- In front of `following`, every start byte of the garbage has an impossible length behind
it. -/
def Garbage (following : Bytes) : (garbage : Bytes) → Prop
  | [] => True
  | b :: garbage =>
    (b = startByte → ∃ len rest, garbage ++ following = len :: rest ∧
      maxPayloadLength < len.toNat) ∧ Garbage following garbage

/-- Garbage in front of frames is no part of their stretches. -/
theorem spans_append_of_garbage {garbage following : Bytes} (h : Garbage following garbage) :
    spans (garbage ++ following) = spans following := by
  induction garbage with
  | nil => rfl
  | cons b garbage ih =>
    refine Eq.trans ?_ (ih h.2)
    by_cases hb : b = startByte
    · obtain ⟨len, rest, hfollowing, hlen⟩ := h.1 hb
      rw [List.cons_append, hfollowing]
      exact spans_cons_of_not_header (fun h => Nat.not_le_of_lt hlen h.2) rest
    · exact spans_cons_of_ne hb _

/-- Frames, each behind some garbage, and garbage at the end. -/
def stream : (pieces : List (Bytes × Frame)) → (last : Bytes) → Bytes
  | [], last => last
  | (garbage, f) :: pieces, last => garbage ++ (f.wire ++ stream pieces last)

/-- In a stream, the frames can be written and no garbage looks like the start of one. -/
def WellSeparated : (pieces : List (Bytes × Frame)) → (last : Bytes) → Prop
  | [], last => Garbage [] last
  | (garbage, f) :: pieces, last =>
    Garbage (f.wire ++ stream pieces last) garbage ∧ f.payload.length ≤ maxPayloadLength ∧
      WellSeparated pieces last

/-- The stretches of a stream are its frames. -/
theorem spans_stream {pieces : List (Bytes × Frame)} {last : Bytes}
    (h : WellSeparated pieces last) :
    spans (stream pieces last) = pieces.map fun piece => piece.2.wire := by
  induction pieces with
  | nil =>
    have hlast := spans_append_of_garbage h
    rw [List.append_nil, spans] at hlast
    exact hlast
  | cons piece pieces ih =>
    obtain ⟨garbage, f⟩ := piece
    obtain ⟨hgarbage, hf, hrest⟩ := h
    calc spans (garbage ++ (f.wire ++ stream pieces last))
        = spans (f.wire ++ stream pieces last) := spans_append_of_garbage hgarbage
      _ = f.wire :: spans (stream pieces last) := spans_append_of_isSpan (isSpan_wire hf) _
      _ = f.wire :: pieces.map fun piece => piece.2.wire := by rw [ih hrest]

/-- Frames that are well separated are within the limit. -/
theorem WellSeparated.payload_le {pieces : List (Bytes × Frame)} {last : Bytes}
    (h : WellSeparated pieces last) :
    ∀ piece ∈ pieces, piece.2.payload.length ≤ maxPayloadLength := by
  induction pieces with
  | nil => simp
  | cons piece pieces ih =>
    obtain ⟨-, hf, hrest⟩ := h
    exact List.forall_mem_cons.2 ⟨hf, ih hrest⟩

/-! ## Faults of a stretch -/

/-- A stretch has the right size and length, so only its checksum or its kind can be at
fault. -/
theorem IsSpan.decode_error {span : Bytes} (h : IsSpan span) {e : TransportFailure}
    (he : Frame.decode span = .error e) :
    e = .invalidFrame .badChecksum ∨ e = .invalidFrame .unknownKind := by
  obtain ⟨len, rest, rfl, -, hlength⟩ := h
  match rest, hlength, he with
  | packed :: id :: x :: rest, hlength, he =>
    simp only [Frame.decode, hlength] at he
    simp only [List.isEmpty_cons, Bool.false_eq_true, not_true_eq_false, ne_eq, or_self,
      if_false] at he
    split at he
    · exact Or.inl (Except.error.inj he).symm
    · split at he
      · exact Or.inr (Except.error.inj he).symm
      · cases he

end ZigbeeHost
