import ZigbeeHost.Bench.Stream
import ZigbeeHost.Proofs.Serial.Damage
/-!
# The grammar of frames

`Frame.Grammar` says, byte by byte, which byte strings are frames, and `Frame.Spells` of which
kind, command and payload, without a look at the reader or the writer. Both are compared with
it.

What is spelled is what would be laid out, for a payload that the length byte can count
(`Frame.spells_iff`), and this is also what the reader takes
(`Frame.decode_eq_ok_iff`). So the reader accepts the grammar and nothing else, and between
the longest payload that is written and the longest that is counted, it reads frames that
are never written (`Frame.codec_grammar`).
-/

namespace ZigbeeHost

namespace Frame

/-! ## What the bytes of a frame are -/

/-- The parts of a frame among its bytes : behind the start byte the length `n` of the data, a
byte with the number `t` of the kind in its high half and the number `s` of the subsystem in
its low half, the id, the data, and the exclusive or `x` of all between the first byte and the
last. -/
structure Grammar (bytes : Bytes) (n : UInt8) (t s : Nat) (id : UInt8) (data : Bytes)
    (x : UInt8) : Prop where
  bytes_eq : bytes = [0xFE, n, UInt8.ofNat (t * 16 + s), id] ++ data ++ [x]
  length_eq : data.length = n.toNat
  kind_mem : t ∈ [0, 2, 4, 6]
  subsystem_lt : s < 16
  checksum_eq : x = n ^^^ UInt8.ofNat (t * 16 + s) ^^^ id ^^^ checksum data

/-- The bytes spell the frame, part by part. -/
def Spells (bytes : Bytes) (f : Frame) : Prop :=
  ∃ n t s id data x, Grammar bytes n t s id data x ∧ f.kind.bits.toNat = t ∧
    f.command.subsystem.index.val = s ∧ f.command.id = id ∧ f.payload = data

/-- Every number of the grammar is that of a kind, so that whatever keeps to it spells some
frame. -/
theorem exists_spells_iff {bytes : Bytes} :
    (∃ f, Spells bytes f) ↔ ∃ n t s id data x, Grammar bytes n t s id data x := by
  constructor
  · rintro ⟨f, n, t, s, id, data, x, hgrammar, -⟩
    exact ⟨n, t, s, id, data, x, hgrammar⟩
  · rintro ⟨n, t, s, id, data, x, hgrammar⟩
    have hkinds : ∀ t ∈ [0, 2, 4, 6], ∃ k : FrameKind, k.bits.toNat = t := by
      simp only [List.forall_mem_cons, List.not_mem_nil, false_implies, implies_true, and_true]
      exact ⟨⟨.poll, rfl⟩, ⟨.sreq, rfl⟩, ⟨.areq, rfl⟩, ⟨.srsp, rfl⟩⟩
    obtain ⟨k, hk⟩ := hkinds t hgrammar.kind_mem
    exact ⟨⟨k, ⟨⟨⟨s, hgrammar.subsystem_lt⟩⟩, id⟩, data⟩, n, t, s, id, data, x, hgrammar, hk,
      rfl, rfl, rfl⟩

/-! ## The byte of kind and subsystem -/

/-- Kind and subsystem share a byte. -/
theorem packedKind_eq (f : Frame) :
    f.packedKind = UInt8.ofNat (f.kind.bits.toNat * 16 + f.command.subsystem.index.val) := by
  have hpacked : ∀ i : Fin 16, ∀ k : FrameKind,
      k.bits <<< 4 ||| UInt8.ofNat i.val = UInt8.ofNat (k.bits.toNat * 16 + i.val) := by
    intro i k
    cases k <;> revert i <;> decide
  exact hpacked f.command.subsystem.index f.kind

/-- The halves of a byte, put together again. -/
theorem halves_or (b : UInt8) : b >>> 4 <<< 4 ||| UInt8.ofNat (b.toNat % 16) = b := by
  have hhalves : ∀ i : Fin 256, UInt8.ofNat i.val >>> 4 <<< 4 |||
      UInt8.ofNat ((UInt8.ofNat i.val).toNat % 16) = UInt8.ofNat i.val := by
    decide +kernel
  have hb := hhalves ⟨b.toNat, b.toNat_lt⟩
  rwa [UInt8.ofNat_toNat] at hb

/-- A byte with a kind in its high half is that of a frame of this kind, and of the subsystem
in its low half. -/
theorem packedKind_of_ofBits? {packed : UInt8} {kind : FrameKind}
    (h : FrameKind.ofBits? (packed >>> 4) = some kind) (id : UInt8) (payload : Bytes) :
    (⟨kind, ⟨.ofBits packed, id⟩, payload⟩ : Frame).packedKind = packed := by
  have hhigh : packed >>> 4 = kind.bits := FrameKind.ofBits?_eq_some_iff.1 h
  have hhalves := halves_or packed
  rwa [hhigh] at hhalves

/-! ## What is spelled, and what is read -/

theorem bits_mem (k : FrameKind) : k.bits.toNat ∈ [0, 2, 4, 6] := by
  cases k <;> decide

/-- The checksum of a frame, term by term. -/
theorem checksum_unchecked_tail (f : Frame) :
    checksum f.unchecked.tail = UInt8.ofNat f.payload.length ^^^ f.packedKind ^^^
      f.command.id ^^^ checksum f.payload := by
  show checksum (_ :: _ :: _ :: f.payload) = _
  rw [checksum_cons, checksum_cons, checksum_cons, ← UInt8.xor_assoc, ← UInt8.xor_assoc]

/-- What is spelled is the frame laid out, if the length byte can count its payload. -/
theorem spells_iff {bytes : Bytes} {f : Frame} :
    Spells bytes f ↔ f.payload.length < 256 ∧ bytes = f.wire := by
  constructor
  · rintro ⟨n, _, _, _, _, x, ⟨rfl, hlength, -, -, hx⟩, rfl, rfl, rfl, rfl⟩
    have hn : UInt8.ofNat f.payload.length = n := by rw [hlength, UInt8.ofNat_toNat]
    refine ⟨hlength ▸ n.toNat_lt, ?_⟩
    rw [wire_eq_cons, checksum_unchecked_tail, hn, packedKind_eq, ← hx]
    rfl
  · rintro ⟨hlength, rfl⟩
    refine ⟨UInt8.ofNat f.payload.length, _, _, f.command.id, f.payload,
      checksum f.unchecked.tail, ⟨?_, (toNat_length_of_lt hlength).symm, bits_mem f.kind,
      f.command.subsystem.index.isLt, ?_⟩, rfl, rfl, rfl, rfl⟩
    · rw [wire_eq_cons, packedKind_eq]
      rfl
    · rw [checksum_unchecked_tail, packedKind_eq]

/-- What the reader has looked at, in a byte string that it accepts. -/
theorem exists_of_decode {bytes : Bytes} {f : Frame} (h : decode bytes = .ok f) :
    ∃ len packed id body sum, bytes = startByte :: len :: packed :: id :: (body ++ [sum]) ∧
      body.length = len.toNat ∧ checksum (len :: packed :: id :: body) = sum ∧
      FrameKind.ofBits? (packed >>> 4) = some f.kind ∧
      f = ⟨f.kind, ⟨.ofBits packed, id⟩, body⟩ := by
  unfold decode at h
  split at h
  · rename_i start len packed id rest
    split at h
    · cases h
    · rename_i hstart
      obtain ⟨hrest, rfl⟩ : rest ≠ [] ∧ start = startByte := by simpa using hstart
      obtain ⟨body, sum, rfl⟩ : ∃ body sum, rest = body ++ [sum] :=
        ⟨_, _, (List.dropLast_concat_getLast hrest).symm⟩
      split at h
      · cases h
      · rename_i hlength
        have hbody : body.length = len.toNat := by simpa [frameOverhead] using hlength
        simp only [← hbody, List.take_left, List.getLastD_concat] at h
        split at h
        · cases h
        · rename_i hsum
          split at h
          · cases h
          · rename_i kind hkind
            cases h
            exact ⟨len, packed, id, body, sum, rfl, hbody, Classical.not_not.1 hsum, hkind, rfl⟩
  · cases h

/-- The reader takes a frame laid out, and nothing else. -/
theorem decode_eq_ok_iff {bytes : Bytes} {f : Frame} :
    decode bytes = .ok f ↔ f.payload.length < 256 ∧ bytes = f.wire := by
  constructor
  · intro h
    obtain ⟨len, packed, id, body, sum, rfl, hbody, hsum, hkind, hf⟩ := exists_of_decode h
    have hpacked := packedKind_of_ofBits? hkind id body
    rw [hf]
    refine ⟨hbody ▸ len.toNat_lt, ?_⟩
    rw [wire_eq_cons]
    simp only [unchecked, hpacked, hbody, UInt8.ofNat_toNat, List.tail_cons, hsum]
  · rintro ⟨hlength, rfl⟩
    exact decode_wire_of_lt hlength

/-! ## Reader, writer and grammar -/

/-- The length byte that the grammar asks for. -/
theorem getElem?_wire_one (f : Frame) : f.wire[1]? = some (UInt8.ofNat f.payload.length) := rfl

/-- The reader accepts exactly what the grammar spells, and reads what it spells. A frame of
at most 250 bytes of payload is written as it is spelled; the bytes are read back, complete
and with nothing to drop in front of them. What was read and has such a length is written as
it was. A longer payload is refused, and the buffer that it was meant for keeps what it
has. -/
theorem codec_grammar :
    (∀ bytes : Bytes, (∃ f, decode bytes = .ok f) ↔
      ∃ n t s id data x, Grammar bytes n t s id data x) ∧
    (∀ (bytes : Bytes) (f : Frame), decode bytes = .ok f ↔ Spells bytes f) ∧
    (∀ f : Frame, f.payload.length ≤ 250 → ∃ bytes, f.encodeOnto [] = .ok bytes ∧
      Spells bytes f ∧ decode bytes = .ok f ∧ resync bytes = bytes ∧
      missing (resync bytes) = 0) ∧
    (∀ (bytes : Bytes) (f : Frame) (n : UInt8), decode bytes = .ok f → bytes[1]? = some n →
      n.toNat ≤ 250 → f.encodeOnto [] = .ok bytes) ∧
    ∀ f : Frame, 250 < f.payload.length →
      (∀ before, f.encodeOnto before = .error (.invalidFrame .payloadTooLong)) ∧
      ∀ link : Link, link.outbound.idle = true → (Bench.StreamStep.push f).perform link =
        (.pushed (.error (.invalidFrame .payloadTooLong)), link) := by
  have hread : ∀ (bytes : Bytes) (f : Frame), decode bytes = .ok f ↔ Spells bytes f :=
    fun bytes f => decode_eq_ok_iff.trans spells_iff.symm
  have hwrite : ∀ f : Frame, f.payload.length ≤ 250 → f.encodeOnto [] = .ok f.wire := by
    intro f hf
    exact (encode_eq f).trans (if_pos hf)
  refine ⟨fun bytes => (exists_congr (hread bytes)).trans exists_spells_iff, hread,
    fun f hf => ?_, fun bytes f n hdecode hn hlen => ?_, fun f hf => ?_⟩
  · obtain ⟨len, rest, hwire, hlen, hlength⟩ := isSpan_wire hf
    have hresync : resync f.wire = f.wire := hwire ▸ resync_of_le hlen rest
    refine ⟨f.wire, hwrite f hf, spells_iff.2 ⟨lt_of_le_maxPayloadLength hf, rfl⟩,
      decode_wire hf, hresync, ?_⟩
    rw [hresync, hwire]
    rw [hwire, List.length_cons, List.length_cons] at hlength
    exact Nat.sub_eq_zero_of_le (Nat.le_of_eq hlength.symm)
  · obtain ⟨hlength, rfl⟩ := decode_eq_ok_iff.1 hdecode
    rw [getElem?_wire_one] at hn
    obtain rfl := Option.some.inj hn
    rw [toNat_length_of_lt hlength] at hlen
    exact hwrite f hlen
  · have hrefused : ∀ before, f.encodeOnto before = .error (.invalidFrame .payloadTooLong) :=
      fun before => if_pos hf
    refine ⟨hrefused, fun link hidle => ?_⟩
    have hpush : link.outbound.push f = .error (.invalidFrame .payloadTooLong) := by
      rw [Outbound.push, if_pos (show link.outbound.unsent.isEmpty = true from hidle), encode,
        hrefused]
      rfl
    simp only [Bench.StreamStep.perform, hpush]

end Frame

end ZigbeeHost
