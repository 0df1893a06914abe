import ZigbeeHost.Proofs.Serial.Reading
/-!
# Frames in transit, in one vector

A port keeps a frame in transit in one vector and one counter (`Storage`). The last
`toGo` bytes of the vector are still to be written, or are placeholders for bytes that are
still to be read. To find them, `toGo` is subtracted from the length, and what the stream
says that it moved is subtracted from `toGo`. Here a step fails where a subtraction goes
below zero (`checkedSub`).

The stream is any that never claims to have moved more bytes than the slice that it was
given has (`ByteStream`). For such a stream no subtraction fails, and `Outgoing.send_eq` and
`round_eq` say what a step does then. What has been written or read is followed step by
step, with the buffer as it was when bytes were last moved beside it (`Sending`,
`Receiving`); `Sending.laws` and `Receiving.laws` hold in all such histories.

On a serial line this is what `Outbound` and `Inbound` do (`Outgoing.send_line`,
`reads_line`), of which the one holds the bytes to go, and the other the bytes received
with the number of those to go.
-/

namespace ZigbeeHost

/-! ## Streams -/

/-- A stream that does not block. A read fills the slice from its start; what it leaves in
the slice behind the bytes it counts is of no meaning, and so is all of it when it
fails. -/
structure ByteStream (σ : Type) where
  read : (slice : Bytes) → σ → Except TransportFailure Nat × Bytes × σ
  write : (slice : Bytes) → σ → Except TransportFailure Nat × σ
  flush : σ → Except TransportFailure Unit × σ
  length_read : ∀ slice s, (read slice s).2.1.length = slice.length
  read_le : ∀ slice s n, (read slice s).1 = .ok n → n ≤ slice.length
  write_le : ∀ slice s n, (write slice s).1 = .ok n → n ≤ slice.length

/-- A serial line as a stream. -/
def Line.stream : ByteStream Line where
  read slice line :=
    match line.read slice.length with
    | (.ok bytes, line) => (.ok bytes.length, bytes ++ slice.drop bytes.length, line)
    | (.error e, line) => (.error e, slice, line)
  write slice line := line.write slice
  flush := Line.flush
  length_read slice line := by
    cases hread : line.read slice.length with
    | mk answer line' =>
      cases answer with
      | error e => rfl
      | ok bytes =>
        have hle : bytes.length ≤ slice.length := (Line.read_yields hread).length_le
        simp only [List.length_append, List.length_drop]
        omega
  read_le slice line n h := by
    cases hread : line.read slice.length with
    | mk answer line' =>
      rw [hread] at h
      cases answer with
      | error e => cases h
      | ok bytes =>
        obtain rfl : bytes.length = n := Except.ok.inj h
        exact (Line.read_yields hread).length_le
  write_le slice line n h := by
    unfold Line.write at h
    split at h
    · exact Nat.le_of_eq (Except.ok.inj h).symm
    · cases h
    · obtain rfl := Except.ok.inj h
      exact List.length_take_le' _ _

/-! ## The vector and its counter -/

/-- A subtraction that fails below zero. -/
def checkedSub (a b : Nat) : Option Nat := if b ≤ a then some (a - b) else none

theorem checkedSub_of_le {a b : Nat} (h : b ≤ a) : checkedSub a b = some (a - b) := if_pos h

/-- A frame in transit : a vector, and how many bytes at its end are to go. -/
structure Storage where
  bytes : Bytes := []
  toGo : Nat := 0

namespace Storage

/-- The bytes to go, or the placeholders for them. -/
def pending (buffer : Storage) : Bytes := buffer.bytes.drop (buffer.bytes.length - buffer.toGo)

/-- The bytes read so far, and how many are to go. -/
def toInbound (buffer : Storage) : Inbound :=
  ⟨buffer.bytes.take (buffer.bytes.length - buffer.toGo), buffer.toGo⟩

/-- The bytes of the next frame read so far, and how many are missing until it is whole or
until its length is known. With none to go, that is what resynchronising finds. -/
def inTransit (buffer : Storage) : Inbound := buffer.toInbound.prepare

/-! ### Writing -/

/-- Takes what an encoder makes of the vector, if that is empty. An encoder that fails may
leave anything in it. -/
def push (encode : Bytes → Except TransportFailure Unit × Bytes) (buffer : Storage) :
    Except TransportFailure Unit × Storage :=
  if ¬buffer.bytes.isEmpty then (.error .bufferNotEmpty, buffer)
  else
    match encode buffer.bytes with
    | (.error e, _) => (.error e, {})
    | (.ok (), bytes) => (.ok (), ⟨bytes, bytes.length⟩)

/-- How writing ends. -/
inductive Sent (σ : Type) where
  | nothing
  | blocked (s : σ)
  | failed (failure : TransportFailure) (s : σ)
  | part (buffer : Storage) (s : σ)
  /-- All is written, and so flushed. -/
  | all (buffer : Storage) (flushed : Except TransportFailure Unit) (s : σ)

variable {σ : Type} (channel : ByteStream σ)

/-- Writes what the stream takes. -/
def send (buffer : Storage) (s : σ) : Option (Sent σ) :=
  if buffer.toGo = 0 then some .nothing
  else do
    let start ← checkedSub buffer.bytes.length buffer.toGo
    match channel.write (buffer.bytes.drop start) s with
    | (.ok count, s) =>
      let toGo ← checkedSub buffer.toGo count
      if toGo = 0 then
        let (flushed, s) := channel.flush s
        some (.all {} flushed s)
      else some (.part { buffer with toGo } s)
    | (.error .wouldBlock, s) => some (.blocked s)
    | (.error e, s) => some (.failed e s)

/-- The buffer after writing. -/
def Sent.buffer (before : Storage) : Sent σ → Storage
  | nothing | blocked _ | failed _ _ => before
  | part buffer _ | all buffer _ _ => buffer

/-- The stream after writing. -/
def Sent.stream (before : σ) : Sent σ → σ
  | nothing => before
  | blocked s | failed _ s | part _ s | all _ _ s => s

/-- The answer to the one who writes : whether all is written. -/
def Sent.answer : Sent σ → Except TransportFailure Bool
  | nothing => .ok true
  | blocked _ | part _ _ => .ok false
  | failed e _ => .error e
  | all _ flushed _ => flushed.map fun _ => true

/-! ### Reading -/

/-- With none to go, resynchronises and makes room for what is missing. -/
def prepare (buffer : Storage) : Storage :=
  if buffer.toGo = 0 then
    let held := resync buffer.bytes
    ⟨held ++ List.replicate (missing held) 0, missing held⟩
  else buffer

/-- How a round of reading ends. -/
inductive Round (σ : Type) where
  /-- A frame is whole. -/
  | item (frame : Except TransportFailure Frame) (buffer : Storage)
  | dry (buffer : Storage) (s : σ)
  | failed (failure : TransportFailure) (buffer : Storage) (s : σ)
  | took (count : Nat) (buffer : Storage) (s : σ)

/-- Reads once, unless a frame is whole. -/
def round (buffer : Storage) (s : σ) : Option (Round σ) :=
  let buffer := buffer.prepare
  if buffer.toGo = 0 then some (.item (Frame.decode buffer.bytes) {})
  else do
    let start ← checkedSub buffer.bytes.length buffer.toGo
    let (count, slice, s) := channel.read (buffer.bytes.drop start) s
    let filled := { buffer with bytes := buffer.bytes.take start ++ slice }
    match count with
    | .ok 0 | .error .wouldBlock => some (.dry filled s)
    | .ok count =>
      let toGo ← checkedSub buffer.toGo count
      some (.took count { filled with toGo } s)
    | .error e => some (.failed e filled s)

/-! ## What writing does -/

/-- An outgoing buffer between two calls. -/
structure Outgoing (buffer : Storage) : Prop where
  toGo_le : buffer.toGo ≤ buffer.bytes.length
  empty_iff : buffer.bytes = [] ↔ buffer.toGo = 0

/-- An empty buffer can be sent from. -/
theorem outgoing_empty : Outgoing {} := ⟨Nat.le_refl 0, by simp⟩

/-- A buffer without bytes is an empty one. -/
theorem Outgoing.eq_empty {buffer : Storage} (h : buffer.Outgoing) (hnil : buffer.bytes = []) :
    buffer = {} := by
  obtain ⟨bytes, toGo⟩ := buffer
  obtain rfl : bytes = [] := hnil
  obtain rfl : toGo = 0 := h.empty_iff.1 rfl
  rfl

/-- What is pushed to a buffer can be sent from it. -/
theorem Outgoing.push {buffer after : Storage} (h : buffer.Outgoing)
    {encode : Bytes → Except TransportFailure Unit × Bytes} {answer : Except TransportFailure Unit}
    (hpush : buffer.push encode = (answer, after)) : after.Outgoing := by
  unfold Storage.push at hpush
  split at hpush
  · obtain ⟨-, rfl⟩ := Prod.mk.inj hpush
    exact h
  · split at hpush
    · obtain ⟨-, rfl⟩ := Prod.mk.inj hpush
      exact outgoing_empty
    · obtain ⟨-, rfl⟩ := Prod.mk.inj hpush
      exact ⟨Nat.le_refl _, List.length_eq_zero_iff.symm⟩

/-- A push that fails leaves the buffer as it is, also where the encoder failed half-way. -/
theorem Outgoing.push_error {buffer after : Storage} (h : buffer.Outgoing)
    {encode : Bytes → Except TransportFailure Unit × Bytes} {e : TransportFailure}
    (hpush : buffer.push encode = (.error e, after)) : after = buffer := by
  unfold Storage.push at hpush
  split at hpush
  · exact (Prod.mk.inj hpush).2.symm
  · rename_i hempty
    split at hpush
    · rw [← (Prod.mk.inj hpush).2]
      exact (h.eq_empty (List.isEmpty_iff.1 (Classical.not_not.1 hempty))).symm
    · cases (Prod.mk.inj hpush).1

/-- As many bytes are pending as are to go. -/
theorem length_pending {buffer : Storage} (h : buffer.toGo ≤ buffer.bytes.length) :
    buffer.pending.length = buffer.toGo := by
  unfold pending
  rw [List.length_drop]
  omega

variable {channel}

variable (channel) in
/-- With bytes to go, no subtraction fails : they are all offered to the stream. -/
theorem Outgoing.send_eq {buffer : Storage} (h : buffer.Outgoing) (hne : buffer.toGo ≠ 0) (s : σ) :
    buffer.send channel s = some (match channel.write buffer.pending s with
      | (.ok count, s) =>
        if buffer.toGo - count = 0 then .all {} (channel.flush s).1 (channel.flush s).2
        else .part { buffer with toGo := buffer.toGo - count } s
      | (.error .wouldBlock, s) => .blocked s
      | (.error e, s) => .failed e s) := by
  have hle := channel.write_le buffer.pending s
  rw [length_pending h.toGo_le] at hle
  unfold Storage.send
  rw [if_neg hne, checkedSub_of_le h.toGo_le]
  have hpending : buffer.bytes.drop (buffer.bytes.length - buffer.toGo) = buffer.pending := rfl
  simp only [Option.bind_eq_bind, Option.bind_some, hpending]
  cases hwrite : channel.write buffer.pending s with
  | mk answer s' =>
    rw [hwrite] at hle
    cases answer with
    | error e => cases e <;> rfl
    | ok count =>
      simp only [checkedSub_of_le (hle count rfl), Option.bind_some]
      split <;> rfl

variable (channel) in
/-- Writing leaves a buffer as it should be. -/
theorem Outgoing.send {buffer : Storage} (h : buffer.Outgoing) (s : σ) :
    ∃ outcome, buffer.send channel s = some outcome ∧ (outcome.buffer buffer).Outgoing := by
  by_cases hzero : buffer.toGo = 0
  · exact ⟨.nothing, if_pos hzero, h⟩
  · refine ⟨_, h.send_eq channel hzero s, ?_⟩
    split
    · split
      · exact outgoing_empty
      · rename_i hleft
        exact ⟨Nat.le_trans (Nat.sub_le _ _) h.toGo_le, iff_of_false (mt h.empty_iff.1 hzero) hleft⟩
    · exact h
    · exact h

/-- The buffer has been written from, or to, in the round that ended so. -/
def Sent.moved : Sent σ → Bool
  | part _ _ | all _ _ _ => true
  | nothing | blocked _ | failed _ _ => false

/-- A history of writing : the buffer as it was after bytes were last moved, into it or
out of it, and the buffer now. -/
inductive Sending (channel : ByteStream σ) : (last now : Storage) → Prop
  | start : Sending channel {} {}
  | pushed {last now after : Storage} {encode : Bytes → Except TransportFailure Unit × Bytes} :
      Sending channel last now → now.push encode = (.ok (), after) → Sending channel after after
  | refused {last now after : Storage} {encode : Bytes → Except TransportFailure Unit × Bytes}
      {e : TransportFailure} :
      Sending channel last now → now.push encode = (.error e, after) → Sending channel last after
  | sent {last now : Storage} {s : σ} {outcome : Sent σ} :
      Sending channel last now → now.send channel s = some outcome →
      Sending channel (if outcome.moved then outcome.buffer now else last) (outcome.buffer now)

variable {last now : Storage}

/-- All along a buffer can be sent from. -/
theorem Sending.outgoing (h : Sending channel last now) : now.Outgoing := by
  induction h with
  | start => exact outgoing_empty
  | pushed _ hpush ih => exact ih.push hpush
  | refused _ hpush ih => exact ih.push hpush
  | @sent last now s outcome _ hsend ih =>
    obtain ⟨outcome', hsend', houtgoing⟩ := ih.send channel s
    obtain rfl : outcome = outcome' := Option.some.inj (hsend.symm.trans hsend')
    exact houtgoing

/-- What failed since bytes were last moved changed nothing. -/
theorem Sending.unchanged (h : Sending channel last now) : now = last := by
  induction h with
  | start => rfl
  | pushed => rfl
  | refused hbefore hpush ih => exact (hbefore.outgoing.push_error hpush).trans ih
  | @sent last now s outcome _ _ ih => cases outcome <;> first | exact ih | rfl

/-! ### On a serial line -/

/-- Nothing is pending exactly if nothing is to go. -/
theorem Outgoing.pending_isEmpty {buffer : Storage} (h : buffer.Outgoing) :
    buffer.pending.isEmpty = true ↔ buffer.toGo = 0 := by
  rw [List.isEmpty_iff, ← List.length_eq_zero_iff, length_pending h.toGo_le]

/-- What is left to write when some of it is written. -/
theorem pending_drop {buffer : Storage} {count : Nat} (h : buffer.toGo ≤ buffer.bytes.length)
    (hcount : count ≤ buffer.toGo) :
    buffer.pending.drop count = pending ⟨buffer.bytes, buffer.toGo - count⟩ := by
  have hstart : buffer.bytes.length - buffer.toGo + count =
      buffer.bytes.length - (buffer.toGo - count) := by omega
  simp only [pending, List.drop_drop, hstart]

/-- To write a buffer to a line is what `Outbound` does with the bytes to go. -/
theorem Outgoing.send_line {buffer : Storage} (h : buffer.Outgoing) {line : Line}
    {outcome : Sent Line} (hsend : buffer.send Line.stream line = some outcome) :
    Outbound.write ⟨buffer.pending⟩ line =
      (outcome.answer, ⟨(outcome.buffer buffer).pending⟩, outcome.stream line) := by
  unfold Outbound.write
  by_cases hzero : buffer.toGo = 0
  · obtain rfl := Option.some.inj ((if_pos hzero).symm.trans hsend)
    rw [if_pos (h.pending_isEmpty.2 hzero)]
    rfl
  · obtain rfl := Option.some.inj ((h.send_eq Line.stream hzero line).symm.trans hsend)
    rw [if_neg (mt h.pending_isEmpty.1 hzero)]
    have hle := Line.stream.write_le buffer.pending line
    rw [length_pending h.toGo_le] at hle
    change ∀ n, (line.write buffer.pending).1 = .ok n → n ≤ buffer.toGo at hle
    simp only [Line.stream]
    cases hwrite : line.write buffer.pending with
    | mk answer line' =>
      rw [hwrite] at hle
      cases answer with
      | error e => cases e <;> rfl
      | ok count =>
        have hleft := pending_drop h.toGo_le (hle count rfl)
        have hlength : (buffer.pending.drop count).length = buffer.toGo - count := by
          rw [List.length_drop, length_pending h.toGo_le]
        by_cases hall : buffer.toGo - count = 0
        · simp only [List.eq_nil_of_length_eq_zero (hlength.trans hall), if_pos hall]
          rfl
        · cases hrest : buffer.pending.drop count with
          | nil => exact absurd (hlength.symm.trans (congrArg List.length hrest)) hall
          | cons b rest =>
            simp only [hrest, if_neg hall, Sent.answer, Sent.buffer, Sent.stream, ← hleft]

/-- An encoder that appends a frame. -/
def encoder (frame : Frame) (before : Bytes) : Except TransportFailure Unit × Bytes :=
  match frame.encodeOnto before with
  | .ok bytes => (.ok (), bytes)
  | .error e => (.error e, before)

/-- To push a frame is what `Outbound` does with the bytes to go. -/
theorem Outgoing.push_frame {buffer : Storage} (h : buffer.Outgoing) (frame : Frame) :
    Outbound.push ⟨buffer.pending⟩ frame =
      (buffer.push (encoder frame)).1.map fun _ => ⟨(buffer.push (encoder frame)).2.pending⟩ := by
  unfold Outbound.push Storage.push
  by_cases hempty : buffer.bytes = []
  · rw [if_pos (h.pending_isEmpty.2 (h.empty_iff.1 hempty)), if_neg (by simp [hempty]), hempty]
    unfold encoder Frame.encode
    cases frame.encodeOnto [] with
    | error e => rfl
    | ok bytes => simp [Except.map, pending]
  · rw [if_neg (mt h.pending_isEmpty.1 (mt h.empty_iff.2 hempty)), if_pos (by simpa using hempty)]
    rfl

/-! ## What reading does -/

/-- What a round of reading makes of a buffer. -/
def Round.Fits (before : Storage) : Round σ → Prop
  | item frame after =>
    before.inTransit.awaited = 0 ∧ frame = Frame.decode before.inTransit.held ∧ after = {}
  | dry after _ | failed _ after _ =>
    0 < after.toGo ∧ after.toGo ≤ after.bytes.length ∧ after.toInbound = before.inTransit
  | took count after _ =>
    0 < count ∧ after.toGo + count = before.inTransit.awaited ∧
      after.toGo ≤ after.bytes.length ∧
      ∃ chunk, chunk.length = count ∧ after.toInbound.held = before.inTransit.held ++ chunk

variable {buffer : Storage}

theorem prepare_of_toGo_eq_zero (h : buffer.toGo = 0) :
    buffer.prepare = ⟨resync buffer.bytes ++ List.replicate (missing (resync buffer.bytes)) 0,
      missing (resync buffer.bytes)⟩ := if_pos h

theorem prepare_of_toGo_ne_zero (h : buffer.toGo ≠ 0) : buffer.prepare = buffer := if_neg h

/-- No more is to go than there is, also after placeholders were added. -/
theorem toGo_prepare_le (h : buffer.toGo ≤ buffer.bytes.length) :
    buffer.prepare.toGo ≤ buffer.prepare.bytes.length := by
  by_cases hzero : buffer.toGo = 0
  · rw [prepare_of_toGo_eq_zero hzero]
    simp
  · rwa [prepare_of_toGo_ne_zero hzero]

/-- To make room for the missing bytes receives none. -/
theorem toInbound_prepare (buffer : Storage) : buffer.prepare.toInbound = buffer.inTransit := by
  unfold inTransit
  by_cases hzero : buffer.toGo = 0
  · rw [prepare_of_toGo_eq_zero hzero, Inbound.prepare_of_eq hzero]
    simp [toInbound, hzero]
  · rw [prepare_of_toGo_ne_zero hzero, Inbound.prepare_of_ne hzero]

/-- There are as many placeholders as bytes are awaited. -/
theorem length_pending_prepare (h : buffer.toGo ≤ buffer.bytes.length) :
    buffer.prepare.pending.length = buffer.inTransit.awaited :=
  (length_pending (toGo_prepare_le h)).trans
    (congrArg Inbound.awaited (toInbound_prepare buffer))

variable (channel) in
/-- With bytes to go, no subtraction fails : the stream is offered the room for them. -/
theorem round_eq (h : buffer.toGo ≤ buffer.bytes.length) (hne : buffer.inTransit.awaited ≠ 0)
    (s : σ) :
    buffer.round channel s = some (match channel.read buffer.prepare.pending s with
      | (.ok 0, slice, s) | (.error .wouldBlock, slice, s) =>
        .dry ⟨buffer.inTransit.held ++ slice, buffer.inTransit.awaited⟩ s
      | (.ok count, slice, s) =>
        .took count ⟨buffer.inTransit.held ++ slice, buffer.inTransit.awaited - count⟩ s
      | (.error e, slice, s) =>
        .failed e ⟨buffer.inTransit.held ++ slice, buffer.inTransit.awaited⟩ s) := by
  have hle := toGo_prepare_le h
  have hread := channel.read_le buffer.prepare.pending s
  rw [length_pending hle] at hread
  rw [← toInbound_prepare] at hne ⊢
  have htoGo : buffer.prepare.toGo ≠ 0 := hne
  unfold round
  dsimp only
  rw [if_neg htoGo, checkedSub_of_le hle]
  have hpending : buffer.prepare.bytes.drop (buffer.prepare.bytes.length - buffer.prepare.toGo) =
      buffer.prepare.pending := rfl
  rcases hresult : channel.read buffer.prepare.pending s with ⟨answer, slice, s'⟩
  rw [hresult] at hread
  simp only [Option.bind_eq_bind, Option.bind_some, hpending, hresult]
  match answer, hread with
  | .ok 0, _ | .error .wouldBlock, _ => rfl
  | .ok (count + 1), hread =>
    simp only [checkedSub_of_le (hread _ rfl)]
    rfl
  | .error (.other _), _ | .error .bufferNotEmpty, _ | .error .unexpectedEof, _
  | .error (.invalidFrame _), _ => rfl

/-- When nothing is awaited any more, the buffer holds an item. -/
theorem round_of_awaited_eq_zero (hzero : buffer.inTransit.awaited = 0) (s : σ) :
    buffer.round channel s = some (.item (Frame.decode buffer.inTransit.held) {}) := by
  rw [← toInbound_prepare] at hzero ⊢
  have htoGo : buffer.prepare.toGo = 0 := hzero
  unfold round
  dsimp only
  rw [if_pos htoGo]
  simp [toInbound, htoGo]

/-- A read into the room for the bytes to go. -/
theorem toInbound_append {held slice : Bytes} {toGo : Nat} (h : toGo ≤ slice.length) :
    toInbound ⟨held ++ slice, toGo⟩ = ⟨held ++ slice.take (slice.length - toGo), toGo⟩ := by
  have hstart : (held ++ slice).length - toGo = held.length + (slice.length - toGo) := by
    rw [List.length_append]
    omega
  simp only [toInbound, hstart, List.take_length_add_append]

variable (channel) in
/-- Reading never subtracts too much, and does what it should. -/
theorem round_fits (h : buffer.toGo ≤ buffer.bytes.length) (s : σ) :
    ∃ outcome, buffer.round channel s = some outcome ∧ outcome.Fits buffer := by
  by_cases hzero : buffer.inTransit.awaited = 0
  · exact ⟨_, round_of_awaited_eq_zero hzero s, hzero, rfl, rfl⟩
  · refine ⟨_, round_eq channel h hzero s, ?_⟩
    have hslice := channel.length_read buffer.prepare.pending s
    have hread := channel.read_le buffer.prepare.pending s
    rw [length_pending_prepare h] at hslice hread
    rcases hresult : channel.read buffer.prepare.pending s with ⟨answer, slice, s'⟩
    rw [hresult] at hslice hread
    change slice.length = buffer.inTransit.awaited at hslice
    have hroom : ∀ count, buffer.inTransit.awaited - count ≤
        (buffer.inTransit.held ++ slice).length := fun count => by
      rw [List.length_append]
      omega
    have hsame : toInbound ⟨buffer.inTransit.held ++ slice, buffer.inTransit.awaited⟩ =
        buffer.inTransit := by
      rw [toInbound_append (Nat.le_of_eq hslice.symm), hslice]
      simp
    have hwaits := Nat.pos_of_ne_zero hzero
    match answer, hread with
    | .ok 0, _ | .error .wouldBlock, _ => exact ⟨hwaits, hroom 0, hsame⟩
    | .ok (count + 1), hread =>
      have hcount := hread _ rfl
      refine ⟨Nat.succ_pos count, Nat.sub_add_cancel hcount, hroom _, slice.take (count + 1), ?_,
        ?_⟩
      · rw [List.length_take]
        omega
      · have htaken : slice.length - (buffer.inTransit.awaited - (count + 1)) = count + 1 := by
          omega
        rw [toInbound_append (by omega), htaken]
    | .error (.other _), _ | .error .bufferNotEmpty, _ | .error .unexpectedEof, _
    | .error (.invalidFrame _), _ => exact ⟨hwaits, hroom 0, hsame⟩

/-- A history of reading, round by round : the buffer as it was after bytes were last moved,
into it or out of it as a frame, and the buffer now. -/
inductive Receiving (channel : ByteStream σ) : (last now : Storage) → Prop
  | start : Receiving channel {} {}
  | item {last now after : Storage} {s : σ} {frame : Except TransportFailure Frame} :
      Receiving channel last now → now.round channel s = some (.item frame after) →
      Receiving channel after after
  | took {last now after : Storage} {s s' : σ} {count : Nat} :
      Receiving channel last now → now.round channel s = some (.took count after s') →
      Receiving channel after after
  | dry {last now after : Storage} {s s' : σ} :
      Receiving channel last now → now.round channel s = some (.dry after s') →
      Receiving channel last after
  | failed {last now after : Storage} {s s' : σ} {e : TransportFailure} :
      Receiving channel last now → now.round channel s = some (.failed e after s') →
      Receiving channel last after

/-- What a round makes of a buffer fits it. -/
theorem fits_of_round (h : buffer.toGo ≤ buffer.bytes.length) {s : σ} {outcome : Round σ}
    (hround : buffer.round channel s = some outcome) : outcome.Fits buffer := by
  obtain ⟨outcome', hround', hfits⟩ := round_fits channel h s
  obtain rfl := Option.some.inj (hround.symm.trans hround')
  exact hfits

theorem inTransit_of_toGo_ne_zero (h : buffer.toGo ≠ 0) : buffer.inTransit = buffer.toInbound :=
  Inbound.prepare_of_ne h

/-- All along no more is to go than there is. -/
theorem Receiving.toGo_le (h : Receiving channel last now) : now.toGo ≤ now.bytes.length := by
  induction h with
  | start => exact Nat.le_refl 0
  | item _ hround ih =>
    obtain ⟨-, -, rfl⟩ := fits_of_round ih hround
    exact Nat.le_refl 0
  | took _ hround ih => exact (fits_of_round ih hround).2.2.1
  | dry _ hround ih | failed _ hround ih => exact (fits_of_round ih hround).2.1

/-- A round that moves nothing leaves the frame in transit as it is. -/
theorem Receiving.inTransit_eq (h : Receiving channel last now) :
    now.inTransit = last.inTransit := by
  induction h with
  | start | item | took => rfl
  | dry hbefore hround ih | failed hbefore hround ih =>
    obtain ⟨hwaits, -, hsame⟩ := fits_of_round hbefore.toGo_le hround
    rw [inTransit_of_toGo_ne_zero (Nat.ne_of_gt hwaits), hsame, ih]

/-- A buffer that waits for bytes is left as it is, but for the placeholders. -/
theorem Receiving.toInbound_eq (h : Receiving channel last now) (hwaits : 0 < last.toGo) :
    now.toInbound = last.toInbound := by
  cases h with
  | start | item | took => rfl
  | dry hbefore hround | failed hbefore hround =>
    obtain ⟨-, -, hsame⟩ := fits_of_round hbefore.toGo_le hround
    rw [hsame, hbefore.inTransit_eq, inTransit_of_toGo_ne_zero (Nat.ne_of_gt hwaits)]

/-! ### Calls -/

/-- What a call of the reader comes back with. -/
inductive Found where
  | item (frame : Except TransportFailure Frame)
  | dry
  | failed (failure : TransportFailure)

/-- The answer to the caller. -/
def Found.answer : Found → Except TransportFailure (Option Frame)
  | item frame => frame.map some
  | dry => .ok none
  | failed e => .error e

/-- A call goes on for as long as rounds take bytes. Beside the buffer goes what it was
after bytes were last moved. -/
inductive Reads (channel : ByteStream σ) :
    (last now : Storage) → σ → Found → (last' after : Storage) → σ → Prop
  | item {last now after : Storage} {s : σ} {frame : Except TransportFailure Frame} :
      now.round channel s = some (.item frame after) →
      Reads channel last now s (.item frame) after after s
  | dry {last now after : Storage} {s s' : σ} : now.round channel s = some (.dry after s') →
      Reads channel last now s .dry last after s'
  | failed {last now after : Storage} {s s' : σ} {e : TransportFailure} :
      now.round channel s = some (.failed e after s') →
      Reads channel last now s (.failed e) last after s'
  | took {last now next last' after : Storage} {s t s' : σ} {count : Nat} {found : Found} :
      now.round channel s = some (.took count next t) →
      Reads channel next next t found last' after s' →
      Reads channel last now s found last' after s'

variable {last' after : Storage} {s s' : σ} {found : Found}

/-- A call goes through rounds only. -/
theorem Reads.receiving (h : Reads channel last now s found last' after s')
    (hnow : Receiving channel last now) : Receiving channel last' after := by
  induction h with
  | item hround => exact .item hnow hround
  | dry hround => exact .dry hnow hround
  | failed hround => exact .failed hnow hround
  | took hround _ ih => exact ih (.took hnow hround)

/-- A call that finds a frame leaves an empty buffer, any other one a buffer that waits. -/
def Found.Leaves (after : Storage) : Found → Prop
  | item _ => after = {}
  | dry | failed _ => 0 < after.toGo

/-- A call that reads an item or fails leaves the buffer so that the next one can go on. -/
theorem Reads.leaves (h : Reads channel last now s found last' after s')
    (hnow : Receiving channel last now) : found.Leaves after := by
  induction h with
  | item hround => exact (fits_of_round hnow.toGo_le hround).2.2
  | dry hround | failed hround => exact (fits_of_round hnow.toGo_le hround).1
  | took hround _ ih => exact ih (.took hnow hround)

/-! ### On a serial line -/

/-- A line that is read fills the front of the slice. -/
theorem stream_read_ok {slice bytes : Bytes} {line line' : Line}
    (h : line.read slice.length = (.ok bytes, line')) :
    Line.stream.read slice line = (.ok bytes.length, bytes ++ slice.drop bytes.length, line') := by
  simp only [Line.stream, h]

/-- A line that fails leaves the slice alone. -/
theorem stream_read_error {slice : Bytes} {line line' : Line} {e : TransportFailure}
    (h : line.read slice.length = (.error e, line')) :
    Line.stream.read slice line = (.error e, slice, line') := by
  simp only [Line.stream, h]

/-- A round on a line that has nothing to give. -/
theorem round_line_dry (hnow : now.toGo ≤ now.bytes.length) {line line' : Line}
    (hne : now.inTransit.awaited ≠ 0)
    (hread : line.read now.inTransit.awaited = (.ok [], line') ∨
      line.read now.inTransit.awaited = (.error .wouldBlock, line')) :
    ∃ after, now.round Line.stream line = some (.dry after line') ∧
      after.toInbound = now.inTransit := by
  have hround := round_eq Line.stream hnow hne line
  rw [← length_pending_prepare hnow] at hread
  rcases hread with hread | hread
  · rw [stream_read_ok hread] at hround
    exact ⟨_, hround, (fits_of_round hnow hround).2.2⟩
  · rw [stream_read_error hread] at hround
    exact ⟨_, hround, (fits_of_round hnow hround).2.2⟩

/-- A round on a line that has something to give. -/
theorem round_line_took (hnow : now.toGo ≤ now.bytes.length) {line line' : Line}
    (hne : now.inTransit.awaited ≠ 0) {b : UInt8} {bytes : Bytes}
    (hread : line.read now.inTransit.awaited = (.ok (b :: bytes), line')) :
    ∃ after, now.round Line.stream line = some (.took (b :: bytes).length after line') ∧
      after.toInbound = ⟨now.inTransit.held ++ b :: bytes,
        now.inTransit.awaited - (b :: bytes).length⟩ := by
  have hround := round_eq Line.stream hnow hne line
  have hle : (b :: bytes).length ≤ now.inTransit.awaited := (Line.read_yields hread).length_le
  have hlength : (b :: bytes ++ now.prepare.pending.drop (b :: bytes).length).length =
      now.inTransit.awaited := by
    rw [List.length_append, List.length_drop, length_pending_prepare hnow]
    exact Nat.add_sub_cancel' hle
  rw [← length_pending_prepare hnow] at hread
  rw [stream_read_ok hread] at hround
  refine ⟨_, hround, ?_⟩
  rw [toInbound_append (hlength ▸ Nat.sub_le _ _), hlength, Nat.sub_sub_self hle, List.take_left]

/-- A round on a line that fails. -/
theorem round_line_failed (hnow : now.toGo ≤ now.bytes.length) {line line' : Line}
    (hne : now.inTransit.awaited ≠ 0) {e : TransportFailure} (hblock : e ≠ .wouldBlock)
    (hread : line.read now.inTransit.awaited = (.error e, line')) :
    ∃ after, now.round Line.stream line = some (.failed e after line') ∧
      after.toInbound = now.inTransit := by
  have hround := round_eq Line.stream hnow hne line
  rw [← length_pending_prepare hnow] at hread
  rw [stream_read_error hread] at hround
  cases e with
  | wouldBlock => exact absurd rfl hblock
  | _ => exact ⟨_, hround, (fits_of_round hnow hround).2.2⟩

/-- On a line, a call comes to an end, and does what `Inbound` does. The induction is that
of `Inbound.readFrame`. -/
theorem reads_line (hnow : now.toGo ≤ now.bytes.length) (last : Storage) (line : Line) :
    ∃ found last' after line', Reads Line.stream last now line found last' after line' ∧
      now.toInbound.readFrame line = (found.answer, after.toInbound, line') := by
  generalize hinbound : now.toInbound = inbound
  fun_induction Inbound.readFrame inbound line generalizing now last with
  | case1 inbound line prepared =>
    rename_i hzero
    subst hinbound
    exact ⟨_, _, {}, line, .item (round_of_awaited_eq_zero hzero line), rfl⟩
  | case2 inbound line prepared hne line' =>
    rename_i hread
    subst hinbound
    obtain ⟨after, hround, hsame⟩ := round_line_dry hnow hne (Or.inl hread)
    exact ⟨.dry, last, after, line', .dry hround, by rw [hsame]; rfl⟩
  | case3 inbound line prepared hne b bytes line' hread =>
    rename_i ih
    subst hinbound
    obtain ⟨after, hround, hsame⟩ := round_line_took hnow hne hread
    have hafter := (fits_of_round hnow hround).2.2.1
    obtain ⟨found, last', after', line'', hreads, hfound⟩ := ih hafter after hsame
    exact ⟨found, last', after', line'', .took hround hreads, hfound⟩
  | case4 inbound line prepared hne line' =>
    rename_i hread
    subst hinbound
    obtain ⟨after, hround, hsame⟩ := round_line_dry hnow hne (Or.inr hread)
    exact ⟨.dry, last, after, line', .dry hround, by rw [hsame]; rfl⟩
  | case5 inbound line prepared hne e line' hblock =>
    rename_i hread
    subst hinbound
    obtain ⟨after, hround, hsame⟩ := round_line_failed hnow hne hblock hread
    exact ⟨.failed e, last, after, line', .failed hround, by rw [hsame]; rfl⟩

/-- A call can go one way only. -/
theorem Reads.unique (h : Reads channel last now s found last' after s') {found₂ : Found}
    {last₂ after₂ : Storage} {s₂ : σ} (h₂ : Reads channel last now s found₂ last₂ after₂ s₂) :
    found = found₂ ∧ after = after₂ ∧ s' = s₂ := by
  induction h with
  | item hround | dry hround | failed hround =>
    cases h₂ with
    | item hround₂ | dry hround₂ | failed hround₂ | took hround₂ =>
      cases Option.some.inj (hround.symm.trans hround₂) <;> exact ⟨rfl, rfl, rfl⟩
  | took hround _ ih =>
    cases h₂ with
    | item hround₂ | dry hround₂ | failed hround₂ =>
      cases Option.some.inj (hround.symm.trans hround₂)
    | took hround₂ hrest =>
      cases Option.some.inj (hround.symm.trans hround₂)
      exact ih hrest

/-! ## The laws -/

/-- What holds of an outgoing buffer after any calls, `last` being what it was when bytes
were last moved. -/
structure SendingLaws (channel : ByteStream σ) (last now : Storage) : Prop where
  toGo_le : now.toGo ≤ now.bytes.length
  empty_iff : now.bytes = [] ↔ now.toGo = 0
  /-- No subtraction goes below zero. -/
  send_ne_none : ∀ s, now.send channel s ≠ none
  /-- Calls that failed since then changed nothing. -/
  unchanged : now = last
  /-- A push that fails changes nothing. -/
  push_error : ∀ encode e after, now.push encode = (.error e, after) → after = now
  /-- It is what `Outbound` is with the bytes to go. -/
  push_frame : ∀ frame, Outbound.push ⟨now.pending⟩ frame =
    (now.push (encoder frame)).1.map fun _ => ⟨(now.push (encoder frame)).2.pending⟩
  send_line : ∀ line outcome, now.send Line.stream line = some outcome →
    Outbound.write ⟨now.pending⟩ line =
      (outcome.answer, ⟨(outcome.buffer now).pending⟩, outcome.stream line)

/-- All that is said of sending holds of every state that sending comes to. -/
theorem Sending.laws (h : Sending channel last now) : SendingLaws channel last now where
  toGo_le := h.outgoing.toGo_le
  empty_iff := h.outgoing.empty_iff
  send_ne_none s hnone := by
    obtain ⟨outcome, hsend, -⟩ := h.outgoing.send channel s
    cases hsend.symm.trans hnone
  unchanged := h.unchanged
  push_error _ _ _ := h.outgoing.push_error
  push_frame := h.outgoing.push_frame
  send_line _ _ := h.outgoing.send_line

/-- What holds of an incoming buffer after any rounds of any calls, `last` being what it
was when bytes were last moved. -/
structure ReceivingLaws (channel : ByteStream σ) (last now : Storage) : Prop where
  toGo_le : now.toGo ≤ now.bytes.length
  /-- No subtraction goes below zero. -/
  round_ne_none : ∀ s, now.round channel s ≠ none
  /-- Rounds that moved nothing since then left the bytes received and the number of those
  missing. -/
  inTransit_eq : now.inTransit = last.inTransit
  /-- If bytes were to go then, they left all but the placeholders. -/
  toInbound_eq : 0 < last.toGo → now.toInbound = last.toInbound
  /-- A round after which the call goes on takes bytes. -/
  takes : ∀ s count after s', now.round channel s = some (.took count after s') →
    0 < count ∧ after.toGo + count = now.inTransit.awaited ∧
      ∃ chunk, chunk.length = count ∧ after.toInbound.held = now.inTransit.held ++ chunk
  /-- A call leads to a buffer of which all this holds too. It is empty if a frame was
  found, and waits for bytes if not. -/
  call : ∀ s found last' after s', Reads channel last now s found last' after s' →
    Receiving channel last' after ∧ found.Leaves after
  /-- It is what `Inbound` is with the bytes received. -/
  reads_line : ∀ line found last' after line',
    Reads Line.stream last now line found last' after line' →
      now.toInbound.readFrame line = (found.answer, after.toInbound, line')
  /-- On a line a call comes to an end. -/
  ends_line : ∀ line, ∃ found last' after line',
    Reads Line.stream last now line found last' after line'

/-- All that is said of receiving holds of every state that receiving comes to. -/
theorem Receiving.laws (h : Receiving channel last now) : ReceivingLaws channel last now where
  toGo_le := h.toGo_le
  round_ne_none s hnone := by
    obtain ⟨outcome, hround, -⟩ := round_fits channel h.toGo_le s
    cases hround.symm.trans hnone
  inTransit_eq := h.inTransit_eq
  toInbound_eq := h.toInbound_eq
  takes s count after s' hround := by
    obtain ⟨hcount, htoGo, -, hchunk⟩ := fits_of_round h.toGo_le hround
    exact ⟨hcount, htoGo, hchunk⟩
  call s found last' after s' hreads := ⟨hreads.receiving h, hreads.leaves h⟩
  reads_line line found last' after line' hreads := by
    obtain ⟨found₂, last₂, after₂, line₂, hreads₂, hline⟩ := Storage.reads_line h.toGo_le last line
    obtain ⟨rfl, rfl, rfl⟩ := hreads.unique hreads₂
    exact hline
  ends_line line := by
    obtain ⟨found, last', after, line', hreads, -⟩ := Storage.reads_line h.toGo_le last line
    exact ⟨found, last', after, line', hreads⟩

/-- Whatever the stream does within its contract, and whatever is pushed, written and read :
the counter of a buffer is right, and what fails loses nothing. -/
theorem transit_sound (channel : ByteStream σ) (last now : Storage) :
    (Sending channel last now → SendingLaws channel last now) ∧
      (Receiving channel last now → ReceivingLaws channel last now) :=
  ⟨Sending.laws, Receiving.laws⟩

/-- A line that moves two bytes each way and then fails. -/
def stalling : Line where
  incoming := [0x13, 0xFE, 0x00]
  reads := [.atMost 2, .failing (.other "stalled")]
  writes := [.atMost 2, .failing (.other "stalled")]

/-- Two of five bytes were sent when the line stalled. -/
theorem stalled_sending :
    Sending Line.stream ⟨[0xFE, 0x00, 0x21, 0x01, 0x20], 3⟩
      ⟨[0xFE, 0x00, 0x21, 0x01, 0x20], 3⟩ := by
  have hpush : Storage.push (encoder ⟨.sreq, ⟨.sys, 0x01⟩, []⟩) {} =
      (.ok (), ⟨[0xFE, 0x00, 0x21, 0x01, 0x20], 5⟩) := rfl
  have hpushed : Sending Line.stream ⟨[0xFE, 0x00, 0x21, 0x01, 0x20], 5⟩
      ⟨[0xFE, 0x00, 0x21, 0x01, 0x20], 5⟩ := .pushed .start hpush
  have hpart : Sending Line.stream ⟨[0xFE, 0x00, 0x21, 0x01, 0x20], 3⟩
      ⟨[0xFE, 0x00, 0x21, 0x01, 0x20], 3⟩ := hpushed.sent (s := stalling) rfl
  exact hpart.sent (s := { stalling with writes := [.failing (.other "stalled")] }) rfl

/-- The noise that was read is dropped, and a length is missing behind the start byte. -/
theorem stalled_receiving : Receiving Line.stream ⟨[0x13, 0xFE], 0⟩ ⟨[0xFE, 0x00], 1⟩ := by
  have htook : Receiving Line.stream ⟨[0x13, 0xFE], 0⟩ ⟨[0x13, 0xFE], 0⟩ :=
    .took (s := stalling) .start rfl
  exact htook.failed (s := { stalling with reads := [.failing (.other "stalled")] }) rfl

/-- The laws at a buffer that is half sent, and at one that is half filled. -/
theorem stalled_transit_sound :
    SendingLaws Line.stream ⟨[0xFE, 0x00, 0x21, 0x01, 0x20], 3⟩
        ⟨[0xFE, 0x00, 0x21, 0x01, 0x20], 3⟩ ∧
      ReceivingLaws Line.stream ⟨[0x13, 0xFE], 0⟩ ⟨[0xFE, 0x00], 1⟩ :=
  ⟨(transit_sound Line.stream _ _).1 stalled_sending,
    (transit_sound Line.stream _ _).2 stalled_receiving⟩

end Storage
end ZigbeeHost
