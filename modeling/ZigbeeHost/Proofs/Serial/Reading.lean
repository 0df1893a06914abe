import ZigbeeHost.Serial.Buffer
import ZigbeeHost.Proofs.Serial.Spans
/-!
# Reading frame by frame

What a buffer holds when it is done with the bytes `taken` is what `spans` cannot tell yet :
after `taken`, whatever comes next is cut as after the bytes held (`Inbound.Follows`). The
buffer never asks for more than the end of one frame, so its next frame is complete with
the very last byte that was taken.

Each call of `readFrame` keeps this (`Inbound.readFrame_advances`). It answers with one more
stretch, or says that the line had nothing to give, and then the line is dry or has used up
a cue.
-/

namespace ZigbeeHost

/-! ## What a line does -/

namespace Line

/-- The failure may come from the line itself. -/
def Reports (line : Line) (e : TransportFailure) : Prop :=
  .failing e ∈ line.reads ∨ line.closed = true ∧ e = .unexpectedEof

/-- What a read of up to `room` bytes makes of a line. -/
structure Yields (line : Line) (room : Nat) (answer : Except TransportFailure Bytes)
    (line' : Line) : Prop where
  incoming : line.incoming = answer.toOption.getD [] ++ line'.incoming
  length_le : (answer.toOption.getD []).length ≤ room
  reads : line'.reads <:+ line.reads
  closed : line'.closed = line.closed
  written : line'.written = line.written
  failure : ∀ e, answer = .error e → e = .wouldBlock ∨ line.Reports e
  /-- Without a byte, a cue is used up or there is none. -/
  dry : answer.toOption.getD [] = [] → 0 < room →
    line'.reads.length < line.reads.length ∨ line'.incoming = []

/-- What a line has is yielded, up to the room for it. -/
theorem receive_yields (line : Line) {room count : Nat} (hcount : count ≤ room)
    (hpos : 0 < room → 0 < count) :
    line.Yields room (line.receive count).1 (line.receive count).2 := by
  unfold receive
  cases hin : line.incoming with
  | nil =>
    refine ⟨by simp [Except.toOption, hin], Nat.zero_le _, List.suffix_rfl, rfl, rfl, ?_, ?_⟩
    · intro e he
      cases hclosed : line.closed with
      | true =>
        simp only [List.isEmpty_nil, if_true, hclosed] at he
        exact Or.inr (Or.inr ⟨hclosed, (Except.error.inj he).symm⟩)
      | false =>
        simp only [List.isEmpty_nil, if_true, hclosed] at he
        exact Or.inl (Except.error.inj he).symm
    · exact fun _ _ => Or.inr hin
  | cons b rest =>
    refine ⟨?_, ?_, List.suffix_rfl, rfl, rfl, ?_, ?_⟩
    · simp [Except.toOption, hin]
    · simp only [Except.toOption, List.isEmpty_cons, Bool.false_eq_true, if_false, Option.getD_some]
      exact Nat.le_trans (List.length_take_le ..) hcount
    · intro e he
      cases he
    · intro hnone hroom
      have := hpos hroom
      simp [Except.toOption] at hnone
      omega

/-- What a line yields behind a cue that it has used up. -/
theorem Yields.of_cue {line line' : Line} {room : Nat} {answer : Except TransportFailure Bytes}
    {cue : TransferCue} {rest : List TransferCue} (hreads : line.reads = cue :: rest)
    (h : { line with reads := rest }.Yields room answer line') : line.Yields room answer line' where
  incoming := h.incoming
  length_le := h.length_le
  reads := hreads ▸ h.reads.trans (List.suffix_cons cue rest)
  closed := h.closed
  written := h.written
  failure e he := (h.failure e he).imp_right
    (Or.imp_left fun hmem => hreads ▸ List.mem_cons_of_mem cue hmem)
  dry hnone hroom := (h.dry hnone hroom).imp_left fun hless => by
    rw [hreads]
    exact Nat.lt_succ_of_lt hless

/-- What is read from a line is what it yields. -/
theorem read_yields {line line' : Line} {room : Nat} {answer : Except TransportFailure Bytes}
    (h : line.read room = (answer, line')) : line.Yields room answer line' := by
  unfold read at h
  split at h
  · have hyields := line.receive_yields (Nat.le_refl room) id
    rwa [h] at hyields
  · rename_i e rest hreads
    obtain ⟨rfl, rfl⟩ := Prod.mk.inj h
    refine ⟨rfl, Nat.zero_le _, ⟨[.failing e], hreads.symm⟩, rfl, rfl, ?_, ?_⟩
    · intro e' he
      obtain rfl : e = e' := Except.error.inj he
      exact Or.inr (Or.inl (by simp [hreads]))
    · exact fun _ _ => Or.inl (by simp [hreads])
  · rename_i rest hreads
    obtain ⟨rfl, rfl⟩ := Prod.mk.inj h
    refine ⟨rfl, Nat.zero_le _, ⟨[.atMost 0], hreads.symm⟩, rfl, rfl, by simp, ?_⟩
    exact fun _ _ => Or.inl (by simp [hreads])
  · rename_i count rest hne hreads
    have hpos : 0 < room → 0 < min count room := by
      have : count ≠ 0 := fun h => hne h
      omega
    have hyields := receive_yields { line with reads := rest } (Nat.min_le_right count room) hpos
    rw [h] at hyields
    exact hyields.of_cue hreads

end Line

/-! ## What a buffer holds -/

namespace Inbound

/-- The buffer waits for a header, or for the rest of a frame whose header it holds. -/
def Expects (buffer : Inbound) : Prop :=
  buffer.held.length + buffer.awaited ≤ 2 ∨
    ∃ len rest, buffer.held = startByte :: len :: rest ∧ len.toNat ≤ maxPayloadLength ∧
      buffer.held.length + buffer.awaited = len.toNat + frameOverhead

/-- The bytes `taken` have been read, and the stretches `done` found in them. -/
structure Follows (buffer : Inbound) (taken : Bytes) (done : List Bytes) : Prop where
  spans_append : ∀ more, spans (taken ++ more) = done ++ spans (buffer.held ++ more)
  expects : buffer.Expects
  /-- If a stretch is held, its last byte is the last that was taken. -/
  spans_dropLast : IsSpan buffer.held → spans taken.dropLast = done

/-- Between two calls, the buffer holds nothing or waits for bytes. -/
def Rests (buffer : Inbound) : Prop := buffer.held = [] ∨ 0 < buffer.awaited

variable {buffer : Inbound} {taken : Bytes} {done : List Bytes}

/-- A buffer begins with nothing taken. -/
theorem follows_start : ({} : Inbound).Follows [] [] :=
  ⟨fun _ => rfl, Or.inl (by decide), fun h => absurd h.two_lt_length (by decide)⟩

/-- A buffer that waits for bytes holds no stretch. -/
theorem Expects.spans_held (h : buffer.Expects) (hrests : buffer.Rests) :
    spans buffer.held = [] := by
  rcases hrests with hnil | hpos
  · rw [hnil, spans]
  · rcases h with hshort | ⟨len, rest, hheld, hlen, hlength⟩
    · exact spans_of_length_lt_two (by omega)
    · rw [hheld] at hlength ⊢
      refine spans_of_length_lt ?_ hlen
      simp only [List.length_cons] at hlength
      omega

/-- Between two calls the stretches found are those of the bytes taken. -/
theorem Follows.spans_eq (h : buffer.Follows taken done) (hrests : buffer.Rests) :
    spans taken = done := by
  have htaken := h.spans_append []
  rwa [List.append_nil, List.append_nil, h.expects.spans_held hrests, List.append_nil] at htaken

/-! ## Preparing -/

/-- A buffer that asks for nothing holds a whole stretch, or too little for a header. -/
theorem Expects.of_awaited_eq_zero (h : buffer.Expects) (hzero : buffer.awaited = 0) :
    buffer.held.length ≤ 2 ∨ IsSpan buffer.held := by
  rcases h with hshort | ⟨len, rest, hheld, hlen, hlength⟩
  · exact Or.inl (by omega)
  · exact Or.inr ⟨len, rest, hheld, hlen, by omega⟩

/-- Nothing is dropped from a stretch. -/
theorem IsSpan.resync_eq {span : Bytes} (h : IsSpan span) : resync span = span := by
  obtain ⟨len, rest, rfl, hlen, -⟩ := h
  exact resync_of_le hlen rest

/-- After resynchronising, what is missing of the header or of the frame is asked for. -/
theorem expects_resync {held : Bytes} (h : held.length ≤ 2 ∨ IsSpan held) :
    Expects ⟨resync held, missing (resync held)⟩ := by
  rcases resync_cases held with hnil | hone | ⟨len, rest, hheader, hlen⟩
  · rw [hnil]
    exact Or.inl (by decide)
  · rw [hone]
    exact Or.inl (by decide)
  · refine Or.inr ⟨len, rest, hheader, hlen, ?_⟩
    have hfits : rest.length + 2 ≤ len.toNat + frameOverhead := by
      rcases h with hshort | hspan
      · have hle := (resync_suffix held).length_le
        rw [hheader] at hle
        simp only [List.length_cons] at hle
        unfold frameOverhead
        omega
      · rw [IsSpan.resync_eq hspan] at hheader
        obtain ⟨len', rest', hheld, -, hlength⟩ := hspan
        obtain ⟨-, rfl, rfl⟩ : startByte = startByte ∧ len' = len ∧ rest' = rest := by
          simpa [hheld] using hheader
        simp only [hheader, List.length_cons] at hlength
        omega
    simp only [hheader, missing, List.length_cons]
    omega

theorem prepare_of_ne {buffer : Inbound} (h : buffer.awaited ≠ 0) : buffer.prepare = buffer :=
  if_neg h

theorem prepare_of_eq {buffer : Inbound} (h : buffer.awaited = 0) :
    buffer.prepare = ⟨resync buffer.held, missing (resync buffer.held)⟩ := if_pos h

/-- To prepare the buffer takes nothing. -/
theorem Follows.prepare (h : buffer.Follows taken done) : buffer.prepare.Follows taken done := by
  by_cases hzero : buffer.awaited = 0
  · rw [prepare_of_eq hzero]
    have hheld := h.expects.of_awaited_eq_zero hzero
    refine ⟨fun more => ?_, expects_resync hheld, fun hspan => ?_⟩
    · rw [h.spans_append, spans_resync_append]
    · rcases hheld with hshort | hheld
      · have hle := (resync_suffix buffer.held).length_le
        exact absurd (Nat.lt_of_lt_of_le hspan.two_lt_length hle) (Nat.not_lt.2 hshort)
      · exact h.spans_dropLast hheld
  · rwa [prepare_of_ne hzero]

/-- A prepared buffer that asks for nothing holds a whole stretch. -/
theorem Follows.isSpan (h : buffer.Follows taken done) (hzero : buffer.prepare.awaited = 0) :
    IsSpan buffer.prepare.held := by
  rcases h.prepare.expects.of_awaited_eq_zero hzero with hshort | hspan
  · by_cases hb : buffer.awaited = 0
    · rw [prepare_of_eq hb] at hzero hshort
      rcases resync_cases buffer.held with hnil | hone | ⟨len, rest, hheader, -⟩
      · simp [hnil, missing] at hzero
      · simp [hone, missing] at hzero
      · simp only [hheader, missing, List.length_cons, frameOverhead] at hzero hshort
        omega
    · rw [prepare_of_ne hb] at hzero
      exact absurd hzero hb
  · exact hspan

/-! ## Reading -/

/-- The bytes that the line yields go behind those held. -/
theorem Follows.append (h : buffer.Follows taken done) {bytes : Bytes} (hne : bytes ≠ [])
    (hle : bytes.length ≤ buffer.awaited) :
    Follows ⟨buffer.held ++ bytes, buffer.awaited - bytes.length⟩ (taken ++ bytes) done := by
  refine ⟨fun more => ?_, ?_, fun hspan => ?_⟩
  · simp only [List.append_assoc]
    exact h.spans_append (bytes ++ more)
  · rcases h.expects with hshort | ⟨len, rest, hheld, hlen, hlength⟩
    · refine Or.inl ?_
      simp only [List.length_append]
      omega
    · refine Or.inr ⟨len, rest ++ bytes, by simp [hheld], hlen, ?_⟩
      simp only [List.length_append]
      omega
  · rw [List.dropLast_append_of_ne_nil hne, h.spans_append,
      ← List.dropLast_append_of_ne_nil hne, spans_dropLast_of_isSpan hspan, List.append_nil]

/-- The buffer is done with a stretch that it held. -/
theorem Follows.finish (h : buffer.Follows taken done) (hspan : IsSpan buffer.held) :
    ({} : Inbound).Follows taken (done ++ [buffer.held]) where
  spans_append more := by
    rw [h.spans_append, spans_append_of_isSpan hspan, List.append_assoc]
    rfl
  expects := Or.inl (by decide)
  spans_dropLast hnil := absurd hnil.two_lt_length (by decide)

/-- How a call answers : with a stretch that is now complete, or because the line gave
nothing. -/
inductive Answers (line line' : Line) (taken : Bytes) (done : List Bytes) :
    List Bytes → Except TransportFailure (Option Frame) → Prop
  | item {span : Bytes} : IsSpan span → spans taken.dropLast = done →
      Answers line line' taken done [span] ((Frame.decode span).map some)
  | nothing : (line'.reads.length < line.reads.length ∨ line'.incoming = []) →
      Answers line line' taken done [] (.ok none)
  | failure {e : TransportFailure} : line.Reports e →
      (line'.reads.length < line.reads.length ∨ line'.incoming = []) →
      Answers line line' taken done [] (.error e)

/-- What a line could give is what it could give earlier. -/
theorem Answers.imp {line₁ line₂ line' : Line} {new : List Bytes}
    {answer : Except TransportFailure (Option Frame)}
    (h : Answers line₂ line' taken done new answer)
    (hreports : ∀ e, line₂.Reports e → line₁.Reports e)
    (hreads : line₂.reads.length ≤ line₁.reads.length) :
    Answers line₁ line' taken done new answer := by
  cases h with
  | item hspan hlast => exact .item hspan hlast
  | nothing hdry => exact .nothing (hdry.imp_left (Nat.lt_of_lt_of_le · hreads))
  | failure he hdry =>
    exact .failure (hreports _ he) (hdry.imp_left (Nat.lt_of_lt_of_le · hreads))

/-- A call gets on : with a stretch, with the script, or to the end of what arrived. -/
theorem Answers.progress {line line' : Line} {new : List Bytes}
    {answer : Except TransportFailure (Option Frame)}
    (h : Answers line line' taken done new answer) :
    new.length = 1 ∨ line'.reads.length < line.reads.length ∨ line'.incoming = [] := by
  cases h with
  | item => exact Or.inl rfl
  | nothing hdry => exact Or.inr hdry
  | failure _ hdry => exact Or.inr hdry

/-- What a call makes of a buffer that follows `taken` : it takes the bytes `took` off the
line and finds the stretches `new`, at most one. -/
structure Advances (taken : Bytes) (done : List Bytes) (line : Line)
    (result : Except TransportFailure (Option Frame) × Inbound × Line) (took : Bytes)
    (new : List Bytes) : Prop where
  incoming : line.incoming = took ++ result.2.2.incoming
  reads : result.2.2.reads <:+ line.reads
  closed : result.2.2.closed = line.closed
  follows : result.2.1.Follows (taken ++ took) (done ++ new)
  rests : result.2.1.Rests
  answers : Answers line result.2.2 (taken ++ took) done new result.1

/-- A call that finds nothing to read leaves the buffer as it is. -/
theorem Follows.advances_of_dry (h : buffer.Follows taken done) (hpos : 0 < buffer.awaited)
    {line line' : Line} {yielded : Except TransportFailure Bytes}
    (hyields : line.Yields buffer.awaited yielded line')
    (hnone : yielded.toOption.getD [] = [])
    {answer : Except TransportFailure (Option Frame)}
    (hanswer : answer = .ok none ∨ ∃ e, answer = .error e ∧ line.Reports e) :
    Advances taken done line (answer, buffer, line') [] [] where
  incoming := hnone ▸ hyields.incoming
  reads := hyields.reads
  closed := hyields.closed
  follows := by rwa [List.append_nil, List.append_nil]
  rests := Or.inr hpos
  answers := by
    have hdry := hyields.dry hnone hpos
    rcases hanswer with rfl | ⟨e, rfl, he⟩
    · exact .nothing hdry
    · exact .failure he hdry

/-- A call that goes on after it has read some bytes. -/
theorem Advances.after {line line' : Line} {bytes took : Bytes} {new : List Bytes} {room : Nat}
    {result : Except TransportFailure (Option Frame) × Inbound × Line}
    (hyields : line.Yields room (.ok bytes) line')
    (h : Advances (taken ++ bytes) done line' result took new) :
    Advances taken done line result (bytes ++ took) new where
  incoming := by
    rw [List.append_assoc, ← h.incoming]
    exact hyields.incoming
  reads := h.reads.trans hyields.reads
  closed := h.closed.trans hyields.closed
  follows := by
    rw [← List.append_assoc]
    exact h.follows
  rests := h.rests
  answers := by
    rw [← List.append_assoc]
    refine h.answers.imp (fun e he => ?_) hyields.reads.length_le
    refine he.imp (fun hmem => hyields.reads.mem hmem) fun hclosed => ?_
    rwa [← hyields.closed]

/-- A call keeps track of the stretches. The induction is on what the line still has. -/
theorem readFrame_advances (buffer : Inbound) (line : Line) (taken : Bytes) (done : List Bytes)
    (h : buffer.Follows taken done) :
    ∃ took new, Advances taken done line (buffer.readFrame line) took new := by
  fun_induction Inbound.readFrame buffer line generalizing taken with
  | case1 buffer line prepared hzero =>
    have hspan := h.isSpan hzero
    refine ⟨[], [prepared.held], rfl, List.suffix_rfl, rfl, ?_, Or.inl rfl, ?_⟩
    · rw [List.append_nil]
      exact h.prepare.finish hspan
    · rw [List.append_nil]
      exact .item hspan (h.prepare.spans_dropLast hspan)
  | case2 buffer line prepared hne line' hread | case4 buffer line prepared hne line' hread =>
    have hyields := Line.read_yields hread
    exact ⟨[], [], h.prepare.advances_of_dry (Nat.pos_of_ne_zero hne) hyields rfl (Or.inl rfl)⟩
  | case3 buffer line prepared hne b bytes line' hread ih =>
    have hyields := Line.read_yields hread
    have hfollows := h.prepare.append (List.cons_ne_nil b bytes) hyields.length_le
    obtain ⟨took, new, hadvances⟩ := ih (taken ++ b :: bytes) hfollows
    exact ⟨b :: bytes ++ took, new, hadvances.after hyields⟩
  | case5 buffer line prepared hne e line' hblock hread =>
    have hyields := Line.read_yields hread
    have hreports := (hyields.failure e rfl).resolve_left hblock
    exact ⟨[], [], h.prepare.advances_of_dry (Nat.pos_of_ne_zero hne) hyields rfl
      (Or.inr ⟨e, rfl, hreports⟩)⟩

/-- To read writes nothing. -/
theorem written_readFrame (buffer : Inbound) (line : Line) :
    (buffer.readFrame line).2.2.written = line.written := by
  fun_induction Inbound.readFrame buffer line with
  | case1 => rfl
  | case3 _ _ _ _ _ _ _ hread ih => exact ih.trans (Line.read_yields hread).written
  | case2 _ _ _ _ _ hread | case4 _ _ _ _ _ hread | case5 _ _ _ _ _ _ _ hread =>
    exact (Line.read_yields hread).written

end Inbound

end ZigbeeHost
