import Mathlib.Control.Monad.Basic
import Mathlib.Data.List.Forall2
import Mathlib.Data.List.ReduceOption
import ZigbeeHost.Bench.Stream
import ZigbeeHost.Proofs.Serial.Reading
/-!
# Any fragmentation

Runs at the two buffers of a line. Bytes arrive in portions of any size, between the calls
that read frames, and a script makes each read of the line fall short or fail.

Each answer shows a stretch of the bytes taken off the line, or none (`StreamStep.Shows`), and
what all answers show are the stretches of these bytes, in order
(`StreamStep.readings_eq_spans`). Who reads often enough reads all there is
(`StreamStep.incoming_run_reads`), so the frames of a stream come out of it one after the
other, whatever garbage is between them (`StreamStep.frames_survive`).
-/

namespace ZigbeeHost

/-! ## The line's side of reading -/

/-- What there is to read, and how, is the same on both lines. -/
structure Line.SameInput (line line' : Line) : Prop where
  incoming : line'.incoming = line.incoming
  reads : line'.reads = line.reads
  closed : line'.closed = line.closed

theorem Line.SameInput.trans {line₁ line₂ line₃ : Line} (h : line₁.SameInput line₂)
    (h' : line₂.SameInput line₃) : line₁.SameInput line₃ :=
  ⟨h'.incoming.trans h.incoming, h'.reads.trans h.reads, h'.closed.trans h.closed⟩

/-- To write takes nothing from the input. -/
theorem Line.write_sameInput (line : Line) (bytes : Bytes) :
    line.SameInput (line.write bytes).2 := by
  unfold Line.write
  split <;> exact ⟨rfl, rfl, rfl⟩

theorem Line.flush_sameInput (line : Line) : line.SameInput line.flush.2 := by
  unfold Line.flush
  split <;> exact ⟨rfl, rfl, rfl⟩

theorem Outbound.write_sameInput (buffer : Outbound) (line : Line) :
    line.SameInput (buffer.write line).2.2 := by
  have hwrite := line.write_sameInput buffer.unsent
  unfold Outbound.write
  split
  · exact ⟨rfl, rfl, rfl⟩
  · split
    · rename_i count line' hline
      rw [hline] at hwrite
      split
      · exact hwrite.trans line'.flush_sameInput
      · exact hwrite
    · rename_i line' hline
      rwa [hline] at hwrite
    · rename_i e line' _ hline
      rwa [hline] at hwrite

namespace Bench

/-! ## Runs -/

/-- What the answer says of the bytes that were read : a frame, or a fault in one. A failure
of the line itself says nothing. -/
def StreamAnswer.item? : StreamAnswer → Option (Except TransportFailure Frame)
  | read (.ok (some f)) => some (.ok f)
  | read (.error (.invalidFrame fault)) =>
    if fault = .scripted then none else some (.error (.invalidFrame fault))
  | _ => none

namespace StreamStep

/-- Takes steps, one after the other. -/
def run : (steps : List StreamStep) → Link → List StreamAnswer × Link
  | [], p => ([], p)
  | step :: steps, p =>
    let (answer, p) := step.perform p
    let (answers, p) := run steps p
    (answer :: answers, p)

theorem run_cons (step : StreamStep) (steps : List StreamStep) (p : Link) :
    run (step :: steps) p =
      ((step.perform p).1 :: (run steps (step.perform p).2).1, (run steps (step.perform p).2).2) :=
  rfl

/-- A run goes on from where another one ends. -/
theorem run_append (steps more : List StreamStep) (p : Link) :
    run (steps ++ more) p =
      ((run steps p).1 ++ (run more (run steps p).2).1, (run more (run steps p).2).2) := by
  induction steps generalizing p with
  | nil => rfl
  | cons step steps ih => simp only [List.cons_append, run, ih]

/-- The bytes that arrive with a step. -/
def fed : StreamStep → Bytes
  | serial (.feed bytes) => bytes
  | _ => []

/-- The cues that a step adds to the script for reads. -/
def cues : StreamStep → List TransferCue
  | serial (.scriptReads cues) => cues
  | _ => []

/-- Somewhere in the steps the line is told to fail so. -/
def Injected (steps : List StreamStep) (e : TransportFailure) : Prop :=
  .failing e ∈ steps.flatMap cues ∨ .serial .close ∈ steps ∧ e = .unexpectedEof

/-- What a run injects, one of its parts does. -/
theorem Injected.append {steps more : List StreamStep} {e : TransportFailure} :
    Injected (steps ++ more) e ↔ Injected steps e ∨ Injected more e := by
  unfold Injected
  rw [List.flatMap_append, List.mem_append, List.mem_append, or_and_right, or_or_or_comm]

/-- The line reports no fault of a frame by itself. Its report could not be told from a fault
that was read. -/
def Genuine (steps : List StreamStep) : Prop :=
  ∀ fault, Injected steps (.invalidFrame fault) → fault = .scripted

/-! ## One step -/

/-- A step that does not read leaves the buffer for reading alone. -/
theorem perform_of_ne_read {step : StreamStep} (hstep : step ≠ read) (p : Link) :
    (step.perform p).2.inbound = p.inbound ∧
      (step.perform p).2.line.incoming = p.line.incoming ++ step.fed ∧
      (step.perform p).2.line.reads = p.line.reads ++ step.cues ∧
      ((step.perform p).2.line.closed = true → p.line.closed = true ∨ step = serial .close) ∧
      ∀ reading, (step.perform p).1 ≠ .read reading := by
  cases step with
  | serial s =>
    cases s <;> simp [perform, Scenario.LineStep.apply, Line.feed, Line.close,
      Line.takeWritten, fed, cues]
  | read => exact absurd rfl hstep
  | push f =>
    simp only [perform]
    split <;> simp [fed, cues]
  | write =>
    obtain ⟨hincoming, hreads, hclosed⟩ := p.outbound.write_sameInput p.line
    simp [perform, fed, cues, hincoming, hreads, hclosed]

/-- What an answer shows of the bytes that were read : a stretch, as it decodes, or none. None is
shown without a call that reads, by a call that has no frame, and by one that fails as the line
was told to. -/
inductive Shows (steps : List StreamStep) : StreamAnswer → Option Bytes → Prop
  | span {span : Bytes} : IsSpan span →
      Shows steps (.read ((Frame.decode span).map some)) (some span)
  | nothing : Shows steps (.read (.ok none)) none
  | failure {e : TransportFailure} : Injected steps e → Shows steps (.read (.error e)) none
  | other {answer : StreamAnswer} : (∀ reading, answer ≠ .read reading) → Shows steps answer none

variable {steps : List StreamStep} {answer : StreamAnswer} {found : Option Bytes}

/-- What shows in a part of a run shows in the whole. -/
theorem Shows.append (h : Shows steps answer found) (more : List StreamStep) :
    Shows (steps ++ more) answer found := by
  cases h with
  | span hspan => exact .span hspan
  | nothing => exact .nothing
  | failure he => exact .failure (Injected.append.2 (Or.inl he))
  | other hanswer => exact .other hanswer

/-- An error is the line's own, or the fault of a stretch. -/
theorem Shows.error {e : TransportFailure} (h : Shows steps (.read (.error e)) found) :
    Injected steps e ∨ ∃ span, found = some span ∧ IsSpan span ∧ Frame.decode span = .error e := by
  generalize hanswer : StreamAnswer.read (.error e) = answer at h
  cases h with
  | span hspan =>
    rename_i span
    refine Or.inr ⟨span, rfl, hspan, ?_⟩
    have hdecode := StreamAnswer.read.inj hanswer
    cases hd : Frame.decode span with
    | ok f =>
      rw [hd] at hdecode
      cases hdecode
    | error e' =>
      rw [hd] at hdecode
      exact congrArg Except.error (Except.error.inj hdecode).symm
  | nothing => cases hanswer
  | failure he =>
    cases hanswer
    exact Or.inl he
  | other hne => exact absurd hanswer.symm (hne _)

/-- If the line reports no fault of a frame, an answer says what it shows. -/
theorem Shows.item?_eq (h : Shows steps answer found) (hgenuine : Genuine steps) :
    answer.item? = found.map Frame.decode := by
  cases h with
  | span hspan =>
    rename_i span
    cases hd : Frame.decode span with
    | ok f => simp [Except.map, StreamAnswer.item?, hd]
    | error e =>
      rcases hspan.decode_error hd with rfl | rfl <;>
        simp [Except.map, StreamAnswer.item?, hd]
  | nothing => rfl
  | failure he =>
    rename_i e
    cases e with
    | invalidFrame fault =>
      rw [hgenuine fault he]
      rfl
    | other | wouldBlock | bufferNotEmpty | unexpectedEof => rfl
  | other hanswer =>
    cases answer with
    | read reading => exact absurd rfl (hanswer reading)
    | serial | pushed | wrote => rfl

/-- Where errors are genuine, what is read are the decoded stretches. -/
theorem filterMap_item? {answers : List StreamAnswer} {shown : List (Option Bytes)}
    (h : List.Forall₂ (Shows steps) answers shown) (hgenuine : Genuine steps) :
    answers.filterMap StreamAnswer.item? = shown.reduceOption.map Frame.decode := by
  induction h with
  | nil => rfl
  | cons hfirst _ ih =>
    rw [List.filterMap_cons, hfirst.item?_eq hgenuine]
    rename_i found _ shown _
    cases found with
    | none => rw [List.reduceOption_cons_of_none, ← ih]; rfl
    | some span => rw [List.reduceOption_cons_of_some, List.map_cons, ← ih]; rfl

/-- An error was injected, or a stretch does not decode. -/
theorem error_of_shows {answers : List StreamAnswer} {shown : List (Option Bytes)}
    (h : List.Forall₂ (Shows steps) answers shown) {e : TransportFailure}
    (he : .read (.error e) ∈ answers) :
    Injected steps e ∨ ∃ span ∈ shown.reduceOption, IsSpan span ∧ Frame.decode span = .error e := by
  induction h with
  | nil => cases he
  | cons hfirst _ ih =>
    rename_i found _ shown _
    rcases List.mem_cons.1 he with rfl | he
    · refine hfirst.error.imp_right ?_
      rintro ⟨span, rfl, hspan⟩
      exact ⟨span, List.reduceOption_mem_iff.2 (List.mem_cons_self ..), hspan⟩
    · refine (ih he).imp_right fun ⟨span, hmem, hspan⟩ => ⟨span, ?_, hspan⟩
      rw [List.reduceOption_mem_iff] at hmem ⊢
      exact List.mem_cons_of_mem _ hmem

/-- A call shows the stretch that it found, if it found one. -/
theorem shows_of_answers {line line' : Line} {taken : Bytes} {done new : List Bytes}
    {answer : Except TransportFailure (Option Frame)}
    (h : Inbound.Answers line line' taken done new answer)
    (hreports : ∀ e, line.Reports e → Injected steps e) :
    ∃ found : Option Bytes, Shows steps (.read answer) found ∧ new = found.toList ∧
      (found ≠ none → spans taken.dropLast = done) := by
  cases h with
  | item hspan hlast => exact ⟨some _, .span hspan, rfl, fun _ => hlast⟩
  | nothing => exact ⟨none, .nothing, rfl, fun h => absurd rfl h⟩
  | failure he => exact ⟨none, .failure (hreports _ he), rfl, fun h => absurd rfl h⟩

/-! ## What a run keeps -/

/-- Some steps led to `p` with the answers `answers`. The bytes `taken` of what arrived were
taken off the line, and each answer shows what `shown` says. -/
structure Leads (steps : List StreamStep) (answers : List StreamAnswer) (p : Link)
    (taken : Bytes) (shown : List (Option Bytes)) : Prop where
  fed : steps.flatMap fed = taken ++ p.line.incoming
  follows : p.inbound.Follows taken shown.reduceOption
  rests : p.inbound.Rests
  reads : p.line.reads <:+ steps.flatMap cues
  closed : p.line.closed = true → .serial .close ∈ steps
  shows : List.Forall₂ (Shows steps) answers shown
  last : ∀ span, shown.getLast? = some (some span) →
    spans taken = spans taken.dropLast ++ [span]

variable {answers : List StreamAnswer} {p : Link} {taken : Bytes} {shown : List (Option Bytes)}

/-- To begin with, nothing is taken. -/
theorem Leads.start : Leads [] [] {} [] [] where
  fed := rfl
  follows := Inbound.follows_start
  rests := Or.inl rfl
  reads := List.suffix_rfl
  closed h := by cases h
  shows := .nil
  last _ h := by cases h

/-- What the line reports was injected. -/
theorem Leads.reports (h : Leads steps answers p taken shown) {e : TransportFailure}
    (he : p.line.Reports e) : Injected steps e :=
  he.imp (fun hmem => h.reads.mem hmem) fun hclosed => ⟨h.closed hclosed.1, hclosed.2⟩

/-- The stretches shown are those of the bytes taken. -/
theorem Leads.spans_eq (h : Leads steps answers p taken shown) :
    spans taken = shown.reduceOption :=
  h.follows.spans_eq h.rests

/-- The answers so far, and one more. -/
theorem Leads.shows_concat (h : Leads steps answers p taken shown) {step : StreamStep}
    (hanswer : Shows (steps ++ [step]) answer found) :
    List.Forall₂ (Shows (steps ++ [step])) (answers ++ [answer]) (shown ++ [found]) :=
  List.rel_append (h.shows.imp fun _ _ hshows => hshows.append _) (.cons hanswer .nil)

/-- A step that does not read shows no stretch. -/
theorem Leads.step (h : Leads steps answers p taken shown) {step : StreamStep}
    (hstep : step ≠ read) :
    Leads (steps ++ [step]) (answers ++ [(step.perform p).1]) (step.perform p).2 taken
      (shown ++ [none]) := by
  obtain ⟨hinbound, hincoming, hreads, hclosed, hanswer⟩ := perform_of_ne_read hstep p
  have hshown : (shown ++ [none]).reduceOption = shown.reduceOption := by
    rw [List.reduceOption_append, List.reduceOption_singleton, Option.toList_none, List.append_nil]
  refine ⟨?_, ?_, hinbound ▸ h.rests, ?_, ?_, h.shows_concat (.other hanswer), ?_⟩
  · rw [List.flatMap_append, h.fed, hincoming]
    simp
  · rw [hshown, hinbound]
    exact h.follows
  · obtain ⟨used, hused⟩ := h.reads
    refine ⟨used, ?_⟩
    rw [hreads, List.flatMap_append, List.flatMap_singleton, ← List.append_assoc, hused]
  · intro hc
    rcases hclosed hc with hc | rfl
    · exact List.mem_append_left _ (h.closed hc)
    · exact List.mem_append_right _ (List.mem_singleton_self _)
  · simp

/-- A call that reads takes some bytes, and finds at most one stretch. -/
theorem Leads.read (h : Leads steps answers p taken shown) :
    ∃ took found, Leads (steps ++ [read]) (answers ++ [(read.perform p).1]) (read.perform p).2
      (taken ++ took) (shown ++ [found]) := by
  obtain ⟨took, new, hadv⟩ := p.inbound.readFrame_advances p.line taken _ h.follows
  have hreports (e : TransportFailure) (he : p.line.Reports e) :
      Injected (steps ++ [StreamStep.read]) e := Injected.append.2 (Or.inl (h.reports he))
  obtain ⟨found, hshows, rfl, hlast⟩ := shows_of_answers hadv.answers hreports
  have hshown : (shown ++ [found]).reduceOption = shown.reduceOption ++ found.toList := by
    rw [List.reduceOption_append, List.reduceOption_singleton]
  refine ⟨took, found, ?_, ?_, hadv.rests, ?_, ?_, h.shows_concat hshows, ?_⟩
  · rw [List.flatMap_append, h.fed, hadv.incoming]
    simp [StreamStep.fed, perform]
  · rw [hshown]
    exact hadv.follows
  · rw [List.flatMap_append]
    show _ <:+ steps.flatMap cues ++ []
    rw [List.append_nil]
    exact hadv.reads.trans h.reads
  · intro hc
    exact List.mem_append_left _ (h.closed (hadv.closed ▸ hc))
  · intro span hspan
    rw [List.getLast?_concat] at hspan
    obtain rfl : found = some span := Option.some.inj hspan
    rw [hlast (Option.some_ne_none span)]
    exact hadv.follows.spans_eq hadv.rests

/-! ## Runs -/

/-- A run keeps track of the bytes and the stretches. -/
theorem Leads.run (h : Leads steps answers p taken shown) (more : List StreamStep) :
    ∃ took showing, Leads (steps ++ more) (answers ++ (run more p).1) (run more p).2
      (taken ++ took) (shown ++ showing) := by
  induction more generalizing steps answers p taken shown with
  | nil => exact ⟨[], [], by simpa [StreamStep.run] using h⟩
  | cons step more ih =>
    rw [List.append_cons, run_cons, List.append_cons answers]
    by_cases hstep : step = .read
    · subst hstep
      obtain ⟨took, found, hread⟩ := h.read
      obtain ⟨took', showing, hrun⟩ := ih hread
      rw [List.append_assoc taken, List.append_assoc shown] at hrun
      exact ⟨took ++ took', [found] ++ showing, hrun⟩
    · obtain ⟨took, showing, hrun⟩ := ih (h.step hstep)
      rw [List.append_assoc shown] at hrun
      exact ⟨took, [none] ++ showing, hrun⟩

/-- Every run leads from the bytes taken to what it shows. -/
theorem exists_leads (steps : List StreamStep) :
    ∃ taken shown, Leads steps (run steps {}).1 (run steps {}).2 taken shown := by
  obtain ⟨took, showing, h⟩ := Leads.start.run steps
  exact ⟨took, showing, h⟩

/-- In every run at a buffer, with bytes arriving and the line failing as they will, the
stretches of the bytes taken off the line are shown one after the other, each as it decodes. When
one is shown, its last byte is the last that was taken. An error comes from the line, or else it
is not that a frame is too small or of the wrong length. If the line reports no faults of
frames, the frames and faults among the answers are those of the stretches. -/
theorem readings_eq_spans (steps : List StreamStep) :
    ∃ taken shown, steps.flatMap fed = taken ++ (run steps {}).2.line.incoming ∧
      List.Forall₂ (Shows steps) (run steps {}).1 shown ∧ shown.reduceOption = spans taken ∧
      (∀ span, shown.getLast? = some (some span) →
        spans taken = spans taken.dropLast ++ [span]) ∧
      (∀ e, .read (.error e) ∈ (run steps {}).1 →
        Injected steps e ∨ e ≠ .invalidFrame .tooSmall ∧ e ≠ .invalidFrame .badLength) ∧
      (Genuine steps →
        (run steps {}).1.filterMap StreamAnswer.item? = (spans taken).map Frame.decode) := by
  obtain ⟨taken, shown, h⟩ := exists_leads steps
  refine ⟨taken, shown, h.fed, h.shows, h.spans_eq.symm, h.last, fun e he => ?_, fun hgenuine => ?_⟩
  · refine (error_of_shows h.shows he).imp_right ?_
    rintro ⟨span, -, hspan, hdecode⟩
    rcases hspan.decode_error hdecode with rfl | rfl <;> constructor <;> exact nofun
  · rw [h.spans_eq]
    exact filterMap_item? h.shows hgenuine

/-- An answer to a ping behind garbage, over a line that gives one byte, then fails, then gives
nothing. -/
def choppy : List StreamStep :=
  [.serial (.scriptReads [.atMost 1, .failing (.other "jammed"), .atMost 0]),
    .serial (.feed [0x13, 0xFE, 0xFE, 0x02, 0x61]), read, read, read, read,
    .serial (.feed [0x01, 0x79, 0x00, 0x1B, 0xFE]), read, read]

/-- The answer is read once, whatever the line does meanwhile. -/
theorem choppy_readings :
    Genuine choppy ∧
      (run choppy {}).1.filterMap StreamAnswer.item? =
        [.ok ⟨.srsp, ⟨.sys, 0x01⟩, [0x79, 0x00]⟩] ∧
      ∃ taken, choppy.flatMap fed = taken ++ (run choppy {}).2.line.incoming ∧
        (run choppy {}).1.filterMap StreamAnswer.item? = (spans taken).map Frame.decode := by
  have hgenuine : Genuine choppy := by
    intro fault hfault
    simp [Injected, choppy, cues] at hfault
  obtain ⟨taken, shown, hfed, -, -, -, -, hitems⟩ := readings_eq_spans choppy
  exact ⟨hgenuine, by decide +kernel, taken, hfed, hitems hgenuine⟩

/-! ## Reading all there is -/

/-- With nothing left on the line, calls that read find nothing on it either. -/
theorem incoming_run_reads_of_nil (n : Nat) {p : Link} {taken : Bytes} {done : List Bytes}
    (h : p.inbound.Follows taken done) (hnil : p.line.incoming = []) :
    (run (.replicate n read) p).2.line.incoming = [] := by
  induction n generalizing p taken done with
  | zero => exact hnil
  | succ n ih =>
    obtain ⟨took, new, hadv⟩ := p.inbound.readFrame_advances p.line taken done h
    have hleft := hadv.incoming
    rw [hnil] at hleft
    exact ih hadv.follows (List.append_eq_nil_iff.1 hleft.symm).2

/-- Each call finds a stretch, uses up a cue or leaves nothing on the line, so some more calls
than there are cues and stretches leave nothing. -/
theorem incoming_run_reads (n : Nat) {p : Link} {taken : Bytes} {done : List Bytes}
    (h : p.inbound.Follows taken done)
    (hn : p.line.reads.length + (spans (taken ++ p.line.incoming)).length < n + done.length) :
    (run (.replicate n read) p).2.line.incoming = [] := by
  induction n generalizing p taken done with
  | zero =>
    rw [h.spans_append, List.length_append] at hn
    omega
  | succ n ih =>
    obtain ⟨took, new, hadv⟩ := p.inbound.readFrame_advances p.line taken done h
    have hmore : (taken ++ took) ++ (p.inbound.readFrame p.line).2.2.incoming =
        taken ++ p.line.incoming := by rw [List.append_assoc, ← hadv.incoming]
    have hless := hadv.reads.length_le
    have hcount : new.length = 1 ∨
        (p.inbound.readFrame p.line).2.2.reads.length < p.line.reads.length →
        (p.inbound.readFrame p.line).2.2.reads.length +
          (spans ((taken ++ took) ++ (p.inbound.readFrame p.line).2.2.incoming)).length <
            n + (done ++ new).length := by
      intro hgets
      rw [hmore, List.length_append]
      omega
    rcases hadv.answers.progress with hfound | hused | hnil
    · exact ih (p := (read.perform p).2) hadv.follows (hcount (Or.inl hfound))
    · exact ih (p := (read.perform p).2) hadv.follows (hcount (Or.inr hused))
    · exact incoming_run_reads_of_nil n (p := (read.perform p).2) hadv.follows hnil

/-- To read feeds nothing. -/
theorem flatMap_fed_reads (steps : List StreamStep) (n : Nat) :
    (steps ++ .replicate n read).flatMap fed = steps.flatMap fed := by
  simp [List.flatMap_append, List.flatMap_replicate, fed]

/-- To read injects nothing. -/
theorem injected_reads {steps : List StreamStep} {n : Nat} {e : TransportFailure} :
    Injected (steps ++ .replicate n read) e ↔ Injected steps e := by
  have hnone : ¬Injected (.replicate n read) e := by
    simp [Injected, List.flatMap_replicate, cues, List.mem_replicate]
  rw [Injected.append, or_iff_left hnone]

/-- Frames with garbage between them, in which no start byte can be mistaken for that of a
frame, arrive in any portions, over a line that fails as it will. Who goes on reading until
there can be nothing left gets these frames, in order and nothing else; whatever fails, fails
with the line. -/
theorem frames_survive {pieces : List (Bytes × Frame)} {last : Bytes}
    (hsep : WellSeparated pieces last) {steps : List StreamStep} (hgenuine : Genuine steps)
    (hfed : steps.flatMap fed = stream pieces last) {n : Nat}
    (hn : pieces.length + (steps.flatMap cues).length < n) :
    (∀ piece ∈ pieces, piece.2.encode = .ok piece.2.wire) ∧
      (run (steps ++ .replicate n read) {}).1.filterMap StreamAnswer.item? =
        pieces.map (fun piece => .ok piece.2) ∧
      ∀ e, .read (.error e) ∈ (run (steps ++ .replicate n read) {}).1 → Injected steps e := by
  have hgenuine' : Genuine (steps ++ .replicate n read) :=
    fun fault hf => hgenuine fault (injected_reads.1 hf)
  have hdecode : (spans (stream pieces last)).map Frame.decode =
      pieces.map fun piece => .ok piece.2 := by
    rw [spans_stream hsep, List.map_map]
    exact List.map_congr_left fun piece hp => Frame.decode_wire (hsep.payload_le piece hp)
  obtain ⟨taken, shown, h⟩ := exists_leads steps
  obtain ⟨took, showing, hall⟩ := h.run (.replicate n read)
  have hnil : (run (.replicate n read) (run steps {}).2).2.line.incoming = [] := by
    refine incoming_run_reads n h.follows ?_
    have hreads := h.reads.length_le
    rw [← h.fed, hfed, spans_stream hsep, List.length_map]
    omega
  have hshown : (shown ++ showing).reduceOption = spans (stream pieces last) := by
    have htaken := hall.fed
    rw [hnil, List.append_nil, flatMap_fed_reads, hfed] at htaken
    rw [htaken, hall.spans_eq]
  rw [run_append]
  refine ⟨fun piece hp => ?_, ?_, fun e he => ?_⟩
  · rw [Frame.encode_eq, if_pos (hsep.payload_le piece hp)]
  · rw [filterMap_item? hall.shows hgenuine', hshown, hdecode]
  · rcases error_of_shows hall.shows he with hi | ⟨span, hmem, -, hspan⟩
    · exact injected_reads.1 hi
    · have hfault := List.mem_map_of_mem (f := Frame.decode) (hshown ▸ hmem)
      rw [hspan, hdecode] at hfault
      obtain ⟨piece, -, hpiece⟩ := List.mem_map.1 hfault
      cases hpiece

/-- A ping behind a start byte too many, a start byte in a payload, and a false start at the
end. -/
def pings : List (Bytes × Frame) :=
  [([0x13, 0xFE], ⟨.sreq, ⟨.sys, 0x01⟩, []⟩), ([], ⟨.areq, ⟨.sys, 0x80⟩, [0xFE, 0x00]⟩)]

/-- The pings arrive in two portions, and the line jams. -/
def jammed : List StreamStep :=
  [.serial (.feed [0x13, 0xFE, 0xFE, 0x00, 0x21, 0x01]),
    .serial (.scriptReads [.atMost 1, .failing (.other "jammed"), .atMost 0]), read, read,
    .serial (.feed [0x20, 0xFE, 0x02, 0x41, 0x80, 0xFE, 0x00, 0x3D, 0xFE, 0xFB])]

/-- Both pings are read, although they come in two portions and the line jams. -/
theorem pings_survive :
    (WellSeparated pings [0xFE, 0xFB] ∧ Genuine jammed ∧
      jammed.flatMap fed = stream pings [0xFE, 0xFB] ∧
      pings.length + (jammed.flatMap cues).length < 6) ∧
    (run (jammed ++ .replicate 6 read) {}).1.filterMap StreamAnswer.item? =
      [.ok ⟨.sreq, ⟨.sys, 0x01⟩, []⟩, .ok ⟨.areq, ⟨.sys, 0x80⟩, [0xFE, 0x00]⟩] := by
  have hsep : WellSeparated pings [0xFE, 0xFB] := by
    simp [WellSeparated, Garbage, pings, Frame.wire_eq_cons, startByte, maxPayloadLength]
  have hgenuine : Genuine jammed := by
    intro fault hfault
    simp [Injected, jammed, cues] at hfault
  have hfed : jammed.flatMap fed = stream pings [0xFE, 0xFB] := by decide +kernel
  have hn : pings.length + (jammed.flatMap cues).length < 6 := by decide
  exact ⟨⟨hsep, hgenuine, hfed, hn⟩, (frames_survive hsep hgenuine hfed hn).2.1⟩

end StreamStep

end Bench

end ZigbeeHost
