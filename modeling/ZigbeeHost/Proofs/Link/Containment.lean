import ZigbeeHost.Proofs.Link.Rounds
import ZigbeeHost.Proofs.Serial.Damage
import ZigbeeHost.Proofs.Session.Coherence
/-!
# Damage is contained

A stream of frames arrives in any portions while a link makes its rounds, and one of the frames
is damaged on the way. `Pump.Dispatches` says which frames the rounds hand to the session, by what
they make of it, and by induction over the run (`Pump.Leads.run`) these are the good frames of the
stream, each as it was sent. The damaged one is a stretch of its own among them, so no byte of its
neighbours is lost.

Between two frames a session at rest stays as it is, since a round without a frame only fires
timers that are due and writes what is queued. The session after the stream is then a function
of the frames dispatched (`Pump.Fresh.session_run`), and the damaged frame might as well not have
been sent (`Pump.damage_contained`). A session that is not at rest tells the difference, for the
round that refuses the damaged frame is the round in which its timers fire or its queue is
written (`Pump.refusal_takes_a_round`).
-/

namespace ZigbeeHost

variable {η : Type}

/-! ## The stretches of a stream of frames -/

/-- Frames that are sent one after the other are found one after the other. -/
theorem spans_wires {frames : List Frame}
    (h : ∀ f ∈ frames, f.payload.length ≤ maxPayloadLength) (more : Bytes) :
    spans (frames.flatMap Frame.wire ++ more) = frames.map Frame.wire ++ spans more := by
  induction frames with
  | nil => rfl
  | cons f frames ih =>
    obtain ⟨hf, hframes⟩ := List.forall_mem_cons.1 h
    rw [List.flatMap_cons, List.append_assoc, spans_append_of_isSpan (isSpan_wire hf),
      ih hframes, List.map_cons, List.cons_append]

/-- Frames that are found as they were sent are good. -/
theorem goodFrames_wires {frames : List Frame}
    (h : ∀ f ∈ frames, f.payload.length ≤ maxPayloadLength) :
    goodFrames (frames.map Frame.wire) = frames := by
  induction frames with
  | nil => rfl
  | cons f frames ih =>
    obtain ⟨hf, hframes⟩ := List.forall_mem_cons.1 h
    rw [List.map_cons, goodFrames, List.filterMap_cons, Frame.decode_wire hf]
    exact congrArg (f :: ·) (ih hframes)

theorem goodFrames_append (found more : List Bytes) :
    goodFrames (found ++ more) = goodFrames found ++ goodFrames more :=
  List.filterMap_append

/-- A stretch that is refused is no good frame. -/
theorem goodFrames_damaged {f : Frame} {bytes : Bytes} (h : f.Damaged bytes)
    (hf : f.payload.length ≤ maxPayloadLength) : goodFrames [bytes] = [] := by
  simp [goodFrames, h.decode_eq hf, Except.toOption]

/-! ## Runs of the pump -/

/-- Something that happens to a link while a stream arrives. -/
inductive PumpStep where
  /-- A portion of the stream arrives. -/
  | arrive (bytes : Bytes)
  /-- Reads are told to fall short, or to fail. -/
  | choke (cues : List TransferCue)
  | round

namespace PumpStep

/-- The bytes that arrive with a step. -/
def fed : PumpStep → Bytes
  | arrive bytes => bytes
  | _ => []

/-- The cues that a step adds to the script for reads. -/
def cues : PumpStep → List TransferCue
  | choke cues => cues
  | _ => []

end PumpStep

/-- The stream arrives with these steps, and nothing that a read is told to report is fatal. -/
structure Carries (steps : List PumpStep) (stream : Bytes) : Prop where
  fed : steps.flatMap PumpStep.fed = stream
  mild : ∀ e, .failing e ∈ steps.flatMap PumpStep.cues → e.fatal = false

/-- A link and its session, with what the rounds answered. -/
structure Pump (η : Type) where
  link : Link
  session : Session η
  answers : List (Except Failure Bool) := []

namespace Pump

/-- One more thing happens. -/
def step (app : Application η) (p : Pump η) : PumpStep → Pump η
  | .arrive bytes => { p with link := { p.link with line := p.link.line.feed bytes } }
  | .choke cues =>
    let line := { p.link.line with reads := p.link.line.reads ++ cues }
    { p with link := { p.link with line } }
  | .round =>
    let (answer, link, session) := p.link.runOnce app p.session
    { link, session, answers := p.answers ++ [answer] }

/-- A run. -/
def run (app : Application η) (p : Pump η) (steps : List PumpStep) : Pump η :=
  steps.foldl (step app) p

theorem run_append (app : Application η) (p : Pump η) (steps more : List PumpStep) :
    p.run app (steps ++ more) = (p.run app steps).run app more := List.foldl_append

/-- The rounds among the steps dispatch these frames in the session, one after the other. -/
inductive Dispatches (app : Application η) : Pump η → List PumpStep → List Frame → Prop
  | nil {p : Pump η} : Dispatches app p [] []
  | arrive {p : Pump η} {bytes : Bytes} {steps : List PumpStep} {frames : List Frame} :
      Dispatches app (p.step app (.arrive bytes)) steps frames →
      Dispatches app p (.arrive bytes :: steps) frames
  | choke {p : Pump η} {cues : List TransferCue} {steps : List PumpStep} {frames : List Frame} :
      Dispatches app (p.step app (.choke cues)) steps frames →
      Dispatches app p (.choke cues :: steps) frames
  /-- When a round has read, it finds the session as it was. -/
  | quiet {p : Pump η} {steps : List PumpStep} {frames : List Frame} :
      p.link.runOnce app p.session = p.link.afterRead.finish app false p.session →
      Dispatches app (p.step app .round) steps frames →
      Dispatches app p (.round :: steps) frames
  /-- When a round has read, the session has dispatched a frame. -/
  | dispatch {p : Pump η} {f : Frame} {steps : List PumpStep} {frames : List Frame} :
      p.link.runOnce app p.session =
        p.link.afterRead.finish app true (p.session.deliver app f) →
      Dispatches app (p.step app .round) steps frames →
      Dispatches app p (.round :: steps) (f :: frames)

/-- What two parts of a run dispatch, the run does. -/
theorem Dispatches.append {app : Application η} {p : Pump η} {steps more : List PumpStep}
    {frames frames' : List Frame} (h : Dispatches app p steps frames)
    (h' : Dispatches app (p.run app steps) more frames') :
    Dispatches app p (steps ++ more) (frames ++ frames') := by
  induction h with
  | nil => exact h'
  | arrive _ ih => exact .arrive (ih h')
  | choke _ ih => exact .choke (ih h')
  | quiet hround _ ih => exact .quiet hround (ih h')
  | dispatch hround _ ih => exact .dispatch hround (ih h')

/-- A link over a line, with nothing in transit. -/
def start (line : Line) (s : Session η) : Pump η := { link := { line }, session := s }

/-- Nothing has arrived yet, and the line is open. -/
structure Fresh (p : Pump η) : Prop where
  held : p.link.inbound.held = []
  awaited : p.link.inbound.awaited ≤ 2
  incoming : p.link.line.incoming = []
  reads : p.link.line.reads = []
  steadfast : p.link.line.Steadfast
  answers : p.answers = []

/-- Some steps led to `p`. The bytes `taken` of what arrived were taken off the line, and they
are cut into the stretches `found`. -/
structure Leads (steps : List PumpStep) (p : Pump η) (taken : Bytes) (found : List Bytes) :
    Prop where
  fed : steps.flatMap PumpStep.fed = taken ++ p.link.line.incoming
  follows : p.link.inbound.Follows taken found
  rests : p.link.inbound.Rests
  reads : p.link.line.reads <:+ steps.flatMap PumpStep.cues
  steadfast : p.link.line.Steadfast
  answers : ∀ answer ∈ p.answers, ∃ busy, answer = .ok busy

/-- The frames `frames` were dispatched one after the other, in a session that came to rest after
each of them. -/
structure Digests (app : Application η) (frames : List Frame) (p p' : Pump η) : Prop where
  session : p'.session = frames.foldl (fun s f => (s.deliver app f).settled) p.session
  atRest : p'.session.AtRest
  takes : p'.link.line.Takes

theorem Digests.trans {app : Application η} {frames frames' : List Frame} {p p' p'' : Pump η}
    (h : Digests app frames p p') (h' : Digests app frames' p' p'') :
    Digests app (frames ++ frames') p p'' where
  session := by rw [h'.session, h.session, List.foldl_append]
  atRest := h'.atRest
  takes := h'.takes

/-- The steps bring the session these frames, and nothing else if it is at rest and the line takes
what is written. -/
structure Brings (app : Application η) (p : Pump η) (steps : List PumpStep) (frames : List Frame) :
    Prop where
  dispatches : Dispatches app p steps frames
  digests : p.link.line.Takes → p.session.AtRest → Digests app frames p (p.run app steps)

theorem Brings.append {app : Application η} {p : Pump η} {steps more : List PumpStep}
    {frames frames' : List Frame} (h : Brings app p steps frames)
    (h' : Brings app (p.run app steps) more frames') :
    Brings app p (steps ++ more) (frames ++ frames') where
  dispatches := h.dispatches.append h'.dispatches
  digests htakes hrest := by
    have hfirst := h.digests htakes hrest
    rw [run_append]
    exact hfirst.trans (h'.digests hfirst.takes hfirst.atRest)

variable {app : Application η} {p : Pump η} {steps : List PumpStep} {taken : Bytes}
  {found : List Bytes}

/-- A link that is fresh has found nothing. -/
theorem Fresh.leads (h : p.Fresh) : Leads [] p [] [] where
  fed := h.incoming.symm
  follows := by
    refine ⟨fun more => ?_, Or.inl ?_, fun hspan => ?_⟩
    · rw [h.held]
      rfl
    · rw [h.held]
      simpa using h.awaited
    · rw [h.held] at hspan
      exact absurd hspan.two_lt_length (by decide)
  rests := Or.inl h.held
  reads := by rw [h.reads]; exact List.nil_suffix
  steadfast := h.steadfast
  answers answer hanswer := by
    rw [h.answers] at hanswer
    cases hanswer

/-- A round brings the session the good frame that it finds. -/
theorem brings_round {taken took : Bytes} {done new : List Bytes} (app : Application η)
    (h : Link.Round app p.link p.session taken done took new (p.link.runOnce app p.session)) :
    Brings app p [.round] (goodFrames new) := by
  have hfound := h.found
  have hdelivers := h.delivers
  refine ⟨?_, fun htakes hrest => ⟨?_, ?_, h.takes htakes⟩⟩
  · cases hf : p.link.found? with
    | none =>
      rw [hf] at hfound hdelivers
      exact hfound ▸ .quiet hdelivers .nil
    | some f =>
      rw [hf] at hfound hdelivers
      exact hfound ▸ .dispatch hdelivers .nil
  · refine (h.session htakes).trans ?_
    rw [← hfound]
    cases p.link.found? with
    | none => exact hrest.settled_eq
    | some f => rfl
  · have hround : (p.run app [.round]).session = _ := h.session htakes
    rw [hround]
    exact Session.atRest_settled _

/-- A round finds a stretch, uses up a cue or leaves nothing on the line. -/
theorem Leads.round (h : Leads steps p taken found) (app : Application η) :
    ∃ took new, Leads (steps ++ [.round]) (p.step app .round) (taken ++ took) (found ++ new) ∧
      Brings app p [.round] (goodFrames new) ∧
      (p.step app .round).link.line.reads.length ≤ p.link.line.reads.length ∧
      (new.length = 1 ∨
        (p.step app .round).link.line.reads.length < p.link.line.reads.length ∨
        (p.step app .round).link.line.incoming = []) := by
  obtain ⟨took, new, hround⟩ := p.link.runOnce_round app h.steadfast p.session h.follows
  refine ⟨took, new, ⟨?_, hround.follows, hround.rests, ?_, hround.steadfast, ?_⟩,
    brings_round app hround, hround.reads.length_le, hround.progress⟩
  · rw [List.flatMap_append, h.fed, hround.incoming, ← List.append_assoc]
    exact List.append_nil _
  · rw [List.flatMap_append]
    exact (List.append_nil (steps.flatMap PumpStep.cues)).symm ▸ hround.reads.trans h.reads
  · intro answer hanswer
    rcases List.mem_append.1 hanswer with hanswer | hanswer
    · exact h.answers answer hanswer
    · exact List.mem_singleton.1 hanswer ▸ hround.answer

/-- A step keeps track of the bytes, the stretches and the frames. -/
theorem Leads.step (h : Leads steps p taken found) (app : Application η) {step : PumpStep}
    (hstep : ∀ e, .failing e ∈ step.cues → e.fatal = false) :
    ∃ took new, Leads (steps ++ [step]) (p.step app step) (taken ++ took) (found ++ new) ∧
      Brings app p [step] (goodFrames new) := by
  obtain ⟨hclosed, hreads, hwrites, hflushes⟩ := h.steadfast
  cases step with
  | arrive bytes =>
    refine ⟨[], [], ?_, .arrive .nil,
      fun htakes hrest => ⟨rfl, hrest, ⟨htakes.writes, htakes.flushes⟩⟩⟩
    rw [List.append_nil, List.append_nil]
    refine { h with
      fed := ?_, reads := ?_, steadfast := ⟨hclosed, hreads, hwrites, hflushes⟩ }
    · simp [h.fed, PumpStep.fed, Pump.step, Line.feed]
    · simpa [PumpStep.cues, Pump.step, Line.feed] using h.reads
  | choke cues =>
    refine ⟨[], [], ?_, .choke .nil,
      fun htakes hrest => ⟨rfl, hrest, ⟨htakes.writes, htakes.flushes⟩⟩⟩
    rw [List.append_nil, List.append_nil]
    have hmild : ∀ e, .failing e ∈ p.link.line.reads ++ cues → e.fatal = false :=
      fun e he => (List.mem_append.1 he).elim (hreads e) (hstep e)
    refine { h with
      fed := ?_, reads := ?_, steadfast := ⟨hclosed, hmild, hwrites, hflushes⟩ }
    · simp [h.fed, PumpStep.fed, Pump.step]
    · obtain ⟨used, hused⟩ := h.reads
      refine ⟨used, ?_⟩
      simp [← hused, PumpStep.cues, Pump.step]
  | round =>
    obtain ⟨took, new, hround, hbrings, -, -⟩ := h.round app
    exact ⟨took, new, hround, hbrings⟩

/-- A run keeps track of the bytes, the stretches and the frames. -/
theorem Leads.run (h : Leads steps p taken found) (app : Application η) {more : List PumpStep}
    (hmore : ∀ e, .failing e ∈ more.flatMap PumpStep.cues → e.fatal = false) :
    ∃ took new, Leads (steps ++ more) (p.run app more) (taken ++ took) (found ++ new) ∧
      Brings app p more (goodFrames new) := by
  induction more generalizing steps p taken found with
  | nil =>
    refine ⟨[], [], by simpa [Pump.run] using h, .nil, fun htakes hrest => ⟨rfl, hrest, htakes⟩⟩
  | cons step more ih =>
    rw [List.flatMap_cons] at hmore
    obtain ⟨took, new, hstep, hbrings⟩ :=
      h.step app fun e he => hmore e (List.mem_append_left _ he)
    obtain ⟨took', new', hrun, hrest⟩ := ih hstep fun e he => hmore e (List.mem_append_right _ he)
    rw [List.append_assoc taken, List.append_assoc found] at hrun
    refine ⟨took ++ took', new ++ new', List.append_cons steps step more ▸ hrun, ?_⟩
    rw [goodFrames_append]
    exact hbrings.append hrest

/-- When all of the stream is taken off the line, its good frames were brought. -/
theorem Fresh.brings (hp : p.Fresh) (app : Application η) {stream : Bytes}
    (hsteps : Carries steps stream) (hnil : (p.run app steps).link.line.incoming = []) :
    Brings app p steps (goodFrames (spans stream)) := by
  obtain ⟨taken, found, hrun, hbrings⟩ := hp.leads.run app hsteps.mild
  have hfed := hrun.fed
  rw [List.nil_append, List.nil_append, hsteps.fed, hnil, List.append_nil] at hfed
  have hspans := hrun.follows.spans_eq hrun.rests
  rw [List.nil_append, List.nil_append] at hspans
  rwa [hfed, hspans]

/-! ## Using the stream up -/

/-- The stretches found are the first ones of the stream. -/
theorem Leads.length_le (h : Leads steps p taken found) :
    found.length ≤ (spans (steps.flatMap PumpStep.fed)).length := by
  rw [h.fed, h.follows.spans_append, List.length_append]
  exact Nat.le_add_right ..

/-- A round feeds nothing. -/
theorem flatMap_fed_round (steps : List PumpStep) :
    (steps ++ [PumpStep.round]).flatMap PumpStep.fed = steps.flatMap PumpStep.fed := by
  rw [List.flatMap_append]
  exact List.append_nil _

/-- With nothing left on the line, rounds find nothing on it either. -/
theorem incoming_run_rounds_of_nil (app : Application η) (n : Nat)
    (h : Leads steps p taken found) (hnil : p.link.line.incoming = []) :
    (p.run app (.replicate n .round)).link.line.incoming = [] := by
  induction n generalizing steps p taken found with
  | zero => exact hnil
  | succ n ih =>
    obtain ⟨took, new, hround, -, -, -⟩ := h.round app
    have hfed := hround.fed
    rw [flatMap_fed_round, h.fed, hnil, List.append_assoc, List.append_cancel_left_eq] at hfed
    exact ih hround (List.append_eq_nil_iff.1 hfed.symm).2

/-- Each round gets on, so some more rounds than there are cues and stretches leave nothing on
the line. -/
theorem incoming_run_rounds (app : Application η) (n : Nat) (h : Leads steps p taken found)
    (hn : p.link.line.reads.length + (spans (steps.flatMap PumpStep.fed)).length <
      n + found.length) :
    (p.run app (.replicate n .round)).link.line.incoming = [] := by
  induction n generalizing steps p taken found with
  | zero =>
    have hle := h.length_le
    omega
  | succ n ih =>
    obtain ⟨took, new, hround, -, hless, hgets⟩ := h.round app
    rw [← flatMap_fed_round] at hn
    rcases hgets with hone | hused | hnil
    · refine ih hround ?_
      rw [List.length_append]
      omega
    · refine ih hround ?_
      rw [List.length_append]
      omega
    · exact incoming_run_rounds_of_nil app n hround hnil

/-! ## The session -/

/-- A session at rest, on a line that takes what is written, is after a stream what its good
frames make of it, however the stream arrived. -/
theorem Fresh.session_run (hp : p.Fresh) (htakes : p.link.line.Takes) (hrest : p.session.AtRest)
    {stream : Bytes} (hsteps : Carries steps stream)
    (hnil : (p.run app steps).link.line.incoming = []) :
    (p.run app steps).session =
      (goodFrames (spans stream)).foldl (fun s f => (s.deliver app f).settled) p.session :=
  ((hp.brings app hsteps hnil).digests htakes hrest).session

/-! ## One damaged frame -/

/-- A damaged frame is a stretch among those of its neighbours. -/
theorem spans_around_damage {before after : List Frame} {f : Frame} {bytes : Bytes}
    (hframes : ∀ g ∈ before ++ f :: after, g.payload.length ≤ maxPayloadLength)
    (hdamaged : f.Damaged bytes) :
    spans (before.flatMap Frame.wire ++ (bytes ++ after.flatMap Frame.wire)) =
      before.map Frame.wire ++ bytes :: after.map Frame.wire := by
  obtain ⟨hbefore, hf, hafter⟩ :
      (∀ g ∈ before, g.payload.length ≤ maxPayloadLength) ∧
        f.payload.length ≤ maxPayloadLength ∧ ∀ g ∈ after, g.payload.length ≤ maxPayloadLength := by
    simpa [or_imp, forall_and] using hframes
  have hnil : spans (after.flatMap Frame.wire) = after.map Frame.wire := by
    simpa [spans] using spans_wires hafter []
  rw [spans_wires hbefore, spans_append_of_isSpan (hdamaged.isSpan hf), hnil]

/-- The good frames of the stream are the others. -/
theorem goodFrames_around_damage {before after : List Frame} {f : Frame} {bytes : Bytes}
    (hframes : ∀ g ∈ before ++ f :: after, g.payload.length ≤ maxPayloadLength)
    (hdamaged : f.Damaged bytes) :
    goodFrames (spans (before.flatMap Frame.wire ++ (bytes ++ after.flatMap Frame.wire))) =
      before ++ after := by
  have hf : f.payload.length ≤ maxPayloadLength := hframes f (by simp)
  have hbefore : ∀ g ∈ before, g.payload.length ≤ maxPayloadLength :=
    fun g hg => hframes g (List.mem_append_left _ hg)
  have hafter : ∀ g ∈ after, g.payload.length ≤ maxPayloadLength :=
    fun g hg => hframes g (List.mem_append_right _ (List.mem_cons_of_mem f hg))
  rw [spans_around_damage hframes hdamaged, ← List.singleton_append, goodFrames_append,
    goodFrames_append, goodFrames_damaged hdamaged hf, goodFrames_wires hbefore,
    goodFrames_wires hafter, List.nil_append]

/-- Frames are sent back to back, and noise strikes one of them behind its length byte so that
its checksum does not fit any more; this is so if a single byte changes. The stream arrives in
any portions, with rounds in between and reads falling short or failing, though never for good.
No round fails, and some more rounds than there are frames and cues use the stream up. Then the
session has dispatched the other frames, as they were sent and in order, and nothing else.

If at the start no timer was due and nothing queued, and the line takes what is written at once,
then the session is what these frames make of it, as in every run in which the damaged frame was
not sent. -/
theorem damage_contained (app : Application η) {p : Pump η} (hp : p.Fresh)
    {before after : List Frame} {f : Frame} {bytes : Bytes}
    (hframes : ∀ g ∈ before ++ f :: after, g.payload.length ≤ maxPayloadLength)
    (hdamaged : f.Damaged bytes) {steps : List PumpStep}
    (hsteps : Carries steps
      (before.flatMap Frame.wire ++ (bytes ++ after.flatMap Frame.wire))) :
    (∀ g ∈ before ++ f :: after, g.encode = .ok g.wire) ∧
      (∀ i (hi : i < f.wire.length) b, 2 ≤ i → b ≠ f.wire[i] → f.Damaged (f.wire.set i b)) ∧
      (∀ answer ∈ (p.run app steps).answers, ∃ busy, answer = .ok busy) ∧
      (∀ n, before.length + after.length + 1 + (steps.flatMap PumpStep.cues).length < n →
        (p.run app (steps ++ .replicate n .round)).link.line.incoming = []) ∧
      ((p.run app steps).link.line.incoming = [] →
        Dispatches app p steps (before ++ after) ∧
          (p.session.AtRest → p.link.line.Takes →
            (p.run app steps).session =
                (before ++ after).foldl (fun s g => (s.deliver app g).settled) p.session ∧
              ∀ spared, Carries spared ((before ++ after).flatMap Frame.wire) →
                (p.run app spared).link.line.incoming = [] →
                (p.run app spared).session = (p.run app steps).session)) := by
  obtain ⟨taken, found, hrun, -⟩ := hp.leads.run app hsteps.mild
  rw [List.nil_append, List.nil_append, List.nil_append] at hrun
  have hgood := goodFrames_around_damage hframes hdamaged
  have hothers : ∀ g ∈ before ++ after, g.payload.length ≤ maxPayloadLength := by
    intro g hg
    refine hframes g (List.mem_append.2 ((List.mem_append.1 hg).imp_right fun hg => ?_))
    exact List.mem_cons_of_mem f hg
  refine ⟨fun g hg => ?_, fun i hi b htwo hb => f.damaged_set htwo hi hb, hrun.answers,
    fun n hn => ?_, fun hnil => ⟨?_, fun hrest htakes => ?_⟩⟩
  · rw [Frame.encode_eq, if_pos (hframes g hg)]
  · rw [run_append]
    refine incoming_run_rounds app n hrun ?_
    have hreads := hrun.reads.length_le
    rw [hsteps.fed, spans_around_damage hframes hdamaged]
    simp only [List.length_append, List.length_map, List.length_cons]
    omega
  · exact hgood ▸ (hp.brings app hsteps hnil).dispatches
  · have hsession := hp.session_run htakes hrest hsteps hnil
    rw [hgood] at hsession
    refine ⟨hsession, fun spared hspared hnil' => ?_⟩
    have hwires :
        spans ((before ++ after).flatMap Frame.wire) = (before ++ after).map Frame.wire := by
      simpa [spans] using spans_wires hothers []
    rw [hsession, hp.session_run htakes hrest hspared hnil', hwires, goodFrames_wires hothers]

/-! ## Closed runs -/

/-- The bytes of a pong whose checksum changed on the way. -/
def garbledPong : Bytes := pong.wire.set 6 0

/-- One byte of the answer is damaged. -/
theorem damaged_garbledPong : pong.Damaged garbledPong :=
  pong.damaged_set (by decide) (by decide) (by decide)

/-- A stream arrives at once, and then there are `n` rounds. -/
def atOnce (stream : Bytes) (n : Nat) : List PumpStep := .arrive stream :: .replicate n .round

/-- A damaged pong arrives between others, in two portions, and the line jams. -/
def jammed : List PumpStep :=
  [.arrive (permitJoin.wire ++ garbledPong.take 3), .round,
    .choke [.atMost 1, .failing (.other "jammed"), .atMost 0], .round, .round,
    .arrive (garbledPong.drop 3 ++ pong.wire), .round, .round, .round]

/-- The wait for a pong gets the whole one. -/
theorem jammed_contained :
    let p := start {} ((Session.start {} ()).waitFor ⟨.srsp, ⟨.sys, 0x01⟩, []⟩ none).2
    (p.Fresh ∧ p.session.AtRest ∧ p.link.line.Takes) ∧
      Dispatches .silent p jammed [permitJoin, pong] ∧
      (p.run .silent jammed).session.outcome? 0 = some (.ok (.payload [0x59, 0x01])) := by
  intro p
  have hfresh : p.Fresh := ⟨rfl, Nat.zero_le 2, rfl, rfl, ⟨rfl, nofun, nofun, nofun⟩, rfl⟩
  have hrest : p.session.AtRest := ⟨nofun, rfl⟩
  have htakes : p.link.line.Takes := ⟨rfl, rfl⟩
  have hcarries : Carries jammed
      ([permitJoin].flatMap Frame.wire ++ (garbledPong ++ [pong].flatMap Frame.wire)) := by
    refine ⟨by decide +kernel, fun e he => ?_⟩
    have hcue : e = .other "jammed" := by simpa [jammed, PumpStep.cues] using he
    rw [hcue]
    rfl
  have hframes : ∀ g ∈ [permitJoin] ++ pong :: [pong], g.payload.length ≤ maxPayloadLength := by
    decide
  obtain ⟨-, -, -, -, hused⟩ :=
    damage_contained .silent hfresh hframes damaged_garbledPong hcarries
  obtain ⟨hdispatches, hsession⟩ := hused (by decide +kernel)
  refine ⟨⟨hfresh, hrest, htakes⟩, hdispatches, ?_⟩
  rw [(hsession hrest htakes).1]
  decide +kernel

/-- An application that notes how many frames are queued when it hears of something, and then
queues two. -/
def noting : Application Nat where
  hear _ _ _ s := { (s.send pong).send pong with host := s.outbound.length }
  offer _ _ s := (s, {})
  abort _ _ s := s

/-- A session that tells `noting` when devices may join. -/
def noted : Session Nat := ((Session.start {} 0).subscribe .permitJoin (.application 0)).2

/-- A line that does not take anything when it is first written to. -/
def busyLine : Line := { writes := [.failing .wouldBlock] }

/-- Two runs use up what arrived, and their sessions look like `a` and like `b`. -/
structure Tells {α : Type} (app : Application η) (p : Pump η) (view : Session η → α)
    (steps spared : List PumpStep) (a b : α) : Prop where
  used : (p.run app steps).link.line.incoming = []
  used_spared : (p.run app spared).link.line.incoming = []
  view_eq : view (p.run app steps).session = a
  view_spared : view (p.run app spared).session = b

/-- The round that refuses a damaged frame is a round still. In it the timers that are due fire,
before the frame behind arrives; what is queued is written, before the application looks; and
a line that was busy takes what it did not take before. So without any of the three conditions
the session can tell whether the damaged frame was sent. -/
theorem refusal_takes_a_round :
    pong.Damaged garbledPong ∧
      ((start {} .overdue).session.outbound = [] ∧ (start {} .overdue).link.line.Takes ∧
        Tells .silent (start {} .overdue) (·.outcome? 0)
          (atOnce (garbledPong ++ pong.wire) 2) (atOnce pong.wire 2)
          (some (.error .timeout)) (some (.ok (.payload pong.payload)))) ∧
      ((noted.send pong).timers.armed = [] ∧ (start {} (noted.send pong)).link.line.Takes ∧
        Tells noting (start {} (noted.send pong)) (·.host)
          (atOnce (garbledPong ++ permitJoin.wire) 2) (atOnce permitJoin.wire 2) 0 1) ∧
      (noted.AtRest ∧
        Tells noting (start busyLine noted) (·.outbound)
          (atOnce (permitJoin.wire ++ garbledPong) 2) (atOnce permitJoin.wire 1) [] [pong]) := by
  refine ⟨damaged_garbledPong, ⟨rfl, ⟨rfl, rfl⟩, ⟨?_, ?_, ?_, ?_⟩⟩,
    ⟨rfl, ⟨rfl, rfl⟩, ⟨?_, ?_, ?_, ?_⟩⟩, ⟨nofun, rfl⟩, ⟨?_, ?_, ?_, ?_⟩⟩
  all_goals decide +kernel

end Pump

end ZigbeeHost
