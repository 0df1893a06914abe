import ZigbeeHost.Proofs.Link.Writing
import ZigbeeHost.Proofs.Serial.Fragmentation
import ZigbeeHost.Proofs.Session.Ledger
/-!
# Rounds that go well

A line may stop and fail wherever it likes, and still a round goes well unless the failure is
fatal. What sending does to such a line is said once for the queue (`Link.sendQueue_behaves`).
A round takes some bytes off the line, delivers the frame that it finds if it finds a good one,
and gets on (`Link.runOnce_round`). If the line takes what is written at once, the session
afterwards does not depend on the line (`Link.Round.session`) : its timers have fired and its
queue is empty, as `Session.settled` says.
-/

namespace ZigbeeHost

/-! ## Lines that do not fail for good -/

/-- The line is open, and no failure that it is told to report is fatal. -/
structure Line.Steadfast (line : Line) : Prop where
  closed : line.closed = false
  reads : ∀ e, .failing e ∈ line.reads → e.fatal = false
  writes : ∀ e, .failing e ∈ line.writes → e.fatal = false
  flushes : ∀ e, some e ∈ line.flushes → e.fatal = false

/-- Whatever is written, the line takes it at once. -/
structure Line.Takes (line : Line) : Prop where
  writes : line.writes = []
  flushes : line.flushes = []

/-- Between the two lines nothing was read. Cues for writing may be used up. -/
structure Line.Wrote (line line' : Line) : Prop where
  input : line.SameInput line'
  writes : line'.writes <:+ line.writes
  flushes : line'.flushes <:+ line.flushes

namespace Line

variable {line line' line'' : Line}

theorem Wrote.refl (line : Line) : line.Wrote line :=
  ⟨⟨rfl, rfl, rfl⟩, List.suffix_rfl, List.suffix_rfl⟩

theorem Wrote.trans (h : line.Wrote line') (h' : line'.Wrote line'') : line.Wrote line'' :=
  ⟨h.input.trans h'.input, h'.writes.trans h.writes, h'.flushes.trans h.flushes⟩

/-- A line that was steadfast stays so when it is written to. -/
theorem Wrote.steadfast (h : line.Wrote line') (hline : line.Steadfast) : line'.Steadfast where
  closed := h.input.closed.trans hline.closed
  reads e he := hline.reads e (h.input.reads ▸ he)
  writes e he := hline.writes e (h.writes.mem he)
  flushes e he := hline.flushes e (h.flushes.mem he)

/-- A line that takes all goes on taking all. -/
theorem Wrote.takes (h : line.Wrote line') (hline : line.Takes) : line'.Takes :=
  ⟨List.suffix_nil.1 (hline.writes ▸ h.writes), List.suffix_nil.1 (hline.flushes ▸ h.flushes)⟩

/-- To write takes nothing from the input. -/
theorem write_wrote (line : Line) (bytes : Bytes) : line.Wrote (line.write bytes).2 := by
  refine ⟨line.write_sameInput bytes, ?_, ?_⟩
  · unfold write
    split
    · exact List.suffix_rfl
    · rename_i e rest hwrites
      exact hwrites ▸ List.suffix_cons _ rest
    · rename_i count rest hwrites
      exact hwrites ▸ List.suffix_cons _ rest
  · unfold write
    split <;> exact List.suffix_rfl

/-- To flush takes nothing from the input. -/
theorem flush_wrote (line : Line) : line.Wrote line.flush.2 := by
  refine ⟨line.flush_sameInput, ?_, ?_⟩
  · unfold flush
    split <;> exact List.suffix_rfl
  · unfold flush
    split
    · exact List.suffix_rfl
    · rename_i rest hflushes
      exact hflushes ▸ List.suffix_cons _ rest
    · rename_i e rest hflushes
      exact hflushes ▸ List.suffix_cons _ rest

/-- A steadfast line fails in ways only that are no reason to stop. -/
theorem Steadfast.write_error (h : line.Steadfast) {bytes : Bytes} {e : TransportFailure}
    (hwrite : line.write bytes = (.error e, line')) : e.fatal = false := by
  unfold write at hwrite
  split at hwrite
  · cases hwrite
  · rename_i e' rest hwrites
    obtain rfl : e' = e := Except.error.inj (Prod.mk.inj hwrite).1
    exact h.writes e' (hwrites ▸ List.mem_cons_self ..)
  · cases hwrite

theorem Steadfast.flush_error (h : line.Steadfast) {e : TransportFailure}
    (hflush : line.flush.1 = .error e) : e.fatal = false := by
  unfold flush at hflush
  split at hflush
  · cases hflush
  · cases hflush
  · rename_i e' rest hflushes
    obtain rfl : e' = e := Except.error.inj hflush
    exact h.flushes e' (hflushes ▸ List.mem_cons_self ..)

end Line

/-- To read spends no cue for writing. -/
theorem Line.read_output (line : Line) (room : Nat) :
    (line.read room).2.writes = line.writes ∧ (line.read room).2.flushes = line.flushes := by
  have hreceive (line : Line) (count : Nat) : (line.receive count).2.writes = line.writes ∧
      (line.receive count).2.flushes = line.flushes := by
    unfold receive
    split <;> exact ⟨rfl, rfl⟩
  unfold read
  split
  · exact hreceive line room
  · exact ⟨rfl, rfl⟩
  · exact ⟨rfl, rfl⟩
  · exact hreceive _ _

/-- To read writes nothing. -/
theorem Inbound.readFrame_output (buffer : Inbound) (line : Line) :
    (buffer.readFrame line).2.2.writes = line.writes ∧
      (buffer.readFrame line).2.2.flushes = line.flushes := by
  have houtput {line line' : Line} {room : Nat} {answer : Except TransportFailure Bytes}
      (h : line.read room = (answer, line')) :
      line'.writes = line.writes ∧ line'.flushes = line.flushes := by
    have := line.read_output room
    rwa [h] at this
  fun_induction Inbound.readFrame buffer line with
  | case1 => exact ⟨rfl, rfl⟩
  | case3 _ _ _ _ _ _ _ hread ih =>
    exact ⟨ih.1.trans (houtput hread).1, ih.2.trans (houtput hread).2⟩
  | case2 _ _ _ _ _ hread | case4 _ _ _ _ _ hread | case5 _ _ _ _ _ _ _ hread =>
    exact houtput hread

/-! ## Sending -/

/-- To send from a buffer takes nothing from the input. -/
theorem Outbound.write_wrote (buffer : Outbound) (line : Line) :
    line.Wrote (buffer.write line).2.2 := by
  have hwrote := line.write_wrote buffer.unsent
  unfold write
  split
  · exact .refl line
  · split
    · rename_i count line' hline
      rw [hline] at hwrote
      split
      · exact hwrote.trans line'.flush_wrote
      · exact hwrote
    · rename_i line' hline
      rwa [hline] at hwrote
    · rename_i e line' _ hline
      rwa [hline] at hwrote

/-- To send from a buffer over a steadfast line fails in ways only that are no reason to stop. -/
theorem Line.Steadfast.outbound_error {line : Line} (h : line.Steadfast) {buffer : Outbound}
    {e : TransportFailure} (hwrite : (buffer.write line).1 = .error e) : e.fatal = false := by
  have hwrote := line.write_wrote buffer.unsent
  unfold Outbound.write at hwrite
  split at hwrite
  · cases hwrite
  · split at hwrite
    · rename_i count line' hline
      rw [hline] at hwrote
      split at hwrite
      · cases hflush : line'.flush.1 with
        | ok u => simp [hflush, Except.map] at hwrite
        | error e' =>
          simp only [hflush, Except.map, Except.error.injEq] at hwrite
          exact hwrite ▸ (hwrote.steadfast h).flush_error hflush
      · cases hwrite
    · cases hwrite
    · rename_i e' line' _ hline
      obtain rfl : e' = e := Except.error.inj hwrite
      exact h.write_error hline

/-- A line that takes everything takes the whole buffer. -/
theorem Line.Takes.outbound_write {line : Line} (h : line.Takes) (buffer : Outbound) :
    (buffer.write line).1 = .ok true := by
  unfold Outbound.write
  split
  · rfl
  · simp [Line.write, h.writes, Line.flush, h.flushes, Except.map]

namespace Link

/-- What was sent over a line, by the kind of the line. -/
structure Sent.Behaves (sent : Sent) (line : Line) : Prop where
  wrote : line.Wrote sent.line
  ok : line.Steadfast → ∃ busy, sent.result = .ok busy
  queue : line.Takes → sent.queue = []

/-- What is sent after something else was written. -/
theorem Sent.Behaves.behind {sent : Sent} {line line' : Line} (h : sent.Behaves line')
    (hwrote : line.Wrote line') : sent.Behaves line where
  wrote := hwrote.trans h.wrote
  ok hline := h.ok (hwrote.steadfast hline)
  queue hline := h.queue (hwrote.takes hline)

/-- A write that does not finish its frame ends the sending. -/
theorem behaves_of_stop {buffer outbound : Outbound} {line line' : Line}
    {answer : Except TransportFailure Bool} (hwrite : buffer.write line = (answer, outbound, line'))
    (hstop : answer ≠ .ok true) (busy : Bool) (queue : List Frame)
    (pushed : List (Frame × Except TransportFailure Unit)) :
    Sent.Behaves
      { result := match answer with
          | .ok _ => .ok busy
          | .error e => if e.fatal then .error e else .ok busy
        outbound, line := line', queue, pushed } line where
  wrote := by
    have hwrote := buffer.write_wrote line
    rwa [hwrite] at hwrote
  ok hline := by
    match answer, hwrite with
    | .ok _, _ => exact ⟨busy, rfl⟩
    | .error e, hwrite =>
      have hfatal := hline.outbound_error (congrArg Prod.fst hwrite)
      exact ⟨busy, if_neg (by simp [hfatal])⟩
  queue hline := by
    have hdone := hline.outbound_write buffer
    rw [hwrite] at hdone
    exact absurd hdone hstop

/-- The induction is on the queue. -/
theorem sendQueue_behaves (outbound : Outbound) (line : Line) (busy : Bool)
    (queue : List Frame) : (sendQueue outbound line busy queue).Behaves line := by
  induction queue generalizing outbound line busy with
  | nil => exact ⟨.refl line, fun _ => ⟨busy, rfl⟩, fun _ => rfl⟩
  | cons f queue ih =>
    simp only [sendQueue]
    split
    · exact ⟨(ih ..).wrote, (ih ..).ok, (ih outbound line busy).queue⟩
    · rename_i taken _
      have hwrote := taken.write_wrote line
      rcases hwrite : taken.write line with ⟨answer, outbound', line'⟩
      rw [hwrite] at hwrote
      rcases answer with e | _ | _
      · exact behaves_of_stop hwrite (fun h => by cases h) busy queue _
      · exact behaves_of_stop hwrite (fun h => by cases h) busy queue _
      · have hrest := (ih outbound' line' true).behind hwrote
        exact ⟨hrest.wrote, hrest.ok, hrest.queue⟩

/-- What sending makes of the buffer and the queue is one of the cases. -/
theorem send_behaves (link : Link) (busy : Bool) (queue : List Frame) :
    (link.send busy queue).Behaves link.line := by
  have hwrote := link.outbound.write_wrote link.line
  unfold send
  split
  · exact sendQueue_behaves ..
  · rcases hwrite : link.outbound.write link.line with ⟨answer, outbound', line'⟩
    rw [hwrite] at hwrote
    rcases answer with e | _ | _
    · exact behaves_of_stop hwrite (fun h => by cases h) busy queue _
    · exact behaves_of_stop hwrite (fun h => by cases h) busy queue _
    · exact (sendQueue_behaves ..).behind hwrote

end Link

/-! ## Sessions between two rounds -/

variable {η : Type}

namespace Session

/-- Timers that are due have fired, and the queue was written. -/
def settled (s : Session η) : Session η := { s.expireTimers with outbound := [] }

/-- No timer is due, and nothing is queued. -/
structure AtRest (s : Session η) : Prop where
  ahead : ∀ e ∈ s.timers.armed, s.now < e.deadline
  outbound : s.outbound = []

/-- At rest there is nothing to settle. -/
theorem AtRest.settled_eq {s : Session η} (h : s.AtRest) : s.settled = s := by
  have hdue : s.timers.due s.now = [] := by
    have hnone : s.timers.armed.filter (·.deadline ≤ s.now) = [] :=
      List.filter_eq_nil_iff.2 fun e he => by simpa using h.ahead e he
    rw [Timers.due, hnone, List.mergeSort_nil]
  have harmed : s.timers.armed.filter (s.now < ·.deadline) = s.timers.armed :=
    List.filter_eq_self.2 fun e he => by simpa using h.ahead e he
  have hexpire : s.expireTimers = s := by
    simp only [expireTimers, Timers.expire, hdue, harmed, List.map_nil, List.foldl_nil]
  rw [settled, hexpire, ← h.outbound]

/-- What is settled is at rest. -/
theorem atRest_settled (s : Session η) : s.settled.AtRest := by
  refine ⟨fun e he => ?_, rfl⟩
  have harmed : e ∈ s.expireTimers.timers.armed := he
  have hnow : s.settled.now = s.now := by
    show s.expireTimers.now = s.now
    rw [expireTimers_eq]
  rw [expireTimers_eq] at harmed
  rw [hnow]
  simpa using (List.mem_filter.1 harmed).2

end Session

/-! ## One round -/

/-- The good frames among some stretches. -/
def goodFrames (found : List Bytes) : List Frame :=
  found.filterMap fun span => (Frame.decode span).toOption

namespace Link

/-- The frame that a round finds, if it finds a good one. -/
def found? (link : Link) : Option Frame := (link.inbound.readFrame link.line).1.toOption.join

/-- The link when a round has read. -/
def afterRead (link : Link) : Link :=
  { link with
    inbound := (link.inbound.readFrame link.line).2.1
    line := (link.inbound.readFrame link.line).2.2 }

/-- What a round does if the line does not fail for good. The buffer followed `taken`. -/
structure Round (app : Application η) (link : Link) (s : Session η) (taken : Bytes)
    (done : List Bytes) (took : Bytes) (new : List Bytes)
    (result : Except Failure Bool × Link × Session η) : Prop where
  answer : ∃ busy, result.1 = .ok busy
  incoming : link.line.incoming = took ++ result.2.1.line.incoming
  reads : result.2.1.line.reads <:+ link.line.reads
  follows : result.2.1.inbound.Follows (taken ++ took) (done ++ new)
  rests : result.2.1.inbound.Rests
  found : link.found?.toList = goodFrames new
  delivers : result = link.afterRead.finish app link.found?.isSome
    (link.found?.elim s fun f => s.deliver app f)
  progress : new.length = 1 ∨ result.2.1.line.reads.length < link.line.reads.length ∨
    result.2.1.line.incoming = []
  steadfast : result.2.1.line.Steadfast
  takes : link.line.Takes → result.2.1.line.Takes
  session : link.line.Takes →
    result.2.2 = (link.found?.elim s fun f => s.deliver app f).settled

/-- No failure to read a frame is fatal, since a fault of a frame is none of the line. -/
theorem not_fatal_of_answers {line line' : Line} (hline : line.Steadfast) {taken : Bytes}
    {done new : List Bytes} {answer : Except TransportFailure (Option Frame)}
    (h : Inbound.Answers line line' taken done new answer) {e : TransportFailure}
    (he : answer = .error e) : e.fatal = false := by
  cases h with
  | item hspan =>
    rename_i span _
    cases hdecode : Frame.decode span with
    | ok f => simp [hdecode, Except.map] at he
    | error e' =>
      simp only [hdecode, Except.map, Except.error.injEq] at he
      rcases hspan.decode_error (he ▸ hdecode) with rfl | rfl <;> rfl
  | nothing => cases he
  | failure hreports =>
    obtain rfl := Except.error.inj he
    rcases hreports with hcue | ⟨hclosed, -⟩
    · exact hline.reads _ hcue
    · rw [hline.closed] at hclosed
      cases hclosed

/-- The frame found is the good one among the stretches found. -/
theorem goodFrames_of_answers {line line' : Line} {taken : Bytes} {done new : List Bytes}
    {answer : Except TransportFailure (Option Frame)}
    (h : Inbound.Answers line line' taken done new answer) :
    answer.toOption.join.toList = goodFrames new := by
  cases h with
  | item =>
    rename_i span _ _
    cases hdecode : Frame.decode span <;>
      simp [goodFrames, hdecode, Except.map, Except.toOption]
  | nothing => rfl
  | failure => rfl

/-- The reading half of a round. -/
theorem receive_eq (app : Application η) (link : Link) (s : Session η)
    (h : ∀ e, (link.inbound.readFrame link.line).1 = .error e → e.fatal = false) :
    link.receive app s =
      (.ok link.found?.isSome, link.afterRead, link.found?.elim s fun f => s.deliver app f) := by
  unfold receive found? afterRead
  rcases hread : link.inbound.readFrame link.line with ⟨answer, inbound, line⟩
  rw [hread] at h
  match answer with
  | .ok (some f) => rfl
  | .ok none => rfl
  | .error e =>
    simp only [h e rfl, Bool.false_eq_true, if_false]
    rfl

/-- The writing half of a round. -/
theorem finish_eq {link : Link} (h : link.line.Steadfast) (app : Application η) (busy : Bool)
    (s : Session η) :
    ∃ busy', link.finish app busy s =
      (.ok busy',
        { link with
          outbound := (link.send busy s.expireTimers.outbound).outbound
          line := (link.send busy s.expireTimers.outbound).line },
        { s.expireTimers with outbound := (link.send busy s.expireTimers.outbound).queue }) := by
  obtain ⟨busy', hresult⟩ := (link.send_behaves busy s.expireTimers.outbound).ok h
  refine ⟨busy', ?_⟩
  simp only [finish, hresult]

/-- Every round over a steadfast line is one of the cases. -/
theorem runOnce_round (app : Application η) {link : Link} (hline : link.line.Steadfast)
    (s : Session η) {taken : Bytes} {done : List Bytes}
    (hfollows : link.inbound.Follows taken done) :
    ∃ took new, Round app link s taken done took new (link.runOnce app s) := by
  obtain ⟨took, new, hadv⟩ := link.inbound.readFrame_advances link.line taken done hfollows
  obtain ⟨hwrites, hflushes⟩ := link.inbound.readFrame_output link.line
  have hreceive := receive_eq app link s fun e he => not_fatal_of_answers hline hadv.answers he
  have hfound : link.found?.toList = goodFrames new := goodFrames_of_answers hadv.answers
  have hsteadfast : link.afterRead.line.Steadfast :=
    ⟨hadv.closed.trans hline.closed, fun e he => hline.reads e (hadv.reads.mem he),
      hwrites ▸ hline.writes, hflushes ▸ hline.flushes⟩
  generalize hs : (link.found?.elim s fun f => s.deliver app f) = found at hreceive
  obtain ⟨busy, hfinish⟩ := finish_eq hsteadfast app link.found?.isSome found
  have hbehaves := link.afterRead.send_behaves link.found?.isSome found.expireTimers.outbound
  have hround : link.runOnce app s = link.afterRead.finish app link.found?.isSome found := by
    rw [runOnce, hreceive]
  refine ⟨took, new, ?_⟩
  rw [hround, hfinish]
  exact {
    answer := ⟨busy, rfl⟩
    incoming := hbehaves.wrote.input.incoming ▸ hadv.incoming
    reads := hbehaves.wrote.input.reads ▸ hadv.reads
    follows := hadv.follows
    rests := hadv.rests
    found := hfound
    delivers := hs ▸ hfinish.symm
    progress := hbehaves.wrote.input.incoming ▸ hbehaves.wrote.input.reads ▸ hadv.answers.progress
    steadfast := hbehaves.wrote.steadfast hsteadfast
    takes := fun h => hbehaves.wrote.takes ⟨hwrites.trans h.writes, hflushes.trans h.flushes⟩
    session := fun h => by
      have hqueue := hbehaves.queue ⟨hwrites.trans h.writes, hflushes.trans h.flushes⟩
      rw [hs, Session.settled, ← hqueue] }

end Link

end ZigbeeHost
