import ZigbeeHost.Scenario.Play
import ZigbeeHost.Proofs.Session.Sought
/-!
# The sequence of a bring-up

A bring-up is polled again and again, and between two polls anything may happen to its session :
frames arrive in any order, timers fire, others make calls of their own, the session is torn
down. `BringUp.Course` are the runs that come about in this way, with the calls that were made
and the frames that they queued.

What a poll does is said once (`BringUp.poll_cases`) : nothing, or the end, or one more call.
Each call is made when the one before it has succeeded, and `BringUpStep.plan` has them in
order. So the frames are those of the plan, from its beginning on, and a call that fails is the
last (`BringUp.Course.sequenced`).
-/

namespace ZigbeeHost

variable {η : Type} {config : ToolConfig} {narrator : CallbackId}

/-- What has become of a call, if its operation is decided. -/
def Session.result? (c : Call) (op : OperationId) (s : Session η) :
    Option (Except Failure c.Answer) :=
  (s.outcome? op).map (·.bind c.read)

/-- The result of a call stays. -/
theorem Session.Outlives.result? {s t : Session η} (h : s.Outlives t) {c : Call}
    {op : OperationId} {result : Except Failure c.Answer} (hs : s.result? c op = some result) :
    t.result? c op = some result := by
  obtain ⟨outcome, ho, hread⟩ := Option.map_eq_some_iff.1 hs
  exact Option.map_eq_some_iff.2 ⟨outcome, h op outcome ho, hread⟩

/-- A call that has a result was made. -/
theorem Session.lt_of_result? {s : Session η} {c : Call} {op : OperationId}
    {result : Except Failure c.Answer} (h : s.result? c op = some result) :
    op < s.operations.size := by
  obtain ⟨outcome, ho, -⟩ := Option.map_eq_some_iff.1 h
  obtain ⟨hlt, -⟩ := Array.getElem?_eq_some_iff.1 (Session.outcome?_eq_some_iff.1 ho)
  exact hlt

/-! ## The plan -/

namespace BringUpStep

/-- The frame of a step. -/
def frame (config : ToolConfig) : BringUpStep → Frame
  | reset => ⟨.areq, ⟨.sys, 0x00⟩, [if config.softReset then 1 else 0]⟩
  | ping => ⟨.sreq, ⟨.sys, 0x01⟩, []⟩
  | version => ⟨.sreq, ⟨.sys, 0x02⟩, []⟩
  | state | coordinator => ⟨.sreq, ⟨.sapi, 0x06⟩, [0]⟩
  | startup => ⟨.sreq, ⟨.zdo, 0x40⟩, [100, 0]⟩
  | permitJoin duration => ⟨.sreq, ⟨.zdo, 0x36⟩, [2, 0, 0, duration, 0]⟩

/-- The steps in order. What follows the question for the state depends on the answer. -/
def plan (config : ToolConfig) (reported : Option DeviceState) : List BringUpStep :=
  [reset, ping, version, state] ++
    match reported with
    | none => []
    | some found =>
      (if config.waitForCoordinator = true ∧ found ≠ .zbCoord then [startup, coordinator]
        else []) ++ (config.permitJoin.map permitJoin).toList

/-- The step after another. -/
def next? (config : ToolConfig) (reported : Option DeviceState) : BringUpStep → Option BringUpStep
  | reset => some ping
  | ping => some version
  | version => some state
  | state => reported.bind fun found =>
    if config.waitForCoordinator = true ∧ found ≠ .zbCoord then some startup else last? config
  | startup => some coordinator
  | coordinator => last? config
  | permitJoin _ => none

/-- The last step may fail. -/
def optional : BringUpStep → Bool
  | permitJoin _ => true
  | _ => false

/-- How the bring-up ends with the failure of a step. -/
def complaint (e : Failure) : BringUpStep → String
  | reset => e.under "Reset failed"
  | ping => e.under "Ping failed"
  | version => e.under "Version query failed"
  | coordinator => e.under "Coordinator did not start"
  | state | startup | permitJoin _ => e.fullMessage

/-- The plan goes from each step to the one after it. -/
theorem getElem?_plan_succ (config : ToolConfig) (reported : Option DeviceState) (i : Nat) :
    (plan config reported)[i + 1]? = (plan config reported)[i]?.bind (next? config reported) := by
  cases reported with
  | none => rcases i with _ | _ | _ | _ | i <;> simp [plan, next?]
  | some found =>
    by_cases hwait : config.waitForCoordinator = true ∧ found ≠ .zbCoord <;>
      cases hlast : config.permitJoin <;>
      rcases i with _ | _ | _ | _ | _ | _ | _ | i <;>
      simp [plan, next?, last?, hlast, hwait]

variable {before : List BringUpStep} {reported : Option DeviceState} {step step' : BringUpStep}

/-- What comes next is the plan's next step. -/
theorem plan_extends (h : before ++ [step] <+: plan config reported)
    (hnext : next? config reported step = some step') :
    before ++ [step] ++ [step'] <+: plan config reported := by
  obtain ⟨behind, hplan⟩ := h
  have hsucc := getElem?_plan_succ config reported before.length
  have hfollows : behind[0]? = some step' := by
    rw [← hplan] at hsucc
    simpa [hnext, List.getElem?_append_right] using hsucc
  obtain ⟨rest, rfl⟩ : ∃ rest, behind = step' :: rest := by
    cases behind with
    | nil => cases hfollows
    | cons first rest => exact ⟨rest, by simpa using hfollows⟩
  exact ⟨rest, by rw [← hplan, List.append_assoc _ [step'], List.singleton_append]⟩

/-- Where nothing comes next, the plan is at its end. -/
theorem plan_ends (h : before ++ [step] <+: plan config reported)
    (hnext : next? config reported step = none) : before ++ [step] = plan config reported := by
  obtain ⟨behind, hplan⟩ := h
  have hsucc := getElem?_plan_succ config reported before.length
  have hnone : behind[0]? = none := by
    rw [← hplan] at hsucc
    simpa [hnext, List.getElem?_append_right] using hsucc
  cases behind with
  | nil => rw [← hplan, List.append_nil]
  | cons first rest => cases hnone

/-- Without an answer to the question for the state, the plan ends with it. -/
theorem eq_state_of_next?_none (h : before ++ [step] <+: plan config none)
    (hnext : next? config none step = none) : step = state := by
  have hlast := congrArg List.getLast? (plan_ends h hnext)
  simpa [plan] using hlast

/-- The device's state is asked for once, in the fourth place. -/
theorem getElem?_plan_state {i : Nat} (h : (plan config reported)[i]? = some state) : i = 3 := by
  revert h
  cases reported with
  | none => rcases i with _ | _ | _ | _ | i <;> simp [plan]
  | some found =>
    by_cases hwait : config.waitForCoordinator = true ∧ found ≠ .zbCoord <;>
      cases hlast : config.permitJoin <;>
      rcases i with _ | _ | _ | _ | _ | _ | _ | i <;>
      simp [plan, hlast, hwait]

/-- Up to the question for the state, the plan does not depend on the answer. -/
theorem plan_state_prefix (h : before ++ [state] <+: plan config reported)
    (reported' : Option DeviceState) : before ++ [state] <+: plan config reported' := by
  have hthird : before.length = 3 := by
    obtain ⟨behind, hplan⟩ := h
    have hstate : (plan config reported)[before.length]? = some state := by
      rw [← hplan]
      simp
    exact getElem?_plan_state hstate
  have htake := List.prefix_iff_eq_take.1 h
  have hfour : (before ++ [state]).length = 4 := by simp [hthird]
  rw [hfour] at htake
  rw [htake]
  exact List.take_prefix 4 (plan config reported')

/-- What follows from the outcome of a step : the end, with the failure of a step that must not
fail; the end, with a note of the failure of the last step; or the next step of the plan. -/
theorem next_cases (config : ToolConfig) (step : BringUpStep) (outcome : Except Failure Outcome) :
    (∃ e, outcome.bind (step.call config).read = .error e ∧ step.optional = false ∧
      step.next config outcome = .error (step.complaint e)) ∨
    (∃ e note, outcome.bind (step.call config).read = .error e ∧ step.optional = true ∧
      step.next config outcome = .ok (note, none)) ∨
    ∃ answer note, ∃ told : Option DeviceState,
      outcome.bind (step.call config).read = .ok answer ∧
      (step = state →
        ∃ found, told = some found ∧ outcome.bind (state.call config).read = .ok found) ∧
      ∀ reported, (step = state → reported = told) →
        step.next config outcome = .ok (note, next? config reported step) := by
  cases step with
  | permitJoin duration =>
    simp only [next]
    split
    · rename_i e hread
      exact .inr (.inl ⟨e, _, hread, rfl, rfl⟩)
    · rename_i answer hread
      exact .inr (.inr ⟨answer, _, none, hread, (fun hstep => by cases hstep), fun _ _ => rfl⟩)
  | state =>
    simp only [next]
    split
    · rename_i e hread
      exact .inl ⟨e, hread, rfl, rfl⟩
    · rename_i found hread
      refine .inr (.inr ⟨found, { text := "Current state: " ++ found.name }, some found, hread, ?_,
        fun reported hreported => ?_⟩)
      · exact fun _ => ⟨found, rfl, hread⟩
      · rw [hreported trivial]
        simp [next?]
  | _ =>
    simp only [next]
    split
    · rename_i e hread
      exact .inl ⟨e, hread, rfl, rfl⟩
    · rename_i answer hread
      exact .inr (.inr ⟨answer, _, none, hread, (fun hstep => by cases hstep), fun _ _ => rfl⟩)

/-- No call of a bring-up is refused, and each queues its frame. -/
theorem call_eq (config : ToolConfig) (step : BringUpStep) (s : Session η) :
    (s.call (step.call config)).1 = .ok s.issue.1 ∧
      (s.call (step.call config)).2.outbound = s.outbound ++ [step.frame config] := by
  cases step with
  | reset =>
    have hflag : Codec.flag.write config.softReset = [if config.softReset then 1 else 0] := by
      cases config.softReset <;> rfl
    refine ⟨rfl, ?_⟩
    rw [frame, ← hflag]
    rfl
  | permitJoin duration =>
    have hbyte : Codec.u8.write duration = [duration] := by
      simp [Codec.u8, Codec.word, littleEndian]
    have hpayload : (NetworkRequest.permitJoin .shortAddress 0 duration 0).payload =
        [2, 0, 0, duration, 0] := by
      simp only [NetworkRequest.payload, Codec.pair, hbyte]
      rfl
    have hrequest : s.call ((permitJoin duration).call config) =
        s.exchange { command := ⟨.zdo, 0x36⟩, responses := [⟨.zdo, 0x36⟩],
                     payload := [2, 0, 0, duration, 0],
                     confirmation := some ⟨⟨.zdo, 0xB6⟩, none, []⟩ } := by
      rw [← hpayload]
      rfl
    rw [hrequest]
    exact ⟨rfl, rfl⟩
  | _ => exact ⟨rfl, rfl⟩

end BringUpStep

namespace BringUp

variable {b : BringUp} {s t u : Session η}

/-! ## Polls -/

theorem make_eq (config : ToolConfig) (step : BringUpStep) (s : Session η) :
    make config step s = (waiting step s.issue.1, (s.call (step.call config)).2) := by
  have hmade := (step.call_eq config s).1
  unfold make
  generalize s.call (step.call config) = started at hmade
  obtain ⟨outcome, t⟩ := started
  obtain rfl : outcome = .ok s.issue.1 := hmade
  rfl

/-- To begin with, an event handler is subscribed and the first request is made. -/
theorem poll_ready (config : ToolConfig) (narrator : CallbackId) (s : Session η) :
    ready.poll config narrator s = (waiting .reset (narrate narrator s).issue.1,
      ((narrate narrator s).call (BringUpStep.reset.call config)).2, []) := by
  simp only [poll, make_eq]

/-- What a bring-up does that waits for a step : nothing as long as the step is undecided, else
what follows from its outcome. -/
theorem poll_cases (config : ToolConfig) (narrator : CallbackId) (step : BringUpStep)
    (op : OperationId) (s : Session η) :
    (s.result? (step.call config) op = none ∧
      (waiting step op).poll config narrator s = (waiting step op, s, [])) ∨
    (∃ e, s.result? (step.call config) op = some (.error e) ∧ step.optional = false ∧
      (waiting step op).poll config narrator s = (failed (step.complaint e), s, [])) ∨
    (∃ e note, s.result? (step.call config) op = some (.error e) ∧ step.optional = true ∧
      (waiting step op).poll config narrator s = (up, s, [note])) ∨
    ∃ answer note, ∃ told : Option DeviceState,
      s.result? (step.call config) op = some (.ok answer) ∧
      (step = .state → ∃ found, told = some found ∧
        s.result? (BringUpStep.state.call config) op = some (.ok found)) ∧
      ∀ reported, (step = .state → reported = told) →
        (waiting step op).poll config narrator s =
          match step.next? config reported with
          | none => (up, s, [note])
          | some step => (waiting step s.issue.1, (s.call (step.call config)).2, [note]) := by
  simp only [poll]
  cases ho : s.outcome? op with
  | none => exact .inl ⟨by simp [Session.result?, ho], rfl⟩
  | some outcome =>
    have hresult (c : Call) : s.result? c op = some (outcome.bind c.read) := by
      simp [Session.result?, ho]
    simp only [hresult, Option.some.injEq, reduceCtorEq, false_and, false_or]
    rcases step.next_cases config outcome with ⟨e, hread, hoptional, hnext⟩ |
      ⟨e, note, hread, hoptional, hnext⟩ | ⟨answer, note, told, hread, htold, hnext⟩
    · exact .inl ⟨e, hread, hoptional, by rw [hnext]⟩
    · exact .inr (.inl ⟨e, note, hread, hoptional, by rw [hnext]⟩)
    · refine .inr (.inr ⟨answer, note, told, hread, htold, fun reported hreported => ?_⟩)
      rw [hnext reported hreported]
      cases step.next? config reported with
      | none => rfl
      | some step' => simp only [make_eq]

/-- Taking notes of what the network reports queues nothing. -/
theorem narrate_outbound (narrator : CallbackId) (s : Session η) :
    (narrate narrator s).outbound = s.outbound :=
  List.foldlRecOn _ _ (motive := fun t : Session η => t.outbound = s.outbound) rfl
    fun _ ht _ _ => ht

/-- A step calls an operation of the session, and does nothing else with it. -/
theorem call_uses (config : ToolConfig) (step : BringUpStep) (s : Session η) :
    Uses {} s [] (s.call (step.call config)).2 := by
  refine (Uses.refl s).deed (.silent fun _ => trivial) (d := .call (step.call config))
    ⟨trivial, ?_⟩ trivial
  cases step <;> trivial

theorem narrate_uses (narrator : CallbackId) (s : Session η) :
    Uses {} s [] (narrate narrator s) :=
  List.foldlRecOn _ _ (motive := fun t => Uses {} s [] t) (.refl s) fun _ ht event _ =>
    ht.deed (.silent fun _ => trivial) (d := .subscribe event narrator) ⟨trivial, trivial⟩ trivial

/-- A poll leaves the session alone, or it makes a call, since what it waited for succeeded. The
first poll subscribes before. -/
theorem poll_session (config : ToolConfig) (narrator : CallbackId) (b : BringUp) (s : Session η) :
    (b.poll config narrator s).2.1 = s ∨
      (∀ step op, b = waiting step op →
        ∃ answer, s.result? (step.call config) op = some (.ok answer)) ∧
      ∃ (step : BringUpStep) (t : Session η), Uses {} s [] t ∧ t.outbound = s.outbound ∧
        (b.poll config narrator s).2.1 = (t.call (step.call config)).2 := by
  cases b with
  | ready =>
    refine .inr ⟨nofun, .reset, narrate narrator s, narrate_uses narrator s,
      narrate_outbound narrator s, ?_⟩
    rw [poll_ready]
  | waiting step op =>
    rcases poll_cases config narrator step op s with ⟨-, heq⟩ | ⟨e, -, -, heq⟩ |
      ⟨e, note, -, -, heq⟩ | ⟨answer, note, told, hanswer, -, heq⟩
    · exact .inl (congrArg (·.2.1) heq)
    · exact .inl (congrArg (·.2.1) heq)
    · exact .inl (congrArg (·.2.1) heq)
    · rw [heq told fun _ => rfl]
      cases step.next? config told with
      | none => exact .inl rfl
      | some step' =>
        refine .inr ⟨?_, step', s, .refl s, rfl, rfl⟩
        rintro _ _ ⟨⟩
        exact ⟨answer, hanswer⟩
  | up => exact .inl rfl
  | failed message => exact .inl rfl

/-- A poll uses the session as anybody may. -/
theorem poll_uses (config : ToolConfig) (narrator : CallbackId) (b : BringUp) (s : Session η) :
    Uses {} s [] (b.poll config narrator s).2.1 := by
  rcases poll_session config narrator b s with hsame | ⟨-, step, t, huses, -, hcall⟩
  · rw [hsame]
    exact .refl s
  · rw [hcall]
    exact huses.trans (call_uses config step t)

/-! ## Courses -/

/-- A call that was made. -/
structure Made where
  step : BringUpStep
  operation : OperationId
  deriving DecidableEq

/-- The call that a poll made : the one that is waited for after it, and was not before. -/
def made? (before after : BringUp) : Option Made :=
  match after with
  | waiting step op => if after = before then none else some ⟨step, op⟩
  | _ => none

/-- A bring-up goes on from `b` in the session `s` : it is polled, and between polls the session
is used in any way. The course keeps the calls that were made and the frames that were queued
for them. -/
inductive Course (config : ToolConfig) (narrator : CallbackId) (b : BringUp) (s : Session η) :
    List Made → List Frame → BringUp → Session η → Prop
  | start : Course config narrator b s [] [] b s
  | meanwhile {calls : List Made} {frames : List Frame} {b' : BringUp} {t u : Session η} :
      Course config narrator b s calls frames b' t → Uses {} t [] u →
      Course config narrator b s calls frames b' u
  | poll {calls : List Made} {frames : List Frame} {b' : BringUp} {t : Session η} :
      Course config narrator b s calls frames b' t →
      Course config narrator b s
        (calls ++ (made? b' (b'.poll config narrator t).1).toList)
        (frames ++ (b'.poll config narrator t).2.1.outbound.drop t.outbound.length)
        (b'.poll config narrator t).1 (b'.poll config narrator t).2.1

/-- The call succeeded. -/
def Succeeded (config : ToolConfig) (s : Session η) (c : Made) : Prop :=
  ∃ answer, s.result? (c.step.call config) c.operation = some (.ok answer)

/-- The call failed. -/
def Fails (config : ToolConfig) (s : Session η) (e : Failure) (c : Made) : Prop :=
  s.result? (c.step.call config) c.operation = some (.error e)

/-- The device told its state when it was asked for it. -/
def Reported (config : ToolConfig) (s : Session η) (calls : List Made) (found : DeviceState) :
    Prop :=
  ∃ op, ⟨.state, op⟩ ∈ calls ∧
    s.result? (BringUpStep.state.call config) op = some (.ok found)

variable {calls calls' : List Made} {frames frames' : List Frame} {b' : BringUp}

theorem Course.uses (h : Course config narrator b s calls frames b' t) : Uses {} s [] t := by
  induction h with
  | start => exact .refl s
  | meanwhile _ hbetween ih => exact ih.trans hbetween
  | poll _ ih => exact ih.trans (poll_uses ..)

/-- What succeeded has succeeded for good. -/
theorem Succeeded.mono {c : Made} (h : Succeeded config s c) (hst : s.Outlives t) :
    Succeeded config t c :=
  h.imp fun _ => hst.result?

theorem Reported.mono {found : DeviceState} (h : Reported config s calls found)
    (hst : s.Outlives t) (hsub : calls ⊆ calls') : Reported config t calls' found :=
  h.imp fun _ hop => ⟨hsub hop.1, hst.result? hop.2⟩

/-! ## What holds on the way -/

/-- How a bring-up stands, by the calls that it made. -/
inductive Standing (config : ToolConfig) (s : Session η) : List Made → BringUp → Prop
  | ready : Standing config s [] .ready
  | waiting {before : List Made} {c : Made} : (∀ c ∈ before, Succeeded config s c) →
      Standing config s (before ++ [c]) (.waiting c.step c.operation)
  | up {before : List Made} {c : Made} {found : DeviceState} :
      (∀ c ∈ before, Succeeded config s c) →
      Succeeded config s c ∨ c.step.optional = true ∧ (∃ e, Fails config s e c) →
      Reported config s (before ++ [c]) found →
      (before ++ [c]).map Made.step = BringUpStep.plan config (some found) →
      Standing config s (before ++ [c]) .up
  | failed {before : List Made} {c : Made} {e : Failure} : (∀ c ∈ before, Succeeded config s c) →
      c.step.optional = false → Fails config s e c →
      Standing config s (before ++ [c]) (.failed (c.step.complaint e))

/-- The calls of a bring-up are those of the plan, and the frames are theirs. Whoever may complete
the wait for the coordinator looks for it. -/
structure Traced (config : ToolConfig) (calls : List Made) (frames : List Frame) (b : BringUp)
    (s : Session η) : Prop where
  sound : Sound {} [] [] s
  frames_eq : frames = calls.map (·.step.frame config)
  planned : ∃ reported, (∀ found, reported = some found → Reported config s calls found) ∧
    calls.map Made.step <+: BringUpStep.plan config reported
  standing : Standing config s calls b
  seeks : ∀ c ∈ calls, c.step = .coordinator → Session.Seeks [.zbCoord] c.operation [] s

/-- A standing outlasts whatever is done with the session meanwhile. -/
theorem Standing.mono (h : Standing config s calls b) (hst : s.Outlives t) :
    Standing config t calls b := by
  cases h with
  | ready => exact .ready
  | waiting hbefore => exact .waiting fun c hc => (hbefore c hc).mono hst
  | up hbefore hlast hreported hplan =>
    refine .up (fun c hc => (hbefore c hc).mono hst) ?_ (hreported.mono hst (List.Subset.refl _))
      hplan
    exact hlast.imp (·.mono hst) fun ⟨hoptional, e, hfails⟩ => ⟨hoptional, e, hst.result? hfails⟩
  | failed hbefore hneeded hfails =>
    exact .failed (fun c hc => (hbefore c hc).mono hst) hneeded (hst.result? hfails)

namespace Traced

/-- What a bring-up has done stays true while others use the session. -/
theorem mono (h : Traced config calls frames b s) (hst : Uses {} s [] t) :
    Traced config calls frames b t where
  sound := hst.keeps (Session.upholds_kept _) [] [] h.sound
  frames_eq := h.frames_eq
  planned := h.planned.imp fun _ hr =>
    ⟨fun found hfound => (hr.1 found hfound).mono hst.outlives (List.Subset.refl _), hr.2⟩
  standing := h.standing.mono hst.outlives
  seeks c hc hstep := hst.pursues [] (h.seeks c hc hstep)

/-- One more call of the plan is made when all before it have succeeded. -/
theorem make {step : BringUpStep} {reported : Option DeviceState}
    (h : Traced config calls frames b s) (hall : ∀ c ∈ calls, Succeeded config s c)
    (hreported : ∀ found, reported = some found → Reported config s calls found)
    (hplan : calls.map Made.step ++ [step] <+: BringUpStep.plan config reported) :
    Traced config (calls ++ [⟨step, s.issue.1⟩]) (frames ++ [step.frame config])
      (.waiting step s.issue.1) (s.call (step.call config)).2 := by
  have hcall : Uses {} s [] (s.call (step.call config)).2 := call_uses config step s
  have ht := h.mono hcall
  refine { sound := ht.sound, frames_eq := ?_, planned := ?_, standing := ?_, seeks := ?_ }
  · rw [h.frames_eq, List.map_append]
    rfl
  · refine ⟨reported, fun found hfound => ?_, by rwa [List.map_append]⟩
    exact (hreported found hfound).mono hcall.outlives (List.subset_append_left ..)
  · exact .waiting (c := ⟨step, s.issue.1⟩) fun c hc => (hall c hc).mono hcall.outlives
  · intro c hc hstep
    rcases List.mem_append.1 hc with hc | hc
    · exact ht.seeks c hc hstep
    · obtain rfl := List.mem_singleton.1 hc
      obtain rfl : step = .coordinator := hstep
      exact h.sound.seeks [.zbCoord] BringUpStep.startingStates

/-- A bring-up is up when no step of the plan is left. -/
theorem finish {before : List Made} {c : Made} {reported : Option DeviceState}
    (h : Traced config (before ++ [c]) frames b s) (hbefore : ∀ c ∈ before, Succeeded config s c)
    (hlast : Succeeded config s c ∨ c.step.optional = true ∧ ∃ e, Fails config s e c)
    (hreported : ∀ found, reported = some found → Reported config s (before ++ [c]) found)
    (hplan : before.map Made.step ++ [c.step] <+: BringUpStep.plan config reported)
    (hnext : c.step.next? config reported = none) (htold : c.step = .state → reported ≠ none) :
    Traced config (before ++ [c]) frames .up s := by
  cases reported with
  | none => exact absurd rfl (htold (BringUpStep.eq_state_of_next?_none hplan hnext))
  | some found =>
    have hwhole : (before ++ [c]).map Made.step = BringUpStep.plan config (some found) := by
      rw [← BringUpStep.plan_ends hplan hnext, List.map_append]
      rfl
    exact { h with standing := .up hbefore hlast (hreported found rfl) hwhole }

/-- When a step succeeded, the plan goes on as its answer says : the answer to the question for
the state decides what is behind it. -/
theorem goes_on {before : List Made} {c : Made} {told : Option DeviceState}
    (h : Traced config (before ++ [c]) frames b s)
    (htold : c.step = .state → ∃ found, told = some found ∧
      s.result? (BringUpStep.state.call config) c.operation = some (.ok found)) :
    ∃ reported, (c.step = .state → reported = told) ∧
      (∀ found, reported = some found → Reported config s (before ++ [c]) found) ∧
      before.map Made.step ++ [c.step] <+: BringUpStep.plan config reported := by
  obtain ⟨reported, hreported, hplanned⟩ := h.planned
  rw [List.map_append, List.map_singleton] at hplanned
  by_cases hstate : c.step = .state
  · refine ⟨told, fun _ => rfl, fun found hfound => ?_, ?_⟩
    · obtain ⟨found', htold', hanswer⟩ := htold hstate
      obtain rfl : found' = found := Option.some.inj (htold'.symm.trans hfound)
      exact ⟨c.operation, by simp [← hstate], hanswer⟩
    · rw [hstate] at hplanned ⊢
      exact BringUpStep.plan_state_prefix hplanned told
  · exact ⟨reported, fun h => absurd h hstate, hreported, hplanned⟩

/-- A poll changes nothing, ends the bring-up, or makes the next call of the plan. -/
theorem poll (h : Traced config calls frames b s) :
    Traced config (calls ++ (made? b (b.poll config narrator s).1).toList)
      (frames ++ (b.poll config narrator s).2.1.outbound.drop s.outbound.length)
      (b.poll config narrator s).1 (b.poll config narrator s).2.1 := by
  have hqueued (step : BringUpStep) (t : Session η) :
      (t.call (step.call config)).2.outbound.drop t.outbound.length = [step.frame config] := by
    rw [(step.call_eq config t).2, List.drop_left]
  cases hstanding : h.standing with
  | ready =>
    have hnarrated := h.mono (narrate_uses narrator s)
    have hfirst : [BringUpStep.reset] <+: BringUpStep.plan config none := ⟨_, rfl⟩
    have hunknown (found : DeviceState) (hfound : none = some found) :
        Reported config (narrate narrator s) [] found := nomatch hfound
    rw [poll_ready]
    simp only [← narrate_outbound narrator s, hqueued]
    exact hnarrated.make nofun hunknown hfirst
  | @waiting before c hbefore =>
    rcases poll_cases config narrator c.step c.operation s with ⟨-, heq⟩ |
      ⟨e, hfails, hneeded, heq⟩ | ⟨e, note, hfails, hoptional, heq⟩ |
      ⟨answer, note, told, hanswer, htold, heq⟩
    · simpa [heq, made?] using h
    · have hfailed := Standing.failed hbefore hneeded hfails
      simpa [heq, made?] using { h with standing := hfailed }
    · obtain ⟨duration, hstep⟩ : ∃ duration, c.step = .permitJoin duration := by
        cases hstep : c.step <;> simp_all [BringUpStep.optional]
      obtain ⟨reported, hreported, hplanned⟩ := h.planned
      rw [List.map_append, List.map_singleton] at hplanned
      have hup := h.finish hbefore (.inr ⟨hoptional, e, hfails⟩) hreported hplanned
        (by rw [hstep]; rfl) (by simp [hstep])
      simpa [heq, made?] using hup
    · obtain ⟨reported, hsame, hreported, hplanned⟩ := h.goes_on htold
      rw [heq reported hsame]
      cases hnext : c.step.next? config reported with
      | none =>
        have hknown : c.step = .state → reported ≠ none := fun hstate => by
          obtain ⟨found, hfound, -⟩ := htold hstate
          simp [hsame hstate, hfound]
        have hup := h.finish hbefore (.inl ⟨answer, hanswer⟩) hreported hplanned hnext hknown
        simpa [made?] using hup
      | some step =>
        have hother : BringUp.waiting step s.issue.1 ≠ .waiting c.step c.operation := fun hsame =>
          Nat.ne_of_gt (Session.lt_of_result? hanswer) (BringUp.waiting.inj hsame).2
        have hmade : made? (.waiting c.step c.operation) (.waiting step s.issue.1) =
            some ⟨step, s.issue.1⟩ := if_neg hother
        have hall : ∀ d ∈ before ++ [c], Succeeded config s d := fun d hd =>
          (List.mem_append.1 hd).elim (hbefore d) fun hd =>
            List.mem_singleton.1 hd ▸ ⟨answer, hanswer⟩
        simp only [hmade, hqueued]
        refine h.make hall hreported ?_
        rw [List.map_append, List.map_singleton]
        exact BringUpStep.plan_extends hplanned hnext
  | up => simpa [BringUp.poll, made?] using h
  | failed => simpa [BringUp.poll, made?] using h

end Traced

/-- A course from the beginning leads to what its bring-up has done. -/
theorem Course.traced (hs : Reachable {} s) (h : Course config narrator .ready s calls frames b t) :
    Traced config calls frames b t := by
  induction h with
  | start =>
    exact { sound := hs.sound, frames_eq := rfl, planned := ⟨none, nofun, List.nil_prefix⟩,
            standing := .ready, seeks := nofun }
  | meanwhile _ hbetween ih => exact ih.mono hbetween
  | poll _ ih => exact ih.poll

/-! ## What becomes of a bring-up -/

/-- Once it has failed or is up, a bring-up stays so and queues nothing. -/
theorem Course.of_ended (hb : b = .up ∨ ∃ message, b = .failed message)
    (h : Course config narrator b s calls frames b' t) : calls = [] ∧ frames = [] ∧ b' = b := by
  induction h with
  | start => exact ⟨rfl, rfl, rfl⟩
  | meanwhile _ _ ih => exact ih
  | poll _ ih =>
    obtain ⟨rfl, rfl, rfl⟩ := ih
    rcases hb with rfl | ⟨message, rfl⟩ <;> simp [BringUp.poll, made?]

/-- A step that is needed ends the bring-up if it fails. -/
theorem poll_of_fails {c : Made} {e : Failure} (hneeded : c.step.optional = false)
    (hfails : Fails config s e c) : (waiting c.step c.operation).poll config narrator s =
      (failed (c.step.complaint e), s, []) := by
  unfold Fails at hfails
  rcases poll_cases config narrator c.step c.operation s with ⟨hnone, -⟩ | ⟨e', herror, -, heq⟩ |
    ⟨e', note, -, hoptional, -⟩ | ⟨answer, note, told, hanswer, -⟩
  · simp [hnone] at hfails
  · obtain rfl : e' = e := by simpa [herror] using hfails
    exact heq
  · simp [hneeded] at hoptional
  · simp [hanswer] at hfails

/-- A step that is optional does not. -/
theorem poll_of_spared {c : Made} {e : Failure} (hoptional : c.step.optional = true)
    (hfails : Fails config s e c) :
    ((waiting c.step c.operation).poll config narrator s).1 = up := by
  unfold Fails at hfails
  rcases poll_cases config narrator c.step c.operation s with ⟨hnone, -⟩ | ⟨e', -, hneeded, -⟩ |
    ⟨e', note, -, -, heq⟩ | ⟨answer, note, told, hanswer, -⟩
  · simp [hnone] at hfails
  · simp [hoptional] at hneeded
  · rw [heq]
  · simp [hanswer] at hfails

/-- When a step failed that must not fail, nothing more is queued, and the failure is how the
bring-up ends. -/
theorem Course.of_fails {c : Made} {e : Failure} (hneeded : c.step.optional = false)
    (hfails : Fails config s e c)
    (h : Course config narrator (.waiting c.step c.operation) s calls frames b t) :
    calls = [] ∧ frames = [] ∧
      (b = .waiting c.step c.operation ∨ b = .failed (c.step.complaint e)) := by
  induction h with
  | start => exact ⟨rfl, rfl, .inl rfl⟩
  | meanwhile _ _ ih => exact ih
  | @poll calls frames b' t hcourse ih =>
    obtain ⟨rfl, rfl, rfl | rfl⟩ := ih
    · have hstill : Fails config t e c := hcourse.uses.outlives.result? hfails
      simp [poll_of_fails hneeded hstill, made?]
    · simp [BringUp.poll, made?]

/-- The calls and frames of a bring-up so far, and how it goes on. -/
structure Sequenced (config : ToolConfig) (narrator : CallbackId) (calls : List Made)
    (frames : List Frame) (b : BringUp) (s : Session η) : Prop where
  /-- The frames are those of the calls. -/
  frames_eq : frames = calls.map (·.step.frame config)
  /-- The calls are those of the plan, from its beginning on, and the plan depends on the state
  that the device reported. -/
  planned : ∃ reported, (∀ found, reported = some found → Reported config s calls found) ∧
    calls.map Made.step <+: BringUpStep.plan config reported
  /-- A poll puts its frame behind those that are queued. -/
  appends : s.outbound <+: (b.poll config narrator s).2.1.outbound
  /-- A poll that queues a frame does so since all calls before succeeded. -/
  in_turn : (b.poll config narrator s).2.1.outbound ≠ s.outbound →
    ∀ c ∈ calls, Succeeded config s c
  /-- The wait for the coordinator succeeds when the device is the coordinator. -/
  reached : ∀ c ∈ calls, c.step = .coordinator → Succeeded config s c →
    s.outcome? c.operation = some (.ok (.state .zbCoord))
  /-- The failure of a step before the last one is the end, and nothing is queued any more. -/
  fails : ∀ c ∈ calls, ∀ e, c.step.optional = false → Fails config s e c →
    (b.poll config narrator s).1 = .failed (c.step.complaint e) ∧
      ∀ calls' frames' b' (t : Session η), Course config narrator b s calls' frames' b' t →
        calls' = [] ∧ frames' = [] ∧ (b' = b ∨ b' = .failed (c.step.complaint e))
  /-- There is no other reason to fail. -/
  failed : ∀ message, b = .failed message →
    ∃ c ∈ calls, ∃ e, c.step.optional = false ∧ Fails config s e c ∧
      message = c.step.complaint e
  /-- When the last step failed, the network is up nevertheless. -/
  spares : ∀ c ∈ calls, ∀ e, c.step.optional = true → Fails config s e c →
    (b.poll config narrator s).1 = .up
  /-- A network is up when the whole plan is done, and stays so for ever. -/
  up : b = .up →
    (∃ found, Reported config s calls found ∧
      calls.map Made.step = BringUpStep.plan config (some found)) ∧
    (∀ c ∈ calls, c.step.optional = false → Succeeded config s c) ∧
    ∀ calls' frames' b' (t : Session η), Course config narrator b s calls' frames' b' t →
      calls' = [] ∧ frames' = [] ∧ b' = .up

/-- A call has one result. -/
theorem not_succeeded {c : Made} {e : Failure} (hfails : Fails config s e c) :
    ¬ Succeeded config s c := by
  rintro ⟨answer, hanswer⟩
  unfold Fails at hfails
  simp [hanswer] at hfails

/-- Only the last call can have failed. -/
theorem eq_last {before : List Made} {c last : Made} {e : Failure}
    (hbefore : ∀ c ∈ before, Succeeded config s c) (hc : c ∈ before ++ [last])
    (hfails : Fails config s e c) : c = last :=
  (List.mem_append.1 hc).elim (fun hc => absurd (hbefore c hc) (not_succeeded hfails))
    List.mem_singleton.1

/-- All that is known of a bring-up follows from how it stands. -/
theorem Traced.toSequenced (h : Traced config calls frames b s) :
    Sequenced config narrator calls frames b s where
  frames_eq := h.frames_eq
  planned := h.planned
  appends := by
    rcases poll_session config narrator b s with hsame | ⟨-, step, t, -, houtbound, hcall⟩
    · simp only [hsame, List.prefix_refl]
    · rw [hcall, (step.call_eq config t).2, houtbound]
      exact List.prefix_append ..
  in_turn hqueues := by
    rcases poll_session config narrator b s with hsame | ⟨hwaited, -⟩
    · exact absurd (congrArg Session.outbound hsame) hqueues
    · cases hstanding : h.standing with
      | ready => exact nofun
      | waiting hbefore =>
        intro c hc
        rcases List.mem_append.1 hc with hc | hc
        · exact hbefore c hc
        · exact List.mem_singleton.1 hc ▸ hwaited _ _ rfl
      | up | failed => exact absurd rfl hqueues
  reached c hc hstep := by
    rintro ⟨answer, hanswer⟩
    obtain ⟨outcome, ho, hread⟩ := Option.map_eq_some_iff.1 hanswer
    have hreaches := (h.seeks c hc hstep).outcome outcome ho
    cases outcome with
    | error e => cases hread
    | ok v =>
      obtain ⟨state, hmem, rfl⟩ := hreaches v rfl
      obtain rfl := List.mem_singleton.1 hmem
      exact ho
  fails c hc e hneeded hfails := by
    cases hstanding : h.standing with
    | ready => cases hc
    | waiting hbefore =>
      obtain rfl := eq_last hbefore hc hfails
      rw [poll_of_fails hneeded hfails]
      exact ⟨rfl, fun _ _ _ _ hcourse => hcourse.of_fails hneeded hfails⟩
    | up hbefore hlast =>
      obtain rfl := eq_last hbefore hc hfails
      rcases hlast with hsucceeded | ⟨hoptional, -⟩
      · exact absurd hsucceeded (not_succeeded hfails)
      · simp [hneeded] at hoptional
    | @failed before last e' hbefore _ hfails' =>
      obtain rfl := eq_last hbefore hc hfails
      obtain rfl : e = e' := by simpa using hfails.symm.trans hfails'
      refine ⟨rfl, fun _ _ _ _ hcourse => ?_⟩
      obtain ⟨hcalls, hframes, hb⟩ := hcourse.of_ended (.inr ⟨_, rfl⟩)
      exact ⟨hcalls, hframes, .inl hb⟩
  failed message hb := by
    subst hb
    cases hstanding : h.standing with
    | failed hbefore hneeded hfails =>
      exact ⟨_, List.mem_append_right _ (List.mem_singleton.2 rfl), _, hneeded, hfails, rfl⟩
  spares c hc e hoptional hfails := by
    cases hstanding : h.standing with
    | ready => cases hc
    | waiting hbefore =>
      obtain rfl := eq_last hbefore hc hfails
      exact poll_of_spared hoptional hfails
    | up hbefore hlast => rfl
    | failed hbefore hneeded hfails' =>
      obtain rfl := eq_last hbefore hc hfails
      simp [hneeded] at hoptional
  up hb := by
    subst hb
    cases hstanding : h.standing with
    | @up before last found hbefore hlast hreported hplan =>
      refine ⟨⟨found, hreported, hplan⟩, fun c hc hneeded => ?_,
        fun _ _ _ _ hcourse => hcourse.of_ended (.inl rfl)⟩
      rcases List.mem_append.1 hc with hc | hc
      · exact hbefore c hc
      · obtain rfl := List.mem_singleton.1 hc
        refine hlast.resolve_right ?_
        rintro ⟨hoptional, -⟩
        simp [hneeded] at hoptional

/-- **The sequence of a bring-up.** Whatever happens to the session between polls, the calls and
frames of a bring-up are those of the plan, from its beginning on, each after all before it
succeeded. A failure before the last step is the end. No poll ends it otherwise : who polls it in
a scenario is told of failures only. -/
theorem Course.sequenced (hs : Reachable {} s)
    (h : Course config narrator .ready s calls frames b t) :
    Sequenced config narrator calls frames b t ∧
      ∀ (scene : Scenario.Scene) (id : Nat) (report : Scenario.Report),
        scene.host.calls[id]? = some (.bringingUp config narrator b) →
        (Scenario.poll id scene).1 = some report →
        ∃ message, report.finding = .bringUpFailed message ∧
          (b.poll config narrator scene).1 = .failed message := by
  refine ⟨(h.traced hs).toSequenced, fun scene id report hcall hreport => ?_⟩
  simp only [Scenario.poll, hcall] at hreport
  split at hreport
  · rename_i message hfailed
    cases hreport
    exact ⟨message, rfl, hfailed⟩
  · cases hreport

/-- A bring-up in a new session has reset the device, and the device reports so. -/
def rebooted (config : ToolConfig) : Session Unit :=
  (ready.poll config 0 (.start {} ())).2.1.deliver .silent
    ⟨.areq, Event.reset.command, [0, 2, 1, 2, 7, 1]⟩

/-- When the device has reported its reset, it is pinged. -/
theorem pinged_when_rebooted :
    Sequenced { device := "" } 0 [⟨.reset, 0⟩, ⟨.ping, 1⟩]
      [⟨.areq, ⟨.sys, 0x00⟩, [0]⟩, ⟨.sreq, ⟨.sys, 0x01⟩, []⟩] (.waiting .ping 1)
      ((waiting .reset 0).poll { device := "" } 0 (rebooted { device := "" })).2.1 := by
  have hdeliver (t : Session Unit) (f : Frame) : Uses {} t [] (t.deliver .silent f) :=
    (Uses.refl t).deed (.silent fun _ => trivial) (d := .deliver f) ⟨trivial, trivial⟩ trivial
  have hreset : Course { device := "" } 0 .ready (Session.start {} ()) [⟨.reset, 0⟩]
      [⟨.areq, ⟨.sys, 0x00⟩, [0]⟩] (.waiting .reset 0) (rebooted { device := "" }) :=
    Course.start.poll.meanwhile (hdeliver _ _)
  have hnext : ((waiting .reset 0).poll { device := "" } 0 (rebooted { device := "" })).1 =
      .waiting .ping 1 := by decide +kernel
  have hqueued : ((waiting .reset 0).poll { device := "" } 0
      (rebooted { device := "" })).2.1.outbound.drop (rebooted { device := "" }).outbound.length =
        [⟨.sreq, ⟨.sys, 0x01⟩, []⟩] := by decide +kernel
  have hping := hreset.poll
  rw [hnext, hqueued] at hping
  exact (Course.sequenced (.start {} {} ()) hping).1

end BringUp

end ZigbeeHost
