import ZigbeeHost.Bench.Completion
import ZigbeeHost.Bench.Handlers
import ZigbeeHost.Bench.Timing
import ZigbeeHost.Proofs.Chain.Runs
import ZigbeeHost.Proofs.Session.Completion
import ZigbeeHost.Proofs.Timers
/-!
# What the benches show

A bench drives a part of the host by itself. Each of them shows what the part is proved to do.

The bench for timers does nothing with its timers but the acts of a `TimerCourse`
(`Timing.run_follows`). The bench for operations tells one producer at most that he was first,
and its consumer finds what that one said (`CompletionCourse.run_settled`). The bench for chains
walks, drains and joins them as `Chain.Behaviour.perform` does (`Handlers.act_reads`), and
accounts for every operation that it issues: it is reported once, or a handler still carries it
(`Handlers.run_accounted`).
-/

namespace ZigbeeHost.Bench

/-! ## Timers -/

namespace Timing

/-- What a run of steps makes of no timers. -/
def run (steps : List TimingStep) : Timing := steps.foldl (fun t step => (t.perform step).2) {}

/-- What a step does with the timers, which is nothing if it moves the clock or names no timer. -/
def act? (t : Timing) : TimingStep → Option (TimerAct String)
  | .arm name deadline => some (.arm deadline name)
  | .advance _ => none
  | .disarm name => (t.names.lookup name).map .disarm
  | .expire => some (.expire t.now)

/-- The bench has the timers of the course, and knows them by their alarms. -/
structure Follows (t : Timing) (c : TimerCourse String) : Prop where
  timers : t.timers = c.timers
  names : t.names = c.armed.map fun x => (x.alarm, x.id)

variable {t : Timing} {c : TimerCourse String}

/-- What a step does with the timers, the course does. -/
theorem Follows.perform (h : t.Follows c) (step : TimingStep) :
    (t.perform step).2.Follows ((t.act? step).elim c c.act) := by
  obtain ⟨htimers, hnames⟩ := h
  cases step with
  | arm name deadline =>
    refine ⟨?_, ?_⟩
    · simp only [Timing.perform, act?, Option.elim, TimerCourse.act, htimers]
    · simp only [Timing.perform, act?, Option.elim, TimerCourse.act, htimers, hnames,
        List.map_append, List.map_cons, List.map_nil]
  | advance millis => exact ⟨htimers, hnames⟩
  | disarm name =>
    cases hname : t.names.lookup name with
    | none =>
      simp only [Timing.perform, act?, hname]
      exact ⟨htimers, hnames⟩
    | some id =>
      simp only [Timing.perform, act?, hname]
      refine ⟨?_, hnames⟩
      simp only [Option.map, Option.elim, TimerCourse.act, htimers]
  | expire =>
    refine ⟨?_, hnames⟩
    simp only [Timing.perform, act?, Option.elim, TimerCourse.act, TimerService.expire, htimers]

/-- The names of those that are active are the alarms of the timers that are pending. -/
theorem Follows.active (h : t.Follows c) (hfits : c.Fits) :
    t.active = c.pending.map Timer.alarm := by
  have hup : ∀ x ∈ c.armed, c.timers.active x.id = decide (x.id ∉ c.fired ∧ x.id ∉ c.disarmed) := by
    intro x hx
    rw [Bool.eq_iff_iff, hfits.active_iff, decide_eq_true_eq]
    constructor
    · rintro ⟨y, hy, hsame⟩
      exact hsame ▸ of_decide_eq_true (List.mem_filter.1 hy).2
    · exact fun hleft => ⟨x, List.mem_filter.2 ⟨hx, decide_eq_true hleft⟩, rfl⟩
  rw [Timing.active, h.names, h.timers, List.filter_map, List.map_map, TimerCourse.pending]
  exact congrArg _ (List.filter_congr hup)

/-- Whatever is done at the bench is done with the timers of a course, and in between those are
active that are pending there. -/
theorem run_follows (steps : List TimingStep) :
    ∃ acts, (run steps).Follows (.run acts) ∧
      (run steps).active = (TimerCourse.run acts).pending.map Timer.alarm := by
  suffices h : ∃ acts, (run steps).Follows (.run acts) from
    h.imp fun acts h => ⟨h, h.active (TimerCourse.run_fits acts)⟩
  refine List.foldlRecOn steps _ (motive := fun t => ∃ acts, Follows t (.run acts))
    ⟨[], rfl, rfl⟩ fun t h step _ => ?_
  obtain ⟨acts, h⟩ := h
  have hstep := h.perform step
  cases hact : t.act? step with
  | none => exact ⟨acts, by rwa [hact] at hstep⟩
  | some a =>
    rw [hact] at hstep
    refine ⟨acts ++ [a], ?_⟩
    rw [TimerCourse.run, List.foldl_append]
    exact hstep

end Timing

/-! ## Operations -/

/-- A bench for operations, with a record of what it showed. -/
structure CompletionCourse where
  bench : Completion := {}
  /-- The outcomes whose producer was told that he was first. -/
  firsts : List (Except Failure UInt32) := []
  /-- What the consumer found. -/
  found : List (Except Failure UInt32) := []

namespace CompletionCourse

/-- The outcome of a producer who is told that he was first. -/
def first? : CompletionStep → CompletionAnswer → Option (Except Failure UInt32)
  | .complete _ outcome, .truth true => some outcome
  | _, _ => none

/-- What the consumer finds. -/
def found? : CompletionAnswer → Option (Except Failure UInt32)
  | .ready outcome => some outcome
  | _ => none

/-- Takes a step, and records what it shows. -/
def perform (c : CompletionCourse) (step : CompletionStep) : CompletionCourse where
  bench := (c.bench.perform step).2
  firsts := c.firsts ++ (first? step (c.bench.perform step).1).toList
  found := c.found ++ (found? (c.bench.perform step).1).toList

/-- What a run of steps makes of an operation that is just issued. -/
def run (steps : List CompletionStep) : CompletionCourse := steps.foldl perform {}

/-- The outcome, as the record has it: the one whose producer was told that he was first, or that
the operation was dropped when the last producer went. -/
def told? (c : CompletionCourse) : Option (Except Failure UInt32) :=
  c.firsts.head? <|> if c.bench.slots.any id then none else some (.error .dropped)

/-- What the bench for operations shows. -/
structure Settled (c : CompletionCourse) : Prop where
  issued : c.bench.ledger.size = 1
  /-- One producer at most is told that he was first. -/
  once : c.firsts.length ≤ 1
  outcome : c.bench.outcome? = c.told?
  /-- A consumer that listens found nothing yet. Otherwise he found the outcome, and after it only
  that there is no more to come. -/
  found : c.found = [] ∧ (c.bench.consumer = none ∨ c.bench.consumer = some .listening) ∨
    (c.bench.consumer = none ∨ c.bench.consumer = some .served) ∧ ∃ outcome n,
      c.bench.outcome? = some outcome ∧ c.found = outcome :: List.replicate n (.error .dropped)

variable {c : CompletionCourse}

/-- Where a producer is left to do something, not all are gone. -/
theorem any_of_filled {b : Completion} {slot : Nat} (h : b.filled slot = true) :
    b.slots.any id = true := by
  unfold Completion.filled at h
  cases hslot : b.slots[slot]? with
  | none => simp [hslot] at h
  | some there =>
    rw [hslot, Option.getD_some] at h
    exact List.any_eq_true.2 ⟨there, List.mem_of_getElem? hslot, h⟩

namespace Settled

theorem start : ({} : CompletionCourse).Settled where
  issued := rfl
  once := Nat.zero_le 1
  outcome := rfl
  found := Or.inl ⟨rfl, Or.inr rfl⟩

/-- A step that shows nothing of the outcome, and after which there are producers if there were. -/
theorem quiet (h : c.Settled) {b : Completion} (hledger : b.ledger = c.bench.ledger)
    (hslots : b.slots.any id = c.bench.slots.any id) (hconsumer : b.consumer = c.bench.consumer) :
    ({ c with bench := b } : CompletionCourse).Settled := by
  have houtcome : b.outcome? = c.bench.outcome? := congrArg (Ledger.outcome? · 0) hledger
  refine ⟨(congrArg Array.size hledger).trans h.issued, h.once, ?_, ?_⟩
  · rw [houtcome, h.outcome, told?, told?, hslots]
  · rw [houtcome, hconsumer]
    exact h.found

theorem pending_iff (h : c.Settled) : c.bench.ledger.pending 0 = true ↔ c.told? = none := by
  rw [← h.outcome, Completion.outcome?, Ledger.outcome?_eq_none_iff (h.issued ▸ Nat.one_pos)]

/-- Nothing was found yet if the operation is pending. -/
theorem found_of_pending (h : c.Settled) (hp : c.bench.ledger.pending 0 = true) :
    c.found = [] ∧ (c.bench.consumer = none ∨ c.bench.consumer = some .listening) := by
  rcases h.found with hnone | ⟨-, outcome, n, ho, -⟩
  · exact hnone
  · rw [h.outcome, h.pending_iff.1 hp] at ho
    cases ho

/-- The first who completes the operation settles it. -/
theorem complete (h : c.Settled) (slot : Nat) (outcome : Except Failure UInt32) :
    (c.perform (.complete slot outcome)).Settled := by
  cases hfilled : c.bench.filled slot with
  | false =>
    have hidle : c.perform (.complete slot outcome) = c := by
      simp [CompletionCourse.perform, Completion.perform, hfilled, first?, found?]
    rwa [hidle]
  | true =>
    cases hp : c.bench.ledger.pending 0 with
    | false =>
      have hidle : c.perform (.complete slot outcome) = c := by
        simp [CompletionCourse.perform, Completion.perform, hfilled, first?, found?,
          Ledger.complete_of_not_pending hp]
      rwa [hidle]
    | true =>
      have hnone : c.firsts = [] := by
        have htold := h.pending_iff.1 hp
        rw [told?, any_of_filled hfilled] at htold
        simpa using htold
      have hact : c.perform (.complete slot outcome) =
          { c with
            bench := { c.bench with ledger := (c.bench.ledger.complete 0 outcome).2 }
            firsts := [outcome] } := by
        simp [CompletionCourse.perform, Completion.perform, hfilled, first?, found?,
          Ledger.complete_fst, hp, hnone]
      rw [hact]
      refine ⟨(Ledger.size_complete ..).trans h.issued, Nat.le_refl 1, ?_,
        Or.inl (h.found_of_pending hp)⟩
      exact Ledger.outcome?_complete_self hp

/-- When the last producer goes, an operation without an outcome is dropped. -/
theorem drop (h : c.Settled) (slot : Nat) : (c.perform (.drop slot)).Settled := by
  cases hfilled : c.bench.filled slot with
  | false =>
    have hidle : c.perform (.drop slot) = c := by
      simp [CompletionCourse.perform, Completion.perform, hfilled, first?, found?]
    rwa [hidle]
  | true =>
    have hact : c.perform (.drop slot) = { c with bench := c.bench.release slot } := by
      simp [CompletionCourse.perform, Completion.perform, hfilled, first?, found?]
    have hbefore := any_of_filled hfilled
    rw [hact]
    cases hlast : (c.bench.slots.set slot false).any id with
    | true =>
      refine h.quiet ?_ ?_ rfl
      · simp only [Completion.release, hlast, if_true]
      · simp only [Completion.release, hlast, hbefore]
    | false =>
      have hrelease : c.bench.release slot =
          { c.bench with
            ledger := c.bench.ledger.abandon
            slots := c.bench.slots.set slot false } := by
        simp [Completion.release, hlast]
      have houtcome : (c.bench.release slot).outcome? =
          some (c.bench.outcome?.getD (.error .dropped)) := by
        rw [hrelease]
        exact Ledger.outcome?_abandon (h.issued ▸ Nat.one_pos)
      refine ⟨?_, h.once, ?_, ?_⟩
      · simp [hrelease, h.issued]
      · rw [houtcome, h.outcome, told?, told?, hrelease, hbefore]
        cases hfirst : c.firsts.head? <;> simp [hlast]
      · rcases h.found with hnone | ⟨hconsumer, outcome, n, ho, hfound⟩
        · exact Or.inl (by rwa [hrelease])
        · refine Or.inr ⟨by rwa [hrelease], outcome, n, ?_, hfound⟩
          rw [houtcome, ho]
          rfl

theorem dropConsumer (h : c.Settled) : (c.perform .dropConsumer).Settled := by
  have hact : c.perform .dropConsumer = { c with bench := { c.bench with consumer := none } } := by
    simp [CompletionCourse.perform, Completion.perform, first?, found?]
  rw [hact]
  exact ⟨h.issued, h.once, h.outcome,
    h.found.imp (fun h => ⟨h.1, Or.inl rfl⟩) fun h => ⟨Or.inl rfl, h.2⟩⟩

/-- The consumer finds the outcome once there is one, and after that no more. -/
theorem poll (h : c.Settled) : (c.perform .poll).Settled := by
  have hgone (hnone : c.bench.consumer = none) : c.perform .poll = c := by
    simp [CompletionCourse.perform, Completion.perform, hnone, first?, found?]
  rcases h.found with ⟨hfound, hnone | hlistens⟩ | ⟨hnone | hserved, outcome, n, ho, hfound⟩
  · rwa [hgone hnone]
  · cases ho : c.bench.outcome? with
    | none =>
      have hact : c.perform .poll =
          { c with bench := { c.bench with consumer := some .listening } } := by
        simp [CompletionCourse.perform, Completion.perform, Completion.collect, hlistens, ho,
          first?, found?]
      rw [hact]
      exact h.quiet rfl rfl hlistens.symm
    | some outcome =>
      have hact : c.perform .poll =
          { c with
            bench := { c.bench with consumer := some .served }
            found := [outcome] } := by
        simp [CompletionCourse.perform, Completion.perform, Completion.collect, hlistens, ho,
          first?, found?, hfound]
      rw [hact]
      exact ⟨h.issued, h.once, h.outcome, Or.inr ⟨Or.inr rfl, outcome, 0, ho, rfl⟩⟩
  · rwa [hgone hnone]
  · have hact : c.perform .poll =
        { c with
          bench := { c.bench with consumer := some .served }
          found := c.found ++ [.error .dropped] } := by
      simp [CompletionCourse.perform, Completion.perform, Completion.collect, hserved,
        first?, found?]
    rw [hact]
    refine ⟨h.issued, h.once, h.outcome, Or.inr ⟨Or.inr rfl, outcome, n + 1, ho, ?_⟩⟩
    rw [hfound, List.cons_append, List.replicate_succ']

/-- Whatever is done at the bench, what it shows is what its record says. -/
theorem perform (h : c.Settled) (step : CompletionStep) : (c.perform step).Settled := by
  cases step with
  | complete slot outcome => exact h.complete slot outcome
  | clone slot =>
    cases hfilled : c.bench.filled slot with
    | false =>
      have hidle : c.perform (.clone slot) = c := by
        simp [CompletionCourse.perform, Completion.perform, hfilled, first?, found?]
      rwa [hidle]
    | true =>
      have hact : c.perform (.clone slot) =
          { c with bench := { c.bench with slots := c.bench.slots ++ [true] } } := by
        simp [CompletionCourse.perform, Completion.perform, hfilled, first?, found?]
      rw [hact]
      exact h.quiet rfl (by simp [any_of_filled hfilled]) rfl
  | isCompleted slot =>
    have hidle : c.perform (.isCompleted slot) = c := by
      cases hfilled : c.bench.filled slot <;>
        simp [CompletionCourse.perform, Completion.perform, hfilled, first?, found?]
    rwa [hidle]
  | drop slot => exact h.drop slot
  | dropConsumer => exact h.dropConsumer
  | poll => exact h.poll

end Settled

/-- One producer at most is told that he was first, his outcome is what the operation ends with,
and it is what a consumer finds, once. -/
theorem run_settled (steps : List CompletionStep) : (run steps).Settled :=
  List.foldlRecOn steps perform .start fun _ h step _ => h.perform step

end CompletionCourse

/-! ## Chains -/

namespace Handlers

/-- What named handlers do with a frame, and when they are aborted. -/
def behaviour : Chain.Behaviour Frame Failure NamedHandler (Session HandlerLog) where
  handle frame n s :=
    let (s, reply) := n.handler.offer scriptedHandlers frame { s with host.current := n.name }
    (s, reply.verdict)
  abort cause n s := n.handler.abort scriptedHandlers cause s
  permanent n := n.handler.permanent

/-- The chains of the bench. -/
def chains (h : Handlers) : Chain.Chains Bool NamedHandler (Session HandlerLog) where
  chain := h.chain
  world := h.session

/-- What a step does with the handlers that the chains have. -/
def operation? : HandlerStep → Option (Chain.Operation Bool Frame Failure NamedHandler)
  | .dispatch second frame => some (.dispatch second frame)
  | .drain second cause => some (.drain second cause)
  | .append => some (.append false true Bool.false_ne_true)
  | .push .. | .disarm _ => none

variable {h : Handlers}

/-- To change one of the chains leaves the other one. -/
theorem chain_setChain (h : Handlers) (second : Bool) (chain : List NamedHandler) :
    (h.setChain second chain).chain = Function.update h.chain second chain := by
  funext b
  cases second <;> cases b <;> rfl

theorem session_setChain (h : Handlers) (second : Bool) (chain : List NamedHandler) :
    (h.setChain second chain).session = h.session := by
  cases second <;> rfl

/-- The chains are walked, drained and joined as the handlers say. -/
theorem chains_act {step : HandlerStep} {op : Chain.Operation Bool Frame Failure NamedHandler}
    (hop : operation? step = some op) :
    (h.act step).2.chains = (behaviour.perform h.chains op).1 := by
  cases step with
  | push second name kind timed => cases hop
  | disarm name => cases hop
  | dispatch second frame =>
    cases hop
    simp only [Chain.Behaviour.perform, Chain.dispatch_record, chains, act]
    rw [chain_setChain, session_setChain]
    rfl
  | drain second cause =>
    cases hop
    simp only [Chain.Behaviour.perform, Chain.drain_recordAbort, chains, act]
    rw [chain_setChain, session_setChain, Chain.drain_fst]
    rfl
  | append =>
    cases hop
    refine congrArg₂ Chain.Chains.mk (funext fun b => ?_) rfl
    cases b <;> rfl

/-- Each chain reads as a list: who was called, who is left, and whether one stopped. -/
theorem act_reads {step : HandlerStep} {op : Chain.Operation Bool Frame Failure NamedHandler}
    (hop : operation? step = some op) :
    ∃ report, Chain.Reads behaviour h.chains (h.act step).2.chains report op ∧
      ∀ stopped, (h.act step).1 = .stopped stopped → report.stopped = stopped := by
  refine ⟨(behaviour.perform h.chains op).2, ?_, fun stopped hstopped => ?_⟩
  · rw [chains_act hop]
    exact Chain.perform_reads behaviour h.chains op
  · cases step with
    | dispatch second frame =>
      cases hop
      cases hstopped
      simp only [Chain.Behaviour.perform, Chain.dispatch_record]
      rfl
    | push | drain | append | disarm => cases hop <;> cases hstopped

/-! ### The operations that the bench issues -/

/-- The name under which a step has an operation issued. -/
def issues? : HandlerStep → Option String
  | .push _ name (.response _) _ | .push _ name (.wait _) _ => some name
  | _ => none

/-- Handlers and subscribers issue no operation, and forget none. -/
theorem stable_size :
    Stable fun s t : Session HandlerLog => s.operations.size ≤ t.operations.size where
  refl _ := Nat.le_refl _
  trans := Nat.le_trans
  complete _ _ _ := Nat.le_of_eq (Session.size_operations_complete ..).symm
  subscribe _ _ _ := Nat.le_refl _
  disconnect _ _ := Nat.le_refl _
  retain _ _ := Nat.le_refl _
  disarm _ _ := Nat.le_refl _
  running _ _ := Nat.le_refl _

/-- Scripted handlers change nothing but the bench's own record. -/
theorem offer_scriptedHandlers (callback : CallbackId) (frame : Frame) (s : Session HandlerLog) :
    ∃ host verdict, scriptedHandlers.offer callback frame s = ({ s with host }, { verdict }) := by
  simp only [scriptedHandlers]
  split
  · exact ⟨s.host, .pass, rfl⟩
  · exact ⟨_, _, rfl⟩

theorem abort_scriptedHandlers (callback : CallbackId) (cause : Failure) (s : Session HandlerLog) :
    ∃ host, scriptedHandlers.abort callback cause s = { s with host } := by
  simp only [scriptedHandlers]
  split
  · exact ⟨s.host, rfl⟩
  · exact ⟨_, rfl⟩

theorem scriptedHandlers_keeps :
    scriptedHandlers.Keeps {} fun s _ t => s.operations.size ≤ t.operations.size where
  hear _ _ _ _ := Nat.le_refl _
  offer callback frame s := by
    obtain ⟨host, verdict, h⟩ := offer_scriptedHandlers callback frame s
    exact h ▸ Nat.le_refl _
  offer_tracked callback frame s := by
    obtain ⟨host, verdict, h⟩ := offer_scriptedHandlers callback frame s
    exact h ▸ rfl
  offer_verdict _ _ _ := trivial
  answered _ _ _ := Nat.le_refl _
  answered_tracked _ _ _ := rfl
  abort callback cause s := by
    obtain ⟨host, h⟩ := abort_scriptedHandlers callback cause s
    exact h ▸ Nat.le_refl _

/-- The ledger goes on, and the operations that are issued wait to be reported. -/
structure Issues (h h' : Handlers) (issued : Option String) : Prop where
  size : h.session.operations.size ≤ h'.session.operations.size
  waiting : ∃ fresh : List (String × OperationId), h'.waiting = h.waiting ++ fresh ∧
    fresh.map Prod.fst = issued.toList ∧ ∀ w ∈ fresh, w.2 < h'.session.operations.size

theorem Issues.of_size {h' : Handlers}
    (hsize : h.session.operations.size ≤ h'.session.operations.size)
    (hwaiting : h'.waiting = h.waiting) : Issues h h' none :=
  ⟨hsize, [], by rw [hwaiting, List.append_nil], rfl, List.forall_mem_nil _⟩

theorem Issues.of_issue {h' : Handlers} {name : String}
    (hsession : h'.session.operations = h.session.issue.2.operations)
    (hwaiting : h'.waiting = h.waiting ++ [(name, h.session.issue.1)]) :
    Issues h h' (some name) := by
  have hsize : h'.session.operations.size = h.session.operations.size + 1 := by
    rw [hsession, Session.issue, Array.size_push]
  refine ⟨hsize ▸ Nat.le_succ _, [(name, h.session.issue.1)], hwaiting, rfl, fun w hw => ?_⟩
  rw [List.mem_singleton.1 hw, hsize]
  exact Nat.lt_succ_self _

/-- Whatever is done at the bench, the ledger goes on, and what is issued waits. -/
theorem act_issues (h : Handlers) (step : HandlerStep) :
    Issues h (h.act step).2 (issues? step) := by
  cases step with
  | push second name kind timed =>
    cases kind with
    | scripted script permanent =>
      cases timed <;> cases second <;> exact .of_size (Nat.le_refl _) rfl
    | response accepted => cases timed <;> cases second <;> exact .of_issue rfl rfl
    | wait pattern => cases timed <;> cases second <;> exact .of_issue rfl rfl
    | announce kind command lenient =>
      cases timed <;> cases second <;> exact .of_size (Nat.le_refl _) rfl
  | dispatch second frame =>
    refine .of_size ?_ (by cases second <;> rfl)
    simp only [act, session_setChain]
    exact Chain.dispatch_induct _
      (fun _ (s : Session HandlerLog) => h.session.operations.size ≤ s.operations.size)
      (fun _ n _ s hs => Nat.le_trans hs
        (stable_size.steady.offer (fun _ _ => trivial) scriptedHandlers_keeps frame n.handler
          { s with host.current := n.name }))
      (h.chain second) [] h.session (Nat.le_refl _)
  | drain second cause =>
    refine .of_size ?_ (by cases second <;> rfl)
    simp only [act, session_setChain]
    exact Chain.drain_induct
      (fun _ (s : Session HandlerLog) => h.session.operations.size ≤ s.operations.size)
      (fun _ n _ s _ hs => Nat.le_trans hs
        (stable_size.abort scriptedHandlers_keeps cause n.handler s))
      (h.chain second) [] h.session (Nat.le_refl _)
  | append => exact .of_size (Nat.le_refl _) rfl
  | disarm name =>
    simp only [act]
    cases h.timers.lookup name <;> exact .of_size (Nat.le_refl _) rfl

/-- Whoever is dropped has an outcome, and so do those who had one. -/
theorem isSome_outcome?_foldl (h : Handlers) (ws : List (String × OperationId)) {op : OperationId}
    (s : Session HandlerLog) (hop : op < s.operations.size)
    (hdone : (s.outcome? op).isSome = true ∨ ∃ w ∈ ws, w.2 = op ∧ h.carries op = false) :
    ((ws.foldl (fun s w => if h.carries w.2 then s else s.complete w.2 (.error .dropped))
      s).outcome? op).isSome = true := by
  induction ws generalizing s with
  | nil => simpa using hdone
  | cons w ws ih =>
    rw [List.foldl_cons]
    cases hcarries : h.carries w.2 with
    | true =>
      refine ih s hop (hdone.imp_right ?_)
      rintro ⟨v, hv, rfl, hnot⟩
      rcases List.mem_cons.1 hv with rfl | hv
      · rw [hcarries] at hnot
        cases hnot
      · exact ⟨v, hv, rfl, hnot⟩
    | false =>
      refine ih _ (by simpa [Session.size_operations_complete] using hop) ?_
      rcases hdone with hdone | ⟨v, hv, rfl, hnot⟩
      · exact Or.inl ((Session.outlives_complete s w.2 _).isSome hdone)
      · rcases List.mem_cons.1 hv with rfl | hv
        · exact Or.inl (Session.isSome_outcome?_complete hop _)
        · exact Or.inr ⟨v, hv, rfl, hnot⟩

/-- Once the orphans are dropped, whatever is not decided is carried. -/
theorem waiting_report_dropOrphans (h : Handlers)
    (hissued : ∀ w ∈ h.waiting, w.2 < h.session.operations.size) {w : String × OperationId}
    (hw : w ∈ h.dropOrphans.report.2.waiting) :
    h.dropOrphans.session.pending w.2 = true ∧ h.dropOrphans.carries w.2 = true := by
  obtain ⟨hmem, hopen⟩ := List.mem_filter.1 hw
  have hlt := hissued w hmem
  have hsize : h.session.operations.size ≤ h.dropOrphans.session.operations.size := by
    refine stable_size.foldl (fun s w => ?_) h.waiting h.session
    split
    · exact Nat.le_refl _
    · exact stable_size.complete ..
  have hnone : h.dropOrphans.session.outcome? w.2 = none := Option.isNone_iff_eq_none.1 hopen
  refine ⟨(Ledger.outcome?_eq_none_iff (Nat.lt_of_lt_of_le hlt hsize)).1 hnone, ?_⟩
  cases hcarries : h.carries w.2 with
  | true => exact hcarries
  | false =>
    have hdone : (h.dropOrphans.session.outcome? w.2).isSome = true :=
      isSome_outcome?_foldl h h.waiting h.session hlt (Or.inr ⟨w, hmem, rfl, hcarries⟩)
    rw [hnone] at hdone
    cases hdone

/-- What is reported and what goes on to wait is what was waiting. -/
theorem report_perm (h : Handlers) :
    (h.report.1.map Prod.fst ++ h.report.2.waiting.map Prod.fst).Perm (h.waiting.map Prod.fst) := by
  have hreports : h.report.1.map Prod.fst =
      (h.waiting.filter fun w => (h.session.outcome? w.2).isSome).map Prod.fst := by
    simp only [Handlers.report]
    induction h.waiting with
    | nil => rfl
    | cons w ws ih => cases ho : h.session.outcome? w.2 <;> simp [ho, ih]
  have hwaiting : h.report.2.waiting =
      h.waiting.filter fun w => !(h.session.outcome? w.2).isSome := by
    simp only [Handlers.report, Option.not_isSome]
  rw [hreports, hwaiting, ← List.map_append]
  exact (List.filter_append_perm _ h.waiting).map Prod.fst

end Handlers

/-- A bench for chains, with a record of what it showed. -/
structure HandlersCourse where
  bench : Handlers := .start
  /-- The names under which operations were issued. -/
  issued : List String := []
  reported : List (String × Except Failure Outcome) := []

namespace HandlersCourse

open Handlers

/-- Takes a step, and records what it shows. -/
def perform (c : HandlersCourse) (step : HandlerStep) : HandlersCourse where
  bench := (c.bench.perform step).2
  issued := c.issued ++ (issues? step).toList
  reported := c.reported ++ (c.bench.perform step).1.reports

/-- What a run of steps makes of empty chains. -/
def run (steps : List HandlerStep) : HandlersCourse := steps.foldl perform {}

/-- The bench accounts for all operations. -/
structure Accounted (c : HandlersCourse) : Prop where
  /-- Whatever is not reported is not decided, and a handler has it. -/
  carried : ∀ w ∈ c.bench.waiting,
    c.bench.session.pending w.2 = true ∧ c.bench.carries w.2 = true
  /-- Every operation is reported once, or it waits to be. -/
  once : (c.reported.map Prod.fst ++ c.bench.waiting.map Prod.fst).Perm c.issued

variable {c : HandlersCourse}

/-- After each step, all operations are reported or wait to be. -/
theorem Accounted.perform (h : c.Accounted) (step : HandlerStep) : (c.perform step).Accounted := by
  have hissues := act_issues { c.bench with session.host.log := #[] } step
  have hbench : (c.perform step).bench =
      ({ c.bench with session.host.log := #[] }.act step).2.dropOrphans.report.2 := rfl
  have hreported : (c.perform step).reported = c.reported ++
      ({ c.bench with session.host.log := #[] }.act step).2.dropOrphans.report.1 := rfl
  generalize ({ c.bench with session.host.log := #[] } : Handlers).act step = acted at *
  obtain ⟨hsize, fresh, hwaiting, hnames, hfresh⟩ := hissues
  have hissued : ∀ w ∈ acted.2.waiting, w.2 < acted.2.session.operations.size := by
    intro w hw
    rw [hwaiting] at hw
    rcases List.mem_append.1 hw with hw | hw
    · have hopen := Session.pending_iff.1 (h.carried w hw).1
      exact Nat.lt_of_lt_of_le (Array.getElem?_eq_some_iff.1 hopen).1 hsize
    · exact hfresh w hw
  refine ⟨fun w hw => ?_, ?_⟩
  · rw [hbench] at hw ⊢
    exact waiting_report_dropOrphans acted.2 hissued hw
  · have hnow : acted.2.dropOrphans.waiting.map Prod.fst =
        c.bench.waiting.map Prod.fst ++ (issues? step).toList := by
      rw [← hnames, ← List.map_append]
      exact congrArg _ hwaiting
    have hreport := report_perm acted.2.dropOrphans
    rw [hnow] at hreport
    have hissued : (c.perform step).issued = c.issued ++ (issues? step).toList := rfl
    rw [hbench, hreported, hissued, List.map_append, List.append_assoc]
    refine (hreport.append_left _).trans ?_
    rw [← List.append_assoc]
    exact h.once.append_right _

/-- Whatever is done at the bench, it accounts for all operations. -/
theorem run_accounted (steps : List HandlerStep) : (run steps).Accounted :=
  List.foldlRecOn steps HandlersCourse.perform ⟨List.forall_mem_nil _, .nil⟩
    fun _ h step _ => h.perform step

end HandlersCourse

end ZigbeeHost.Bench
