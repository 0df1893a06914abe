import ZigbeeHost.Scenario.Step
/-!
# Playing a scenario

The application's state is a `Stage` : the scripts of its callbacks, the names of its
subscriptions, its calls, its link, and the record of what happened. `perform` takes one
step, `application` turns scripts into behaviour, and `turn` takes a step from outside,
after which each call that is finished is reported and the queued frames are taken.

A deadline that is too late for the clock ends all (`watchClock`).

`application n` can be called to a depth of `n`. A scenario is played with a depth that
its weight bounds, so the bound is never felt.
-/

namespace ZigbeeHost.Scenario

/-! ## The stage -/

/-- What a callback does. -/
inductive Script where
  | subscriber (name : String) (script : List (List Step)) (extended : Bool)
  | handler (name : String) (script : List Cue) (onAbort : List Step)
  /-- Takes the notes of a bring-up. -/
  | narrator

/-- A subscription under a name. -/
structure Hold where
  connection : Connection
  persistent : Bool

/-- A call of the application, until it is reported or forgotten. -/
inductive Ongoing where
  | gone
  | refused (failure : Failure)
  | calling (call : Call) (operation : OperationId)
  | bringingUp (config : ToolConfig) (narrator : CallbackId) (progress : BringUp)

/-- Whether the application has a link at hand. -/
inductive LinkState where
  | absent
  | idle (link : Link)
  /-- The link is running. -/
  | running

/-- The state of the application. -/
structure Stage where
  /-- What the clock showed at time zero. -/
  origin : Instant
  /-- A deadline was too late for the clock. -/
  overrun : Bool := false
  /-- The application holds the session. -/
  holding : Bool := true
  /-- The clock moves only when it is told to. -/
  manualClock : Bool := true
  scripts : Array Script := #[]
  names : List (String × Hold) := []
  calls : Array Ongoing := #[]
  link : LinkState := .absent
  log : Array Entry := #[]
  notes : Array Note := #[]

/-- The session of a scenario. -/
abbrev Scene := Session Stage

/-- Changes the application's state. -/
def withHost (f : Stage → Stage) (s : Scene) : Scene := { s with host := f s.host }

/-- Records an entry. -/
def record (e : Entry) (s : Scene) : Scene :=
  withHost (fun h => { h with log := h.log.push e }) s

/-- Registers a callback. -/
def register (script : Script) (s : Scene) : CallbackId × Scene :=
  (s.host.scripts.size, withHost (fun h => { h with scripts := h.scripts.push script }) s)

/-- Changes what a callback does from now on. -/
def setScript (callback : CallbackId) (script : Script) (s : Scene) : Scene :=
  withHost (fun h => { h with scripts := h.scripts.setIfInBounds callback script }) s

/-- Opens a call. -/
def openCall (call : Ongoing) (s : Scene) : Nat × Scene :=
  (s.host.calls.size, withHost (fun h => { h with calls := h.calls.push call }) s)

/-- Changes how a call stands. -/
def setCall (id : Nat) (call : Ongoing) (s : Scene) : Scene :=
  withHost (fun h => { h with calls := h.calls.setIfInBounds id call }) s

/-- Notes that a deadline is too late for the clock. -/
def overrunIf (late : Bool) (s : Scene) : Scene :=
  if late then withHost (fun h => { h with overrun := true }) s else s

/-- Notes whether a deadline is too late for the clock. -/
def watchClock (s : Scene) : Scene := overrunIf (s.timers.overrun s.host.origin) s

/-! ## Steps that call nothing -/

/-- Starts a call. -/
def startCall (c : Call) (s : Scene) : Scene × Answer :=
  let (started, s) := s.call c
  let (id, s) :=
    match started with
    | .ok op => openCall (.calling c op) s
    | .error e => openCall (.refused e) s
  (s, .opened id)

/-- Starts a bring-up. -/
def startBringUp (config : String) (s : Scene) : Scene × Answer :=
  match ToolConfig.load config with
  | .error e => (s, .badConfig e)
  | .ok config =>
    let (narrator, s) := register .narrator s
    let (id, s) := openCall (.bringingUp config narrator .ready) s
    (s, .opened id)

/-- Forgets a call; the answer is whether it was still open. -/
def cancel (id : Nat) (s : Scene) : Scene × Answer :=
  match s.host.calls[id]? with
  | none | some .gone => (s, .truth false)
  | some _ => (setCall id .gone s, .truth true)

/-- The subscription that goes by a name. -/
def named? (name : String) (s : Scene) : Option Hold := s.host.names.lookup name

/-- Takes a name away. -/
def forget (name : String) (s : Scene) : Scene :=
  withHost (fun h => { h with names := h.names.filter (·.1 != name) }) s

/-- Attaches a subscriber under a name. Who had the name before is detached, unless it is
persistent. -/
def subscribe (name : String) (event : Event) (script : List (List Step))
    (extended persistent : Bool) (s : Scene) : Scene :=
  let (callback, s) := register (.subscriber name script extended) s
  let (connection, s) := s.subscribe event (.application callback)
  let s :=
    match named? name s with
    | some hold => if hold.persistent then s else s.disconnect hold.connection
    | none => s
  withHost (fun h => { h with names := (name, ⟨connection, persistent⟩) :: h.names })
    (forget name s)

/-- Detaches the subscriber under a name; the answer is whether there is one. -/
def unsubscribe (name : String) (s : Scene) : Scene × Answer :=
  match named? name s with
  | none => (s, .truth false)
  | some hold => ((forget name s).disconnect hold.connection, .truth true)

/-- Gives up the handle and the link. A link that is running is given up when it stops. -/
def dropHandle (s : Scene) : Scene × Answer :=
  let link :=
    match s.host.link with
    | .running => .running
    | _ => .absent
  (withHost (fun h => { h with holding := false, link }) s, .truth s.host.holding)

/-! ## Steps at the link -/

/-- Uses the link, if it is there and free. -/
def withLink (use : Link → Scene → Answer × Link × Scene) (s : Scene) : Scene × Answer :=
  match s.host.link with
  | .absent => (s, .noLink)
  | .running => (s, .busy)
  | .idle link =>
    let (answer, link, s) := use link (withHost (fun h => { h with link := .running }) s)
    (withHost (fun h => { h with link := if h.holding then .idle link else .absent }) s, answer)

/-- Something happens to a serial line. -/
def LineStep.apply (line : Line) : LineStep → Answer × Line
  | feed bytes => (.nothing, line.feed bytes)
  | close => (.nothing, line.close)
  | written =>
    let (bytes, line) := line.takeWritten
    (.written bytes, line)
  | scriptReads cues => (.nothing, { line with reads := line.reads ++ cues })
  | scriptWrites cues => (.nothing, { line with writes := line.writes ++ cues })
  | scriptFlushes cues => (.nothing, { line with flushes := line.flushes ++ cues })

/-! ## Steps -/

/-- The step uses the handle of the session. -/
def Step.needsHandle : Step → Bool
  | .call .. | .frame .. | .expire | .shutdown .. | .send .. | .nextOutbound | .takeOutbound
  | .subscribe .. | .emit .. | .addHandler .. | .bringUp .. => true
  | _ => false

/-- Takes a step with the application `app`. `self` is the connection of the subscriber
that takes it, if it is one that may detach itself. Where a dispatch ends, the clock is
watched before a deferred teardown disarms its timers. -/
def act (app : Application Stage) (self : Option Connection) (step : Step) (s : Scene) :
    Scene × Answer :=
  if step.needsHandle ∧ ¬ s.host.holding then (s, .noHandle)
  else
    match step with
    | .call c => startCall c s
    | .frame f => ((watchClock (s.dispatched app f)).settleDeferred app, .nothing)
    | .advance millis => (if s.host.manualClock then s.advance millis else s, .nothing)
    | .expire => (s.expireTimers, .nothing)
    | .shutdown e => (s.shutdown app e, .nothing)
    | .send f => (s.send f, .nothing)
    | .rest => (s, .nothing)
    | .nextOutbound =>
      match s.nextOutbound with
      | some (f, s) => (s, .outbound (some f))
      | none => (s, .outbound none)
    | .takeOutbound =>
      let (frames, s) := s.takeOutbound
      (s, .frames frames)
    | .cancel id => cancel id s
    | .subscribe name event script extended persistent =>
      (subscribe name event script extended persistent s, .nothing)
    | .unsubscribe name => unsubscribe name s
    | .disconnectSelf => (self.elim s fun c => s.disconnect c, .nothing)
    | .emit i => (s.emit app i, .nothing)
    | .addHandler name script permanent onAbort =>
      let (callback, s) := register (.handler name script onAbort) s
      (s.addHandler (.custom callback permanent), .nothing)
    | .dropHandle => dropHandle s
    | .bringUp config => startBringUp config s
    | .runOnce =>
      withLink (fun link s =>
        let late := link.overrun app s.host.origin 1 s
        let (result, link, s) := link.runOnce app s
        (match result with
          | .ok busy => .transferred busy
          | .error e => .failed e, link, overrunIf late s)) s
    | .run =>
      withLink (fun link s =>
        let late := link.overrun app s.host.origin link.rounds s
        let (failure, link, s) := Link.run app link.rounds link s
        (failure.elim .nothing .failed, link, overrunIf late s)) s
    | .line step =>
      withLink (fun link s =>
        let (answer, line) := step.apply link.line
        (answer, { link with line }, s)) s

/-- Takes a step and watches the clock. -/
def perform (app : Application Stage) (self : Option Connection) (step : Step) (s : Scene) :
    Scene × Answer :=
  let (s, answer) := act app self step s
  (watchClock s, answer)

/-! ## Callbacks -/

/-- Takes the steps of a script, and records what they yield. -/
def performAll (app : Application Stage) (self : Option Connection) (steps : List Step)
    (s : Scene) : Scene :=
  steps.foldl
    (fun s step =>
      match perform app self step s with
      | (s, .nothing) => s
      | (s, answer) => record (.nested answer) s) s

/-- A subscriber hears an indication : it takes the next part of its script. -/
def hear (app : Application Stage) (callback : CallbackId) (connection : Connection)
    (i : Indication) (s : Scene) : Scene :=
  match s.host.scripts[callback]? with
  | some (.subscriber name script extended) =>
    let s := record (.heard name i) s
    match script with
    | [] => s
    | steps :: script =>
      performAll app (if extended then some connection else none) steps
        (setScript callback (.subscriber name script extended) s)
  | some .narrator =>
    withHost (fun h =>
      { h with notes := h.notes ++ (i.narration?.map fun text => ({ text } : Note)).toArray }) s
  | _ => s

/-- A handler is offered a frame : it follows its next cue. -/
def offer (app : Application Stage) (callback : CallbackId) (f : Frame) (s : Scene) :
    Scene × Reply :=
  match s.host.scripts[callback]? with
  | some (.handler name script onAbort) =>
    let s := record (.offered name f) s
    match script with
    | [] => (s, {})
    | .mk verdict install steps :: script =>
      let s := setScript callback (.handler name script onAbort) s
      let (waits, s) :=
        match install with
        | none => ([], s)
        | some (pattern, window) =>
          let (op, s) := s.issue
          ([⟨pattern, window, op⟩], (openCall (.calling (.waitFor pattern window) op) s).2)
      (performAll app none steps s, { verdict, waits })
  | _ => (s, {})

/-- A handler is aborted. -/
def abort (app : Application Stage) (callback : CallbackId) (e : Failure) (s : Scene) : Scene :=
  match s.host.scripts[callback]? with
  | some (.handler name _ onAbort) => performAll app none onAbort (record (.aborted name e) s)
  | _ => s

/-- The application of a scenario, for calls up to a depth. -/
def application : (depth : Nat) → Application Stage
  | 0 => { hear := fun _ _ _ s => s, offer := fun _ _ s => (s, {}), abort := fun _ _ s => s }
  | depth + 1 =>
    let inner := application depth
    { hear := hear inner, offer := offer inner, abort := abort inner }

/-! ## Turns -/

/-- How a call ended. -/
inductive Finding where
  | answered (call : Call) (answer : Except Failure call.Answer)
  | refused (failure : Failure)
  | bringUpFailed (message : String)

/-- The end of a call. -/
structure Report where
  id : Nat
  finding : Finding

/-- A call that keeps the session in use. -/
def Ongoing.holds : Ongoing → Bool
  | bringingUp .. => true
  | _ => false

/-- The session is in use : by the application, or by a bring-up that goes on. -/
def inUse (s : Scene) : Bool := s.host.holding || s.host.calls.any Ongoing.holds

/-- Drops the operations of a session that nobody uses any more. -/
def reap (s : Scene) : Scene := if inUse s then s else s.abandon

/-- Looks how a call stands, and reports it if it has ended. -/
def poll (id : Nat) (s : Scene) : Option Report × Scene :=
  match s.host.calls[id]? with
  | none | some .gone => (none, s)
  | some (.refused e) => (some ⟨id, .refused e⟩, setCall id .gone s)
  | some (.calling c op) =>
    match s.outcome? op with
    | none => (none, s)
    | some outcome => (some ⟨id, .answered c (outcome.bind c.read)⟩, setCall id .gone s)
  | some (.bringingUp config narrator progress) =>
    let (progress, s, notes) := progress.poll config narrator s
    let s := withHost (fun h => { h with notes := h.notes ++ notes.toArray }) s
    match progress with
    | .failed message => (some ⟨id, .bringUpFailed message⟩, reap (setCall id .gone s))
    | progress => (none, setCall id (.bringingUp config narrator progress) s)

/-- Looks at all calls in the order in which they were made. -/
def pollAll (s : Scene) : List Report × Scene :=
  (List.range s.host.calls.size).foldl
    (fun (reports, s) id =>
      let (report, s) := poll id s
      (reports ++ report.toList, s)) ([], s)

/-- How a session stands after a turn. -/
structure Status where
  outbound : List Frame
  handlers : Nat
  deadline : Option Nat
  subscribers : List (Event × Nat)

/-- What a turn shows. There is no status once the handle is given up. -/
structure Turn where
  answer : Answer
  log : List Entry
  notes : List Note
  reports : List Report
  status : Option Status

/-- How many subscribers each event has, if any. -/
def subscriberCounts (s : Scene) : List (Event × Nat) :=
  (Event.all.map fun e => (e, (s.audience e).length)).filter (·.2 ≠ 0)

/-- The frames that are taken after a turn : those queued, unless a link or the scenario
sees to them. -/
def collect (takes : Bool) (s : Scene) : List Frame × Scene :=
  if takes then s.takeOutbound else ([], s)

/-- How the session stands, and what is sent. -/
def status (takes : Bool) (s : Scene) : Option Status × Scene :=
  if s.host.holding then
    let (outbound, s) := collect takes s
    (some { outbound, handlers := s.chain.length, deadline := s.timers.nextDeadline?,
            subscribers := subscriberCounts s }, s)
  else (none, s)

/-- Takes a step from outside. -/
def turn (app : Application Stage) (takes : Bool) (step : Step) (s : Scene) : Turn × Scene :=
  let fresh := withHost (fun h => { h with log := #[], notes := #[] }) s
  let (s, answer) := perform app none step fresh
  let (reports, s) := pollAll (reap s)
  let (status, s) := status takes s
  ({ answer, log := s.host.log.toList, notes := s.host.notes.toList, reports, status }, s)

/-- How a scenario is set up. -/
structure Setting where
  /-- What the clock shows at the start. -/
  origin : Instant
  config : SessionConfig := {}
  /-- The session sits behind a link. -/
  link : Bool := false
  /-- The queued frames are taken after each turn. -/
  takes : Bool := true
  manualClock : Bool := true

/-- The session at the start. -/
def Setting.scene (setting : Setting) : Scene :=
  .start setting.config
    { origin := setting.origin
      manualClock := setting.manualClock
      link := if setting.link then .idle {} else .absent }

/-- Takes steps one after the other. Nothing is shown if a deadline is too late for the
clock. -/
def turns (app : Application Stage) (takes : Bool) : List Step → Scene → Option (List Turn)
  | [], _ => some []
  | step :: steps, s =>
    let (shown, s) := turn app takes step s
    if s.host.overrun then none else (turns app takes steps s).map (shown :: ·)

/-- Plays a scenario. -/
def play (setting : Setting) (steps : List Step) : Option (List Turn) :=
  turns (application (weight steps + 1)) (setting.takes && !setting.link) steps setting.scene

end ZigbeeHost.Scenario
