import ZigbeeHost.Session.Dispatch
/-!
# A bench for chains of handlers

Two chains of named handlers over one session, which keeps their operations and timers.
The chains are walked and drained by hand. An operation whose last handler is gone
without completing it is dropped.
-/

namespace ZigbeeHost.Bench

/-- A handler with its name. -/
structure NamedHandler where
  name : String
  handler : Handler

/-- What the handlers record. -/
inductive HandlerEntry where
  | offered (name : String) (frame : Frame)
  | aborted (name : String) (cause : Failure)
  | emitted (name : String) (indication : Indication)

/-- The scripted handlers with what they will answer, the handler whose turn it is, and
the record. -/
structure HandlerLog where
  scripts : Array (String × List Verdict) := #[]
  current : String := ""
  log : Array HandlerEntry := #[]

/-- Two chains, the session under them, the names of the timers and of the operations
that are not reported yet. -/
structure Handlers where
  a : List NamedHandler := []
  b : List NamedHandler := []
  session : Session HandlerLog
  timers : List (String × TimerId) := []
  waiting : List (String × OperationId) := []

/-- A handler to be put into a chain. -/
inductive HandlerKind where
  | scripted (script : List Verdict) (permanent : Bool)
  | response (accepted : List Command)
  | wait (pattern : Pattern)
  | announce (kind : FrameKind) (command : Command) (lenient : Bool)

/-- A step at the chains; `second` picks the second chain. -/
inductive HandlerStep where
  | push (second : Bool) (name : String) (kind : HandlerKind) (timed : Bool)
  | dispatch (second : Bool) (frame : Frame)
  | drain (second : Bool) (failure : Failure)
  /-- The second chain moves behind the first. -/
  | append
  | disarm (name : String)

/-- What a step yields. -/
inductive HandlerAnswer where
  | nothing
  | permanent (value : Bool)
  | stopped (value : Bool)
  | disarmed (wasArmed : Bool)

/-- Scripted handlers answer from their script, then pass. Indications are recorded under
the name of the handler that emits them. -/
def scriptedHandlers : Application HandlerLog where
  hear _ _ i s := { s with host.log := s.host.log.push (.emitted s.host.current i) }
  offer callback f s :=
    match s.host.scripts[callback]? with
    | none => (s, {})
    | some (name, script) =>
      let host := { s.host with
        scripts := s.host.scripts.setIfInBounds callback (name, script.tail)
        log := s.host.log.push (.offered name f) }
      ({ s with host }, { verdict := script.headD .pass })
  abort callback e s :=
    match s.host.scripts[callback]? with
    | none => s
    | some (name, _) => { s with host.log := s.host.log.push (.aborted name e) }

namespace Handlers

/-- Two empty chains. One subscriber listens to all announcements. -/
def start : Handlers :=
  let quiet : Session HandlerLog := { Session.start {} {} with chain := [] }
  { session := (quiet.subscribe .endDeviceAnnounce (.application 0)).2 }

/-- One of the chains. -/
def chain (h : Handlers) (second : Bool) : List NamedHandler := if second then h.b else h.a

/-- Changes one of the chains. -/
def setChain (h : Handlers) (second : Bool) (chain : List NamedHandler) : Handlers :=
  if second then { h with b := chain } else { h with a := chain }

/-- Makes a handler. One that completes an operation gets a new one. -/
def make (h : Handlers) (name : String) : HandlerKind → Handler × Handlers
  | .scripted script permanent =>
    let callback := h.session.host.scripts.size
    (.custom callback permanent,
      { h with session.host.scripts := h.session.host.scripts.push (name, script) })
  | .response accepted =>
    let (op, session) := h.session.issue
    (.response accepted (.settle op), { h with session, waiting := h.waiting ++ [(name, op)] })
  | .wait pattern =>
    let (op, session) := h.session.issue
    (.wait pattern op, { h with session, waiting := h.waiting ++ [(name, op)] })
  | .announce kind command lenient => (.indication kind command .endDeviceAnnounce lenient, h)

/-- Ties a handler to a new timer. -/
def tie (h : Handlers) (name : String) (handler : Handler) : Handler × Handlers :=
  let (timer, timers) := h.session.timers.arm 0 0
  (.timed timer handler,
    { h with session.timers := timers, timers := h.timers ++ [(name, timer)] })

/-- Takes a step. -/
def act (h : Handlers) : HandlerStep → HandlerAnswer × Handlers
  | .push second name kind timed =>
    let (handler, h) := h.make name kind
    let (handler, h) := if timed then h.tie name handler else (handler, h)
    (.permanent handler.permanent, h.setChain second (h.chain second ++ [⟨name, handler⟩]))
  | .dispatch second frame =>
    let offer (n : NamedHandler) (s : Session HandlerLog) : Session HandlerLog × Verdict :=
      let (s, reply) := n.handler.offer scriptedHandlers frame { s with host.current := n.name }
      (s, reply.verdict)
    let (chain, session, stopped) := Chain.dispatch offer (h.chain second) h.session
    (.stopped stopped, { h with session }.setChain second chain)
  | .drain second failure =>
    let (chain, session) :=
      Chain.drain (fun n : NamedHandler => n.handler.permanent)
        (fun n s => n.handler.abort scriptedHandlers failure s) (h.chain second) h.session
    (.nothing, { h with session }.setChain second chain)
  | .append => (.nothing, { h with a := h.a ++ h.b, b := [] })
  | .disarm name =>
    match h.timers.lookup name with
    | none => (.disarmed false, h)
    | some timer =>
      let (wasArmed, timers) := h.session.timers.disarm timer
      (.disarmed wasArmed, { h with session.timers := timers })

/-- A handler of one of the chains carries the operation. -/
def carries (h : Handlers) (op : OperationId) : Bool :=
  (h.a ++ h.b).any fun n => n.handler.operation? = some op

/-- Drops the operations that no handler carries any more. -/
def dropOrphans (h : Handlers) : Handlers :=
  { h with
    session := h.waiting.foldl
      (fun s w => if h.carries w.2 then s else s.complete w.2 (.error .dropped)) h.session }

/-- The operations that have been decided, with their outcomes. -/
def report (h : Handlers) : List (String × Except Failure Outcome) × Handlers :=
  (h.waiting.filterMap fun w => (h.session.outcome? w.2).map fun o => (w.1, o),
    { h with waiting := h.waiting.filter fun w => (h.session.outcome? w.2).isNone })

/-- What a step shows. -/
structure Shown where
  answer : HandlerAnswer
  log : List HandlerEntry
  reports : List (String × Except Failure Outcome)

/-- Takes a step, drops what nobody can complete and reports what is decided. -/
def perform (h : Handlers) (step : HandlerStep) : Shown × Handlers :=
  let (answer, h) := { h with session.host.log := #[] }.act step
  let (reports, h) := h.dropOrphans.report
  ({ answer, log := h.session.host.log.toList, reports }, h)

/-- The names of the handlers whose timers are armed. -/
def active (h : Handlers) : List String :=
  ((h.timers.filter fun t => h.session.timers.active t.2).map Prod.fst).mergeSort

end Handlers

end ZigbeeHost.Bench
