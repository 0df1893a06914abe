import ZigbeeHost.Event
import ZigbeeHost.Ledger
import ZigbeeHost.Roster
import ZigbeeHost.Timers
import ZigbeeHost.Chain
import ZigbeeHost.Config
/-!
# Sessions

A session pairs the frames of a co-processor with the operations that the host has under
way. It is one value : operations, timers and connections are numbers, and whoever is to
complete an operation is a piece of data that names it.

* An operation under way is carried by a handler in the chain, or by a subscriber that
  watches an event and is listed among the tracked operations. The ledger `operations`
  holds the outcome of every operation ever issued, and `complete` decides an operation
  at most once.
* Handlers and subscribers of the application are numbers too. What they do when they are
  called is an `Application` : it may use the session while the session is calling it.
* `host` is the application's own state, which the session carries along.
-/

namespace ZigbeeHost

/-! ## Operations -/

/-- The identity of an operation. -/
abbrev OperationId := Nat

/-- What the application gives a session to call : its handlers, its subscribers and
whoever carries on with an answer. -/
abbrev CallbackId := Nat

/-- What an operation yields : the payload of an answer, or the value of the event that
it waited for. -/
inductive Outcome where
  | payload (bytes : Bytes)
  | reset (info : ResetInfo)
  | state (state : DeviceState)
  deriving DecidableEq

/-- What a wait looks for : frames of a kind and command, with given bytes in front. -/
structure Pattern where
  kind : FrameKind
  command : Command
  opening : Bytes := []
  deriving DecidableEq

/-- The payload behind the opening, if the frame is one that the pattern looks for. -/
def Pattern.match? (p : Pattern) (f : Frame) : Option Bytes :=
  if f.kind = p.kind ∧ f.command = p.command ∧ p.opening.isPrefixOf f.payload then
    some (f.payload.drop p.opening.length)
  else none

/-- An operation that is to wait for a frame, for a window of time or for ever. -/
structure Wait where
  pattern : Pattern
  window : Option Nat
  operation : OperationId
  deriving DecidableEq

/-- The frame that confirms a request after its answer. -/
structure Confirmation where
  command : Command
  window : Option Nat := none
  opening : Bytes := []
  deriving DecidableEq

/-- What becomes of an operation when its request is answered. -/
inductive Aftermath where
  /-- The answer is its outcome. -/
  | settle (operation : OperationId)
  /-- After an answer of success it waits for the confirmation. -/
  | confirm (confirmation : Confirmation) (operation : OperationId)
  /-- The answer tells the device's state, and the operation waits for a state in `ends`
  as long as all states before it are in `allowed`. -/
  | follow (ends allowed : List DeviceState) (operation : OperationId)
  /-- The application carries on with the answer. -/
  | application (callback : CallbackId)
  deriving DecidableEq

/-- The operation that an answer concerns. The application accounts for its own. -/
def Aftermath.operation? : Aftermath → Option OperationId
  | settle op => some op
  | confirm _ op => some op
  | follow _ _ op => some op
  | application _ => none

/-! ## Handlers -/

/-- What a session does with frames. -/
inductive Handler where
  /-- Emits the event that the frames of a kind and command carry. Permanent. -/
  | indication (kind : FrameKind) (command : Command) (event : Event) (lenient : Bool)
  /-- Takes the answer to a request. -/
  | response (accepted : List Command) (aftermath : Aftermath)
  | wait (pattern : Pattern) (operation : OperationId)
  /-- A handler for as long as a timer is armed. -/
  | timed (timer : TimerId) (inner : Handler)
  /-- A handler of the application. -/
  | custom (callback : CallbackId) (permanent : Bool)
  deriving DecidableEq

/-- The handler outlives a teardown. -/
def Handler.permanent : Handler → Bool
  | indication .. => true
  | timed _ inner => inner.permanent
  | custom _ p => p
  | _ => false

/-- The operation that the handler carries. -/
def Handler.operation? : Handler → Option OperationId
  | response _ aftermath => aftermath.operation?
  | wait _ op => some op
  | timed _ inner => inner.operation?
  | _ => none

/-! ## Subscribers -/

/-- The identity of a subscription. -/
abbrev Connection := Nat

/-- What an operation watches an event for. -/
inductive Watch where
  | nextReset
  | decisiveState (ends allowed : List DeviceState)
  deriving DecidableEq

/-- The outcome that an indication decides, if it does : the first reset, or the first
state that is an end or is not allowed. -/
def Watch.verdict? : Watch → Indication → Option (Except Failure Outcome)
  | nextReset, .reset info => some (.ok (.reset info))
  | decisiveState ends allowed, .stateChange state =>
    if state ∈ ends then some (.ok (.state state))
    else if state ∉ allowed then some (.error (.invalidState state))
    else none
  | _, _ => none

/-- Who hears an event. -/
inductive Subscriber where
  | application (callback : CallbackId)
  /-- Completes an operation and detaches when an indication decides it. -/
  | watcher (watch : Watch) (operation : OperationId)
  deriving DecidableEq

/-- A subscriber with its connection. -/
structure Slot where
  connection : Connection
  event : Event
  subscriber : Subscriber
  deriving DecidableEq

/-- An operation that a subscriber is to complete. -/
structure Tracked where
  connection : Connection
  operation : OperationId
  deriving DecidableEq

/-! ## The session -/

/-- A session, with the application's state. -/
structure Session (η : Type) where
  config : SessionConfig
  host : η
  /-- The clock, in milliseconds. -/
  now : Nat := 0
  /-- Handlers in the order of their installation. -/
  chain : List Handler
  timers : Timers OperationId := {}
  /-- The outcome of each operation, once it is decided. -/
  operations : Ledger Outcome := #[]
  /-- Who subscribed, in that order. Whoever detaches stays stored until the next emission of
  its event is over. -/
  subscribers : Roster Slot.connection := .empty
  /-- The subscribers of the application that are being called. -/
  running : List Connection := []
  tracked : List Tracked := []
  /-- Frames to be sent. -/
  outbound : List Frame := []
  /-- How many frames are being dispatched, one inside the other. -/
  depth : Nat := 0
  /-- The first teardown asked for while a frame is dispatched. -/
  deferred : Option Failure := none

/-- What a handler of the application answers : its verdict, and the waits that it wants
installed when the dispatch is done. Whoever carries on with an answer has no verdict to
give, but may ask for waits too. -/
structure Reply where
  verdict : Verdict := .pass
  waits : List Wait := []
  tracked : List Tracked := []

/-- How the application behaves when a session calls it. -/
structure Application (η : Type) where
  /-- A subscriber hears an indication. -/
  hear : CallbackId → Connection → Indication → Session η → Session η
  /-- A handler is offered a frame. -/
  offer : CallbackId → Frame → Session η → Session η × Reply
  /-- A request is answered, or it failed. -/
  answered : CallbackId → Except Failure Bytes → Session η → Session η × Reply :=
    fun _ _ s => (s, {})
  /-- A handler is aborted. -/
  abort : CallbackId → Failure → Session η → Session η

namespace Session

variable {η : Type}

/-- A new session listens for all events. -/
def start (config : SessionConfig) (host : η) : Session η where
  config := config
  host := host
  chain := Event.all.map fun e => .indication .areq e.command e e.lenient

/-! ## Operations -/

/-- Issues an operation. -/
def issue (s : Session η) : OperationId × Session η :=
  (s.operations.size, { s with operations := s.operations.push none })

/-- The outcome of an operation, once it is decided. -/
def outcome? (s : Session η) (op : OperationId) : Option (Except Failure Outcome) :=
  s.operations.outcome? op

/-- Decides an operation, unless it is decided already. -/
def complete (op : OperationId) (outcome : Except Failure Outcome) (s : Session η) :
    Session η :=
  { s with operations := (s.operations.complete op outcome).2 }

/-- Drops all operations that are not decided: nobody is left to complete them. -/
def abandon (s : Session η) : Session η := { s with operations := s.operations.abandon }

/-! ## Subscribers -/

/-- The connected subscribers in the order of their subscription. -/
def slots (s : Session η) : List Slot := s.subscribers.live

/-- The connection of whoever subscribes next. -/
def freshConnection (s : Session η) : Connection := s.subscribers.fresh

/-- Attaches a subscriber to an event. -/
def subscribe (event : Event) (subscriber : Subscriber) (s : Session η) :
    Connection × Session η :=
  (s.freshConnection,
    { s with subscribers := s.subscribers.add ⟨s.freshConnection, event, subscriber⟩ rfl })

/-- Detaches a subscriber. -/
def disconnect (connection : Connection) (s : Session η) : Session η :=
  { s with subscribers := s.subscribers.lower connection }

/-- The subscriber is attached. -/
def isConnected (s : Session η) (connection : Connection) : Bool :=
  s.subscribers.raised connection

/-- The subscribers of an event that are connected. -/
def audience (s : Session η) (event : Event) : List Slot :=
  s.slots.filter (·.event = event)

/-- The subscribers of an event that are stored, connected or not. -/
def stored (s : Session η) (event : Event) : List Slot :=
  s.subscribers.stored.filter (·.event = event)

/-- Keeps only those subscribers of an event that are connected. -/
def retain (event : Event) (s : Session η) : Session η :=
  { s with subscribers := s.subscribers.sweep (·.event = event) }

/-- A tracked operation that is completed, or whose subscriber is gone. -/
def isDone (s : Session η) (t : Tracked) : Bool :=
  (s.outcome? t.operation).isSome || !s.isConnected t.connection

/-- Lists an operation that a subscriber is to complete, so that a teardown finds it;
those that are done leave the list. -/
def track (t : Tracked) (s : Session η) : Session η :=
  { s with tracked := s.tracked.filter (fun u => !s.isDone u) ++ [t] }

/-! ## Handlers, timers and frames to be sent -/

/-- Appends a handler to the chain. -/
def addHandler (h : Handler) (s : Session η) : Session η :=
  { s with chain := s.chain ++ [h] }

/-- Installs a wait; its window opens now. -/
def install (w : Wait) (s : Session η) : Session η :=
  match w.window with
  | none => s.addHandler (.wait w.pattern w.operation)
  | some window =>
    let (timer, timers) := s.timers.arm (s.now + window) w.operation
    { s with timers }.addHandler (.timed timer (.wait w.pattern w.operation))

/-- Disarms a timer. -/
def disarm (timer : TimerId) (s : Session η) : Session η :=
  { s with timers := (s.timers.disarm timer).2 }

/-- Fails the operations whose window has closed. -/
def expireTimers (s : Session η) : Session η :=
  let (alarms, timers) := s.timers.expire s.now
  alarms.foldl (fun s op => s.complete op (.error .timeout)) { s with timers }

/-- Moves the clock. -/
def advance (millis : Nat) (s : Session η) : Session η := { s with now := s.now + millis }

/-- Queues a frame. -/
def send (f : Frame) (s : Session η) : Session η := { s with outbound := s.outbound ++ [f] }

/-- Takes the first frame to be sent. -/
def nextOutbound (s : Session η) : Option (Frame × Session η) :=
  match s.outbound with
  | [] => none
  | f :: rest => some (f, { s with outbound := rest })

/-- Takes all frames to be sent. -/
def takeOutbound (s : Session η) : List Frame × Session η :=
  (s.outbound, { s with outbound := [] })

end Session

end ZigbeeHost
