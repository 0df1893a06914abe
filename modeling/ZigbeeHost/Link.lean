import ZigbeeHost.Serial.Buffer
import ZigbeeHost.Session.Dispatch
/-!
# Links

A link moves frames between a serial line and a session. One round of `runOnce` reads
and delivers at most one frame, fires the timers that are due, and writes what the
session has queued as far as the line takes it.

A frame that cannot be read or encoded is skipped. A fatal failure of the line tears the
session down.
-/

namespace ZigbeeHost

/-- A serial line with the frame in transit in each direction. -/
structure Link where
  line : Line := {}
  inbound : Inbound := {}
  outbound : Outbound := {}

namespace Link

/-- How far writing came : whether it wrote a frame or what went wrong, the frame in
transit, the line, and the frames not taken yet. The frames that were taken are listed
with the answer of the buffer to each. -/
structure Sent where
  result : Except TransportFailure Bool
  outbound : Outbound
  line : Line
  queue : List Frame := []
  pushed : List (Frame × Except TransportFailure Unit) := []

/-- What was sent, behind a frame that was taken before. -/
def Sent.after (f : Frame) (answer : Except TransportFailure Unit) (sent : Sent) : Sent :=
  { sent with pushed := (f, answer) :: sent.pushed }

/-- Writes frames one after the other until the line takes no more. One that the buffer
refuses is skipped. -/
def sendQueue (outbound : Outbound) (line : Line) (busy : Bool) : (queue : List Frame) → Sent
  | [] => { result := .ok busy, outbound, line }
  | f :: queue =>
    match outbound.push f with
    | .error e => (sendQueue outbound line busy queue).after f (.error e)
    | .ok outbound =>
      match outbound.write line with
      | (.ok true, outbound, line) => (sendQueue outbound line true queue).after f (.ok ())
      | (.ok false, outbound, line) =>
        { result := .ok busy, outbound, line, queue, pushed := [(f, .ok ())] }
      | (.error e, outbound, line) =>
        { result := if e.fatal then .error e else .ok busy
          outbound, line, queue, pushed := [(f, .ok ())] }

/-- Writes the rest of the frame in transit, and then the queue. -/
def send (link : Link) (busy : Bool) (queue : List Frame) : Sent :=
  if link.outbound.idle then sendQueue link.outbound link.line busy queue
  else
    match link.outbound.write link.line with
    | (.ok true, outbound, line) => sendQueue outbound line true queue
    | (.ok false, outbound, line) => { result := .ok busy, outbound, line, queue }
    | (.error e, outbound, line) =>
      { result := if e.fatal then .error e else .ok busy, outbound, line, queue }

variable {η : Type}

/-- Reads and delivers at most one frame. The answer is whether there was one; a frame
that cannot be read is none, and a fatal failure of the line is an answer of its own. -/
def receive (app : Application η) (link : Link) (s : Session η) :
    Except TransportFailure Bool × Link × Session η :=
  let (found, inbound, line) := link.inbound.readFrame link.line
  let link := { link with inbound, line }
  match found with
  | .ok (some f) => (.ok true, link, s.deliver app f)
  | .ok none => (.ok false, link, s)
  | .error e => (if e.fatal then .error e else .ok false, link, s)

/-- Tears the session down after a fatal failure. -/
def fail (app : Application η) (e : TransportFailure) (link : Link) (s : Session η) :
    Except Failure Bool × Link × Session η :=
  (.error (.transport e), link, s.shutdown app (.transport e))

/-- Fires due timers and writes what is queued. -/
def finish (app : Application η) (busy : Bool) (link : Link) (s : Session η) :
    Except Failure Bool × Link × Session η :=
  let s := s.expireTimers
  let sent := link.send busy s.outbound
  let link := { link with outbound := sent.outbound, line := sent.line }
  let s := { s with outbound := sent.queue }
  match sent.result with
  | .ok busy => (.ok busy, link, s)
  | .error e => fail app e link s

/-- One round. The answer is whether a frame was transferred. -/
def runOnce (app : Application η) (link : Link) (s : Session η) :
    Except Failure Bool × Link × Session η :=
  match receive app link s with
  | (.ok busy, link, s) => finish app busy link s
  | (.error e, link, s) => fail app e link s

/-- Runs up to `rounds` rounds, until one fails. -/
def run (app : Application η) : (rounds : Nat) → Link → Session η →
    Option Failure × Link × Session η
  | 0, link, s => (none, link, s)
  | rounds + 1, link, s =>
    match runOnce app link s with
    | (.error e, link, s) => (some e, link, s)
    | (.ok _, link, s) => run app rounds link s

/-- The session when it has dispatched the frame that the next round delivers, if there is
one. -/
def dispatching? (app : Application η) (link : Link) (s : Session η) : Option (Session η) :=
  match (link.inbound.readFrame link.line).1 with
  | .ok (some f) => some (s.dispatched app f)
  | _ => none

/-- In one of the next rounds a deadline is too late for a clock that showed `origin` at
time zero. -/
def overrun (app : Application η) (origin : Instant) : (rounds : Nat) → Link → Session η → Bool
  | 0, _, _ => false
  | rounds + 1, link, s =>
    (dispatching? app link s).any (·.timers.overrun origin) ||
      match runOnce app link s with
      | (.error _, _, s) => s.timers.overrun origin
      | (.ok _, link, s) => s.timers.overrun origin || overrun app origin rounds link s

/-- Enough rounds to use up what a closed line holds. -/
def rounds (link : Link) : Nat := link.line.incoming.length + link.line.reads.length + 1

end Link

end ZigbeeHost
