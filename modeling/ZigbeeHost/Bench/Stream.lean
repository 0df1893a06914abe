import ZigbeeHost.Scenario.Play
/-!
# A bench for buffers

The two buffers of a link over one serial line, without a session.
-/

namespace ZigbeeHost.Bench

open Scenario (LineStep)

/-- A step at the buffers. -/
inductive StreamStep where
  | serial (step : LineStep)
  | read
  | push (frame : Frame)
  | write

/-- What a step yields. -/
inductive StreamAnswer where
  | serial (answer : Scenario.Answer)
  | read (found : Except TransportFailure (Option Frame))
  | pushed (result : Except TransportFailure Unit)
  | wrote (result : Except TransportFailure Bool)

namespace StreamStep

/-- Takes a step. A frame that is refused leaves the buffer as it is. -/
def perform (p : Link) : StreamStep → StreamAnswer × Link
  | serial step =>
    let (answer, line) := step.apply p.line
    (.serial answer, { p with line })
  | read =>
    let (found, inbound, line) := p.inbound.readFrame p.line
    (.read found, { p with inbound, line })
  | push frame =>
    match p.outbound.push frame with
    | .ok outbound => (.pushed (.ok ()), { p with outbound })
    | .error e => (.pushed (.error e), p)
  | write =>
    let (result, outbound, line) := p.outbound.write p.line
    (.wrote result, { p with outbound, line })

end StreamStep

end ZigbeeHost.Bench
