import ZigbeeHost.TimerService
/-!
# A bench for timers

Timers with names as alarms, and a clock.
-/

namespace ZigbeeHost.Bench

/-- Timers, the clock, and the timers that were armed by name, in arming order. -/
structure Timing where
  now : Nat := 0
  timers : TimerService String := .empty
  names : List (String × TimerId) := []

/-- A step at the timers. -/
inductive TimingStep where
  | arm (name : String) (deadline : Nat)
  | advance (millis : Nat)
  | disarm (name : String)
  | expire

/-- What a step yields. -/
inductive TimingAnswer where
  | nothing
  | disarmed (wasArmed : Bool)
  | fired (names : List String)

/-- Takes a step. -/
def Timing.perform (t : Timing) : TimingStep → TimingAnswer × Timing
  | .arm name deadline =>
    let (id, timers) := t.timers.arm deadline name
    (.nothing, { t with timers, names := t.names ++ [(name, id)] })
  | .advance millis => (.nothing, { t with now := t.now + millis })
  | .disarm name =>
    match t.names.lookup name with
    | none => (.disarmed false, t)
    | some id =>
      let (wasArmed, timers) := t.timers.disarm id
      (.disarmed wasArmed, { t with timers })
  | .expire =>
    let (fired, timers) := t.timers.expire t.now
    (.fired fired, { t with timers })

/-- The names of the armed timers, in arming order. -/
def Timing.active (t : Timing) : List String :=
  (t.names.filter fun n => t.timers.active n.2).map Prod.fst

end ZigbeeHost.Bench
