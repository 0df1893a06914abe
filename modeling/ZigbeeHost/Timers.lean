import ZigbeeHost.Instant
/-!
# Timers

Timers are armed with a deadline and an alarm, and have identities. `expire` takes the
timers that are due, earliest deadline first and in arming order where deadlines agree.
A timer that fired or was disarmed is gone, so its identity is active exactly as long as
the timer is armed. A `TimerService` forgets its timers later, and shows the same.
-/

namespace ZigbeeHost

/-- The identity of a timer. -/
abbrev TimerId := Nat

/-- An armed timer. Times are milliseconds. -/
structure Timer (α : Type) where
  id : TimerId
  deadline : Nat
  alarm : α

/-- The armed timers in arming order. -/
structure Timers (α : Type) where
  armed : List (Timer α) := []
  /-- The identity of the next timer. -/
  fresh : TimerId := 0

namespace Timers

variable {α : Type}

/-- Arms a timer. -/
def arm (deadline : Nat) (alarm : α) (t : Timers α) : TimerId × Timers α :=
  (t.fresh, { armed := t.armed ++ [⟨t.fresh, deadline, alarm⟩], fresh := t.fresh + 1 })

/-- The timer is armed. -/
def active (t : Timers α) (id : TimerId) : Bool := t.armed.any (·.id == id)

/-- Disarms a timer; the answer is whether it was armed. -/
def disarm (id : TimerId) (t : Timers α) : Bool × Timers α :=
  (t.active id, { t with armed := t.armed.filter (·.id != id) })

/-- The timers due at `now`, earliest deadline first. -/
def due (now : Nat) (t : Timers α) : List (Timer α) :=
  (t.armed.filter (·.deadline ≤ now)).mergeSort fun a b => a.deadline ≤ b.deadline

/-- Takes the alarms of the timers due at `now`. -/
def expire (now : Nat) (t : Timers α) : List α × Timers α :=
  ((t.due now).map Timer.alarm, { t with armed := t.armed.filter (now < ·.deadline) })

/-- The earliest deadline of an armed timer. -/
def nextDeadline? (t : Timers α) : Option Nat := (t.armed.map Timer.deadline).min?

/-- A deadline is too late for a clock that showed `origin` at time zero. -/
def overrun (origin : Instant) (t : Timers α) : Bool :=
  t.armed.any fun t => (origin.after? t.deadline).isNone

/-- How many timers are armed. -/
def size (t : Timers α) : Nat := t.armed.length

/-- No timer is armed. -/
def isEmpty (t : Timers α) : Bool := t.armed.isEmpty

end Timers

end ZigbeeHost
