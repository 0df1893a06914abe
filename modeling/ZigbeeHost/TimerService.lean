import ZigbeeHost.Roster
import ZigbeeHost.Timers
/-!
# A service for timers

A service stores timers, each with a token that it shares with whoever armed it. A timer is
disarmed by lowering its token, which leaves the list of the service alone. So the service passes
over the timers whose token is down, whatever it is asked, and drops them when it goes through its
list for an expiry.
-/

namespace ZigbeeHost

/-- The timers that are stored, in arming order, and the tokens of all that were ever armed. -/
abbrev TimerService (α : Type) := @Roster (Timer α) Timer.id

/-- Something that is done with timers. -/
inductive TimerAct (α : Type) where
  | arm (deadline : Nat) (alarm : α)
  | disarm (id : TimerId)
  | expire (now : Nat)

/-- What it yields. -/
inductive TimerAnswer (α : Type) where
  | armed (id : TimerId)
  | disarmed (wasArmed : Bool)
  | fired (alarms : List α)

namespace TimerService

variable {α : Type}

/-- Arms a timer. -/
def arm (deadline : Nat) (alarm : α) (t : TimerService α) : TimerId × TimerService α :=
  (t.fresh, t.add ⟨t.fresh, deadline, alarm⟩ rfl)

/-- The token of the timer is up. -/
def active (t : TimerService α) (id : TimerId) : Bool := t.raised id

/-- Lowers the token of a timer. The answer is whether it was up. -/
def disarm (id : TimerId) (t : TimerService α) : Bool × TimerService α :=
  (t.raised id, t.lower id)

/-- The timers due at `now` whose token is up, earliest deadline first. -/
def due (now : Nat) (t : TimerService α) : List (Timer α) :=
  (t.live.filter (·.deadline ≤ now)).mergeSort fun a b => a.deadline ≤ b.deadline

/-- The timers not due at `now` whose token is up. -/
def left (now : Nat) (t : TimerService α) : List (Timer α) := t.live.filter (now < ·.deadline)

/-- Whoever is left was stored before. -/
theorem left_sublist (now : Nat) (t : TimerService α) :
    (t.left now).Sublist (Roster.lowerAll (t.due now) t).2.stored := by
  rw [Roster.stored_lowerAll]
  exact List.filter_sublist.trans List.filter_sublist

/-- Once those that are due are disarmed, whose token is up is not due. -/
theorem mem_left {now : Nat} {t : TimerService α} (x : Timer α)
    (hx : x ∈ (Roster.lowerAll (t.due now) t).2.stored)
    (hup : (Roster.lowerAll (t.due now) t).2.raised x.id = true) : x ∈ t.left now := by
  rw [Roster.stored_lowerAll] at hx
  rw [Roster.raised_lowerAll, Bool.and_eq_true, List.all_eq_true] at hup
  have hlive : x ∈ t.live := List.mem_filter.2 ⟨hx, hup.1⟩
  refine List.mem_filter.2 ⟨hlive, decide_eq_true (Nat.lt_of_not_le fun hdue => ?_)⟩
  have hmem : x ∈ t.due now :=
    List.mem_mergeSort.2 (List.mem_filter.2 ⟨hlive, decide_eq_true hdue⟩)
  exact bne_iff_ne.1 (hup.2 x hmem) rfl

/-- Takes the timers due at `now`. Each is disarmed in its turn, and fires if its token was still
up then. -/
def take (now : Nat) (t : TimerService α) : List (Timer α) × TimerService α :=
  ((Roster.lowerAll (t.due now) t).1,
    (Roster.lowerAll (t.due now) t).2.restock (t.left now) (left_sublist now t) mem_left)

/-- Takes the alarms of the timers due at `now`. -/
def expire (now : Nat) (t : TimerService α) : List α × TimerService α :=
  ((t.take now).1.map Timer.alarm, (t.take now).2)

/-- The earliest deadline of a timer whose token is up. -/
def nextDeadline? (t : TimerService α) : Option Nat := (t.live.map Timer.deadline).min?

/-- How many of the timers have their token up. -/
def size (t : TimerService α) : Nat := t.live.length

/-- No timer has its token up. -/
def isEmpty (t : TimerService α) : Bool := t.size == 0

/-- Does something with the timers. -/
def perform (t : TimerService α) : TimerAct α → TimerAnswer α × TimerService α
  | .arm deadline alarm => (.armed (t.arm deadline alarm).1, (t.arm deadline alarm).2)
  | .disarm id => (.disarmed (t.disarm id).1, (t.disarm id).2)
  | .expire now => (.fired (t.expire now).1, (t.expire now).2)

end TimerService

end ZigbeeHost
