import ZigbeeHost.Proofs.Session.Steps
import ZigbeeHost.Proofs.Timers
/-!
# The timers of a session, as a service keeps them

A session runs on timers that forget at once who fired or was disarmed. All that its small steps
ever do with them is to arm, to disarm and to let expire (`Session.Steps.serves`), so in every run
they are what a `TimerService` shows with which the same was done (`Reachable.served`), and what is
known of a service is known of them.
-/

namespace ZigbeeHost

variable {η : Type} {L : Licence η}

theorem Timers.run_append {α : Type} (t : Timers α) (acts acts' : List (TimerAct α)) :
    (t.run (acts ++ acts')).2 = ((t.run acts).2.run acts').2 := by
  induction acts generalizing t with
  | nil => rfl
  | cons a acts ih => exact ih (t.perform a).2

namespace Session

/-- Some acts lead from the timers of `s` to those of `t`. -/
def Serves (s t : Session η) : Prop :=
  ∃ acts : List (TimerAct OperationId), t.timers = (s.timers.run acts).2

theorem Serves.of_eq {s t : Session η} (h : t.timers = s.timers) : Serves s t := ⟨[], h⟩

theorem Serves.of_act {s t : Session η} (a : TimerAct OperationId)
    (h : t.timers = (s.timers.perform a).2) : Serves s t := ⟨[a], h⟩

theorem Serves.trans {s t u : Session η} (h : Serves s t) (h' : Serves t u) : Serves s u := by
  obtain ⟨acts, ht⟩ := h
  obtain ⟨acts', hu⟩ := h'
  exact ⟨acts ++ acts', by rw [hu, ht, Timers.run_append]⟩

/-- A wait with a window arms one timer. -/
theorem serves_install (s : Session η) (w : Wait) : Serves s (s.install w) := by
  unfold install
  split
  · exact .of_eq rfl
  · rename_i window _
    exact .of_act (.arm (s.now + window) w.operation) rfl

theorem Step.serves {s t : Session η} (h : Step s t) : Serves s t := by
  cases h with
  | issue | subscribe | disconnect | advance => exact .of_eq rfl
  | complete op outcome => exact .of_eq (complete_timers ..)
  | install w => exact serves_install s w
  | disarm timer => exact .of_act (.disarm timer) rfl
  | expire =>
    rw [expireTimers_eq]
    exact .of_act (.expire s.now) rfl
  | other hnow htimers => exact .of_eq htimers

/-- Nothing is done with timers but to arm, to disarm and to let expire. -/
theorem Steps.serves {s t : Session η} (h : s.Steps t) : Serves s t := by
  induction h with
  | refl => exact .of_eq rfl
  | tail _ hstep ih => exact ih.trans hstep.serves

end Session

/-- The timers of a session are what a service shows after some course. An expiry of that service
would fire the same alarms, and it has the same deadline next. -/
theorem Reachable.served {s : Session η} (hs : Reachable L s) :
    ∃ acts : List (TimerAct OperationId),
      let service := (TimerCourse.run acts).timers
      s.timers = service.view ∧ (∀ id, s.timers.active id = service.active id) ∧
      s.timers.nextDeadline? = service.nextDeadline? ∧
      ∀ now, (s.timers.expire now).1 = (service.expire now).1 ∧
        (s.timers.expire now).2 = (service.expire now).2.view := by
  obtain ⟨config, host, h⟩ := hs
  obtain ⟨acts, hacts⟩ := h.steps.serves
  have hrun : (TimerCourse.run acts).timers = (TimerService.run .empty acts).2 :=
    TimerCourse.foldl_timers acts {}
  have hview := (TimerService.run_view (.empty : TimerService OperationId) acts).2
  refine ⟨acts, ?_⟩
  intro service
  have hsame : s.timers = service.view := by
    rw [hacts, show service = (TimerService.run .empty acts).2 from hrun, hview]
    rfl
  refine ⟨hsame, fun id => ?_, ?_, fun now => ?_⟩
  · rw [hsame, service.active_view]
  · rw [hsame, service.nextDeadline?_view]
  · obtain ⟨hanswer, hexpired⟩ := service.perform_view (.expire now)
    rw [hsame]
    exact ⟨(TimerAnswer.fired.inj hanswer).symm, hexpired.symm⟩

end ZigbeeHost
