import Mathlib.Logic.Relation
import ZigbeeHost.Proofs.Session.Stable
import ZigbeeHost.Proofs.Session.Timed
/-!
# Small steps

Whatever happens to a session happens in small steps (`Session.Step`) : an operation is
issued or completed, a subscriber comes or goes, a wait is installed, a timer is disarmed or
fires, the clock moves. Each deed is a sequence of them, with all that the callbacks in it do
(`Session.steps_perform`), and so is each run (`Uses.steps`). What one step keeps therefore
holds at any point of a run, inside of dispatches too.

Timers have two such properties. A timer that is not armed any more is never armed again, and
an armed one never changes (`Session.Steps.ages`). And every timer was armed when a wait was
installed, for the time that it was then and the window of the wait
(`Session.Steps.mem_armed`).
-/

namespace ZigbeeHost

variable {η : Type}

namespace Session

/-- A small change of a session. -/
inductive Step : Session η → Session η → Prop
  | issue (s : Session η) : Step s s.issue.2
  | complete (s : Session η) (op : OperationId) (outcome : Except Failure Outcome) :
      Step s (s.complete op outcome)
  | subscribe (s : Session η) (event : Event) (subscriber : Subscriber) :
      Step s (s.subscribe event subscriber).2
  | disconnect (s : Session η) (connection : Connection) : Step s (s.disconnect connection)
  | install (s : Session η) (w : Wait) : Step s (s.install w)
  | disarm (s : Session η) (timer : TimerId) : Step s (s.disarm timer)
  | expire (s : Session η) : Step s s.expireTimers
  | advance (s : Session η) (millis : Nat) : Step s (s.advance millis)
  /-- A change of the chain, the tracked operations, the queue of frames, the dispatches under
  way or the application's state. -/
  | other {s t : Session η} (hnow : t.now = s.now) (htimers : t.timers = s.timers)
      (hoperations : t.operations = s.operations) (hslots : t.slots = s.slots)
      (hfresh : t.freshConnection = s.freshConnection) : Step s t

/-- Small changes lead from one session to another. -/
abbrev Steps : Session η → Session η → Prop := Relation.ReflTransGen Step

/-! ## Deeds are sequences of small steps -/

theorem stable_steps : Stable (Steps (η := η)) where
  refl _ := .refl
  trans := .trans
  complete s op outcome := .single (.complete s op outcome)
  subscribe s event subscriber := .single (.subscribe s event subscriber)
  disconnect s connection := .single (.disconnect s connection)
  retain s event := .single (.other rfl rfl rfl (slots_retain event s) rfl)
  disarm s timer := .single (.disarm s timer)
  running _ _ := .single (.other rfl rfl rfl rfl rfl)

/-- The end of a dispatch is made of small steps. -/
theorem steps_leave (chain : List Handler) (waits : List Wait) (tracked : List Tracked)
    (s : Session η) : Steps s (s.leave chain waits tracked) := by
  have hback : Steps s { s.restore chain with depth := s.depth - 1 } :=
    .single (.other rfl rfl rfl rfl rfl)
  have htrack (t : Session η) (x : Tracked) : Steps t (t.track x) :=
    .single (.other rfl rfl rfl rfl rfl)
  exact hback.trans ((stable_steps.foldl (fun t w => .single (.install t w)) waits _).trans
    (stable_steps.foldl htrack tracked _))

theorem steps_call (c : Call) (s : Session η) : Steps s (s.call c).2 := by
  have hissue : Steps s s.issue.2 := .single (.issue s)
  cases c with
  | request r =>
    simp only [call, request]
    split
    · exact .refl
    · unfold exchange
      split
      · exact .refl
      · exact hissue.tail (.other rfl rfl rfl rfl rfl)
  | reset soft => exact (hissue.tail (.subscribe ..)).tail (.other rfl rfl rfl rfl rfl)
  | reachState ends allowed => exact hissue.tail (.other rfl rfl rfl rfl rfl)
  | waitFor p window => exact hissue.tail (.install ..)

section Callbacks

variable {L : Licence η} {app : Application η} (happ : app.Keeps L fun s _ t => Steps s t)
include happ

/-- A teardown is made of small steps. -/
theorem steps_shutdown (e : Failure) (s : Session η) : Steps s (s.shutdown app e) := by
  unfold shutdown
  split
  · have hcleared : Steps s { s with chain := [], tracked := [], outbound := [] } :=
      .single (.other rfl rfl rfl rfl rfl)
    have hdrain := stable_steps.drain happ e s.chain
      { s with chain := [], tracked := [], outbound := [] }
    exact ((hcleared.trans hdrain).trans (stable_steps.abortTracked e s.tracked _)).tail
      (.other rfl rfl rfl rfl rfl)
  · exact .single (.other rfl rfl rfl rfl rfl)

/-- A delivery is made of small steps. -/
theorem steps_deliver (f : Frame) (s : Session η) : Steps s (s.deliver app f) := by
  have hsettle (t : Session η) : Steps t (t.settleDeferred app) := by
    unfold settleDeferred
    split
    · have hcleared : Steps t { t with deferred := none } :=
        .single (.other rfl rfl rfl rfl rfl)
      exact hcleared.trans (steps_shutdown happ _ _)
    · exact .refl
  have henter : Steps s s.enter := .single (.other rfl rfl rfl rfl rfl)
  exact ((henter.trans (stable_steps.walk happ f s.chain s.enter)).trans
    (steps_leave ..)).trans (hsettle _)

/-- Every deed is made of small steps. -/
theorem steps_perform (d : Deed η) (s : Session η) : Steps s (d.perform app s) := by
  cases d with
  | call c => exact steps_call c s
  | ask x callback =>
    simp only [Deed.perform, ask]
    split
    · exact .refl
    · exact .single (.other rfl rfl rfl rfl rfl)
  | deliver f => exact steps_deliver happ f s
  | advance millis => exact .single (.advance s millis)
  | expire => exact .single (.expire s)
  | shutdown e => exact steps_shutdown happ e s
  | next =>
    simp only [Deed.perform, nextOutbound]
    split
    · exact .refl
    · exact .single (.other rfl rfl rfl rfl rfl)
  | subscribe event callback => exact .single (.subscribe s event _)
  | disconnect connection => exact .single (.disconnect s connection)
  | emit i => exact stable_steps.emit happ i s
  | send | takeAll | addHandler | think => exact .single (.other rfl rfl rfl rfl rfl)

end Callbacks

theorem steps_kept (L : Licence η) : L.Kept fun s _ t => Steps s t where
  refl _ := .refl
  deed hst _ happ _ _ := (hst.trans (steps_perform happ _ _)).tail (.other rfl rfl rfl rfl rfl)
  wait _ _ hst _ := hst.tail (.issue _)

end Session

/-- A run is a sequence of small steps. -/
theorem Uses.steps {L : Licence η} {s t : Session η} {ws : List Wait} (h : Uses L s ws t) :
    s.Steps t :=
  h.keeps (Session.steps_kept L)

theorem Lawful.steps {L : Licence η} {app : Application η} (happ : Lawful L app) :
    app.Keeps L fun s _ t => Session.Steps s t :=
  happ.keeps (Session.steps_kept L)

/-- A relation that looks at the ledger and the subscribers only holds of a small step, if it
holds of changes to these. -/
theorem Narrow.step {R : Session η → Session η → Prop} (hR : Narrow R) :
    ∀ {s t : Session η}, s.Step t → R s t
  | _, _, .issue s => hR.issue s
  | _, _, .complete s op outcome => hR.complete s op outcome
  | _, _, .subscribe s event subscriber => hR.subscribe s event subscriber
  | _, _, .disconnect s connection => hR.disconnect s connection
  | _, _, .install s w => hR.install s w
  | _, _, .disarm s timer => hR.stable.disarm s timer
  | _, _, .expire s =>
    have hfires : R s { s with timers := (s.timers.expire s.now).2 } := hR.other rfl rfl rfl
    hR.trans hfires (hR.stable.foldl (fun s op => hR.complete s op _) _ _)
  | _, _, .advance s millis => hR.other rfl rfl rfl
  | _, _, .other _ _ hoperations hslots hfresh => hR.other hoperations hslots hfresh

/-- What small steps keep holds from the first session to the last. -/
theorem Narrow.steps {R : Session η → Session η → Prop} (hR : Narrow R) {s t : Session η}
    (h : s.Steps t) : R s t := by
  induction h with
  | refl => exact hR.stable.refl s
  | tail _ hstep ih => exact hR.trans ih (hR.step hstep)

/-! ## Timers along small steps -/

/-- Timers may have come, and timers may have gone for good. -/
structure Timers.Ages {α : Type} (t t' : Timers α) : Prop where
  fresh_le : t.fresh ≤ t'.fresh
  armed : ∀ e ∈ t'.armed, e.id < t.fresh → e ∈ t.armed

namespace Timers.Ages

variable {α : Type} {t t' t'' : Timers α}

theorem refl (t : Timers α) : t.Ages t := ⟨Nat.le_refl _, fun _ he _ => he⟩

theorem trans (h : t.Ages t') (h' : t'.Ages t'') : t.Ages t'' where
  fresh_le := Nat.le_trans h.fresh_le h'.fresh_le
  armed e he hlt := h.armed e (h'.armed e he (Nat.lt_of_lt_of_le hlt h.fresh_le)) hlt

/-- A timer that was issued and is not armed stays so. -/
theorem not_active (h : t.Ages t') {id : TimerId} (hlt : id < t.fresh)
    (hid : t.active id = false) : t'.active id = false := by
  rw [Bool.eq_false_iff, Ne, active_iff] at hid ⊢
  rintro ⟨e, he, rfl⟩
  exact hid ⟨e, h.armed e he hlt, rfl⟩

theorem arm (t : Timers α) (deadline : Nat) (alarm : α) : t.Ages (t.arm deadline alarm).2 where
  fresh_le := Nat.le_succ _
  armed e he hlt := by
    rcases List.mem_append.1 he with he | he
    · exact he
    · rw [List.mem_singleton.1 he] at hlt
      exact absurd hlt (Nat.lt_irrefl _)

end Timers.Ages

namespace Session

theorem ages_install (s : Session η) (w : Wait) : s.timers.Ages (s.install w).timers := by
  unfold install
  split
  · exact .refl _
  · exact .arm ..

theorem Step.ages {s t : Session η} (h : Step s t) : s.timers.Ages t.timers := by
  cases h with
  | issue | subscribe | disconnect | advance => exact .refl _
  | complete op outcome =>
    rw [complete_timers]
    exact .refl _
  | install w => exact ages_install s w
  | disarm timer => exact ⟨Nat.le_refl _, fun e he _ => (List.mem_filter.1 he).1⟩
  | expire =>
    rw [expireTimers_eq]
    exact ⟨Nat.le_refl _, fun e he _ => (List.mem_filter.1 he).1⟩
  | other hnow htimers =>
    rw [htimers]
    exact .refl _

/-- No step arms a timer anew. -/
theorem Steps.ages {s t : Session η} (h : s.Steps t) : s.timers.Ages t.timers := by
  induction h with
  | refl => exact .refl _
  | tail _ hstep ih => exact ih.trans hstep.ages

/-- A timer that a step adds is that of a wait which the step installs. -/
theorem Step.mem_armed {s t : Session η} (h : Step s t) {e : Timer OperationId}
    (he : e ∈ t.timers.armed) : e ∈ s.timers.armed ∨ ∃ w window,
      w.window = some window ∧ e = ⟨s.timers.fresh, s.now + window, w.operation⟩ ∧
        t = s.install w := by
  cases h with
  | issue | subscribe | disconnect | advance => exact .inl he
  | complete op outcome => exact .inl (by rwa [complete_timers] at he)
  | install w =>
    unfold Session.install at he
    split at he
    · exact .inl he
    · rename_i window hwindow
      rcases List.mem_append.1 he with he | he
      · exact .inl he
      · exact .inr ⟨w, window, hwindow, List.mem_singleton.1 he, rfl⟩
  | disarm timer => exact .inl (List.mem_filter.1 he).1
  | expire =>
    rw [expireTimers_eq] at he
    exact .inl (List.mem_filter.1 he).1
  | other hnow htimers => exact .inl (by rwa [htimers] at he)

/-- Every timer was armed when a wait was installed, until the window of the wait had passed
from then. -/
theorem Steps.mem_armed {s t : Session η} (h : s.Steps t) {e : Timer OperationId}
    (he : e ∈ t.timers.armed) : e ∈ s.timers.armed ∨ ∃ u w window, s.Steps u ∧
      w.window = some window ∧ e = ⟨u.timers.fresh, u.now + window, w.operation⟩ ∧
        (u.install w).Steps t := by
  induction h with
  | refl => exact .inl he
  | @tail u t hsu hstep ih =>
    rcases hstep.mem_armed he with he | ⟨w, window, hwindow, heq, rfl⟩
    · refine (ih he).imp_right ?_
      rintro ⟨v, w, window, hsv, hwindow, heq, hvu⟩
      exact ⟨v, w, window, hsv, hwindow, heq, hvu.tail hstep⟩
    · exact .inr ⟨u, w, window, hsu, hwindow, heq, .refl⟩

/-- A timer that is armed was issued. -/
theorem Steps.armed_lt {s t : Session η} (h : s.Steps t)
    (hs : ∀ e ∈ s.timers.armed, e.id < s.timers.fresh) :
    ∀ e ∈ t.timers.armed, e.id < t.timers.fresh := by
  intro e he
  rcases h.mem_armed he with he | ⟨u, w, window, -, hwindow, rfl, hut⟩
  · exact Nat.lt_of_lt_of_le (hs e he) h.ages.fresh_le
  · refine Nat.lt_of_lt_of_le ?_ hut.ages.fresh_le
    simp [install, hwindow, Timers.arm, addHandler]

/-- As long as the timer of a wait is armed, it is as it was when the wait was installed. -/
theorem Steps.armed_install {u t : Session η} {w : Wait} {window : Nat}
    (hu : ∀ e ∈ u.timers.armed, e.id < u.timers.fresh) (hwindow : w.window = some window)
    (h : (u.install w).Steps t) {e : Timer OperationId} (he : e ∈ t.timers.armed)
    (hid : e.id = u.timers.fresh) : e = ⟨u.timers.fresh, u.now + window, w.operation⟩ := by
  have htimers : (u.install w).timers = (u.timers.arm (u.now + window) w.operation).2 := by
    simp [install, hwindow, addHandler]
  have hlt : e.id < (u.install w).timers.fresh := by
    rw [htimers, hid]
    exact Nat.lt_succ_self _
  have hmem := h.ages.armed e he hlt
  rw [htimers] at hmem
  rcases List.mem_append.1 hmem with hmem | hmem
  · exact absurd hid (Nat.ne_of_lt (hu e hmem))
  · exact List.mem_singleton.1 hmem

end Session

end ZigbeeHost
