import ZigbeeHost.Proofs.Roster
import ZigbeeHost.TimerService
/-!
# Timers over whole runs

A timer service stores timers that are disarmed behind its back, through their tokens. What it
shows are those whose token is up, and with these it does what `Timers` do that forget a timer at
once (`TimerService.run_view`).

Timers are armed, disarmed and let expire, in any order and at any times. A `TimerCourse`
keeps a record beside the service: the timers that were armed, the identities of those that an
expiry took, and of those that were found armed when they were disarmed. What is on neither
of the two lists is pending.

`TimerCourse.Fits` ties the service to the record, and each act keeps it
(`TimerCourse.Fits.act`). Everything that the service answers can therefore be read off the record
(`TimerCourse.run_regular`).
-/

namespace ZigbeeHost

variable {α : Type}

/-- An earlier deadline comes first, and with the same deadline whoever was armed first. -/
def Timer.Before (a b : Timer α) : Prop :=
  a.deadline < b.deadline ∨ a.deadline = b.deadline ∧ a.id < b.id

/-! ## Due timers -/

namespace Timers

variable {t : Timers α}

theorem due_perm (now : Nat) : (t.due now).Perm (t.armed.filter (·.deadline ≤ now)) :=
  List.mergeSort_perm ..

section Sorted

private theorem deadline_trans (a b c : Timer α) (hab : decide (a.deadline ≤ b.deadline) = true)
    (hbc : decide (b.deadline ≤ c.deadline) = true) : decide (a.deadline ≤ c.deadline) = true :=
  decide_eq_true (Nat.le_trans (of_decide_eq_true hab) (of_decide_eq_true hbc))

private theorem deadline_total (a b : Timer α) :
    (decide (a.deadline ≤ b.deadline) || decide (b.deadline ≤ a.deadline)) = true := by
  simpa using Nat.le_total a.deadline b.deadline

/-- Timers with the same deadline fire in the order in which they were armed. -/
theorem filter_due (now deadline : Nat) :
    (t.due now).filter (·.deadline = deadline) =
      (t.armed.filter (·.deadline ≤ now)).filter (·.deadline = deadline) := by
  let same := (t.armed.filter (·.deadline ≤ now)).filter (·.deadline = deadline)
  have hsame : ∀ x ∈ same, x.deadline = deadline := fun x hx =>
    of_decide_eq_true (List.mem_filter.1 hx).2
  have hsorted : same.Pairwise fun a b => decide (a.deadline ≤ b.deadline) = true :=
    List.pairwise_of_forall_mem_list fun a ha b hb =>
      decide_eq_true (Nat.le_of_eq ((hsame a ha).trans (hsame b hb).symm))
  have hkept : same.Sublist (t.due now) :=
    List.sublist_mergeSort deadline_trans deadline_total hsorted List.filter_sublist
  have hfiltered := hkept.filter (·.deadline = deadline)
  rw [List.filter_eq_self.2 fun x hx => decide_eq_true (hsame x hx)] at hfiltered
  exact (hfiltered.eq_of_length ((t.due_perm now).filter _).length_eq.symm).symm

/-- Those that are due are in the order of their deadlines, and then in arming order. -/
theorem due_pairwise (h : t.armed.Pairwise (·.id < ·.id)) (now : Nat) :
    (t.due now).Pairwise Timer.Before := by
  refine List.pairwise_iff_forall_sublist.2 fun {a b} hab => ?_
  have hle : a.deadline ≤ b.deadline := of_decide_eq_true <|
    List.pairwise_iff_forall_sublist.1 (List.pairwise_mergeSort deadline_trans deadline_total _) hab
  refine (Nat.lt_or_eq_of_le hle).imp id fun hsame => ⟨hsame, ?_⟩
  have hpair := hab.filter (·.deadline = a.deadline)
  rw [filter_due, List.filter_cons_of_pos (by simp), List.filter_cons_of_pos (by simp [hsame])]
    at hpair
  exact List.pairwise_iff_forall_sublist.1 ((h.filter _).filter _) hpair

end Sorted

/-- Does something with the timers. -/
def perform (t : Timers α) : TimerAct α → TimerAnswer α × Timers α
  | .arm deadline alarm => (.armed (t.arm deadline alarm).1, (t.arm deadline alarm).2)
  | .disarm id => (.disarmed (t.disarm id).1, (t.disarm id).2)
  | .expire now => (.fired (t.expire now).1, (t.expire now).2)

end Timers

/-! ## What a service shows -/

namespace TimerService

variable {t : TimerService α}

theorem mem_due {now : Nat} {x : Timer α} : x ∈ t.due now ↔ x ∈ t.live ∧ x.deadline ≤ now := by
  simp [due]

/-- No timer is due twice. -/
theorem due_nodup (now : Nat) (t : TimerService α) : ((t.due now).map Timer.id).Nodup := by
  have hlive : ((t.live.filter (·.deadline ≤ now)).map Timer.id).Nodup :=
    t.live_nodup.sublist (List.filter_sublist.map _)
  exact ((List.mergeSort_perm ..).map Timer.id).nodup_iff.2 hlive

/-- Nobody lowers the token of a timer between the two looks at it, so all that are due fire. -/
theorem take_fst (now : Nat) (t : TimerService α) : (t.take now).1 = t.due now :=
  Roster.found_lowerAll (fun _ hx => (Roster.mem_live.1 (mem_due.1 hx).1).2) (due_nodup now t)

@[simp] theorem live_arm (deadline : Nat) (alarm : α) (t : TimerService α) :
    (t.arm deadline alarm).2.live = t.live ++ [⟨t.fresh, deadline, alarm⟩] :=
  t.live_add ⟨t.fresh, deadline, alarm⟩ rfl

@[simp] theorem fresh_arm (deadline : Nat) (alarm : α) (t : TimerService α) :
    (t.arm deadline alarm).2.fresh = t.fresh + 1 :=
  t.fresh_add ⟨t.fresh, deadline, alarm⟩ rfl

@[simp] theorem live_disarm (id : TimerId) (t : TimerService α) :
    (t.disarm id).2.live = t.live.filter (·.id != id) := Roster.live_lower ..

@[simp] theorem fresh_disarm (id : TimerId) (t : TimerService α) :
    (t.disarm id).2.fresh = t.fresh := Roster.fresh_lower ..

/-- After an expiry those have their token up that had it before and are not due. -/
@[simp] theorem live_take (now : Nat) (t : TimerService α) :
    (t.take now).2.live = t.live.filter (now < ·.deadline) := by
  have hlowered : (Roster.lowerAll (t.due now) t).2.live =
      t.live.filter fun x => x.id ∉ (t.due now).map Timer.id := by
    rw [Roster.lowerAll_snd, Roster.live_lowerEach]
  rw [show (t.take now).2.live = (Roster.lowerAll (t.due now) t).2.live from
    Roster.live_restock (left_sublist now t) mem_left, hlowered]
  refine List.filter_congr fun x hx => ?_
  rw [decide_eq_decide]
  refine ⟨fun hnot => Nat.lt_of_not_le fun hdue =>
    hnot (List.mem_map_of_mem (mem_due.2 ⟨hx, hdue⟩)), fun hlater hmem => ?_⟩
  obtain ⟨y, hy, hsame⟩ := List.mem_map.1 hmem
  obtain ⟨hylive, hdue⟩ := mem_due.1 hy
  rw [List.inj_on_of_nodup_map t.live_nodup hylive hx hsame] at hdue
  exact Nat.not_lt_of_le hdue hlater

@[simp] theorem fresh_take (now : Nat) (t : TimerService α) : (t.take now).2.fresh = t.fresh := by
  have hflags : (t.take now).2.fresh = (Roster.lowerAll (t.due now) t).2.fresh := rfl
  rw [hflags, Roster.lowerAll_snd, Roster.fresh_lowerEach]

/-! ### The timers that forget at once -/

/-- What a service shows. -/
def view (t : TimerService α) : Timers α where
  armed := t.live
  fresh := t.fresh

/-- A token is up if the timer is armed. -/
theorem active_view (t : TimerService α) (id : TimerId) : t.active id = t.view.active id := by
  rw [Bool.eq_iff_iff, active, Roster.raised_iff_live]
  simp [Timers.active, view]

theorem nextDeadline?_view (t : TimerService α) : t.nextDeadline? = t.view.nextDeadline? := rfl

theorem size_view (t : TimerService α) : t.size = t.view.size := rfl

theorem isEmpty_view (t : TimerService α) : t.isEmpty = t.view.isEmpty := by
  rw [Bool.eq_iff_iff]
  simp [isEmpty, size, Timers.isEmpty, view]

/-- Whatever is done with a service, it answers as what it shows would, and shows what becomes of
that. -/
theorem perform_view (t : TimerService α) (a : TimerAct α) :
    (t.perform a).1 = (t.view.perform a).1 ∧ (t.perform a).2.view = (t.view.perform a).2 := by
  cases a with
  | arm deadline alarm =>
    refine ⟨rfl, ?_⟩
    simp only [perform, Timers.perform, view, Timers.arm, live_arm, fresh_arm]
  | disarm id =>
    refine ⟨congrArg TimerAnswer.disarmed (active_view t id), ?_⟩
    simp only [perform, Timers.perform, view, Timers.disarm, live_disarm, fresh_disarm]
  | expire now =>
    refine ⟨?_, ?_⟩
    · simp only [perform, Timers.perform, expire, take_fst]
      rfl
    · simp only [perform, Timers.perform, view, Timers.expire, expire, live_take, fresh_take]

/-- What a run of acts makes of a service, after the answers. -/
def run (t : TimerService α) : List (TimerAct α) → List (TimerAnswer α) × TimerService α
  | [] => ([], t)
  | a :: acts => ((t.perform a).1 :: ((t.perform a).2.run acts).1, ((t.perform a).2.run acts).2)

end TimerService

/-- What a run of acts makes of timers that forget at once, after the answers. -/
def Timers.run (t : Timers α) : List (TimerAct α) → List (TimerAnswer α) × Timers α
  | [] => ([], t)
  | a :: acts => ((t.perform a).1 :: ((t.perform a).2.run acts).1, ((t.perform a).2.run acts).2)

/-- A run of a service answers as one of timers that forget at once, and ends with what it shows. -/
theorem TimerService.run_view (t : TimerService α) (acts : List (TimerAct α)) :
    (t.run acts).1 = (t.view.run acts).1 ∧ (t.run acts).2.view = (t.view.run acts).2 := by
  induction acts generalizing t with
  | nil => exact ⟨rfl, rfl⟩
  | cons a acts ih =>
    obtain ⟨hanswer, hview⟩ := t.perform_view a
    obtain ⟨hanswers, hend⟩ := ih (t.perform a).2
    simp only [run, Timers.run]
    rw [hanswer, hanswers, hend, hview]
    exact ⟨rfl, rfl⟩

/-! ## Courses -/

/-- A service for timers, with a record of what was done with it. -/
structure TimerCourse (α : Type) where
  timers : TimerService α := .empty
  /-- All timers that were armed, in arming order. -/
  armed : List (Timer α) := []
  /-- The timers that expiries took, in the order in which they fired. -/
  fired : List TimerId := []
  /-- The timers that were found armed when they were disarmed. -/
  disarmed : List TimerId := []

namespace TimerCourse

/-- The timers that neither fired nor were disarmed, in arming order. -/
def pending (c : TimerCourse α) : List (Timer α) :=
  c.armed.filter fun x => x.id ∉ c.fired ∧ x.id ∉ c.disarmed

/-- Does something with the timers, and records it. -/
def act (c : TimerCourse α) : TimerAct α → TimerCourse α
  | .arm deadline alarm =>
    let (id, timers) := c.timers.arm deadline alarm
    { c with timers, armed := c.armed ++ [⟨id, deadline, alarm⟩] }
  | .disarm id =>
    let (wasArmed, timers) := c.timers.disarm id
    { c with timers, disarmed := if wasArmed then c.disarmed ++ [id] else c.disarmed }
  | .expire now =>
    let (taken, timers) := c.timers.take now
    { c with timers, fired := c.fired ++ taken.map Timer.id }

/-- What a run of acts makes of no timers. -/
def run (acts : List (TimerAct α)) : TimerCourse α := acts.foldl act {}

/-- The record changes nothing of what is done. -/
theorem act_timers (c : TimerCourse α) (a : TimerAct α) :
    (c.act a).timers = (c.timers.perform a).2 := by
  cases a <;> rfl

/-- The service is what it would be without a record. -/
theorem foldl_timers (acts : List (TimerAct α)) (c : TimerCourse α) :
    (acts.foldl act c).timers = (c.timers.run acts).2 := by
  induction acts generalizing c with
  | nil => rfl
  | cons a acts ih => rw [List.foldl_cons, ih, act_timers, TimerService.run]

/-! ## The record fits the timers -/

/-- The timers whose token is up are those that are pending. Timers are numbered as they are
armed, and each one fires at most once, unless it is disarmed. -/
structure Fits (c : TimerCourse α) : Prop where
  fresh : c.timers.fresh = c.armed.length
  numbered : c.armed.map Timer.id = List.range c.armed.length
  pending : c.timers.live = c.pending
  known : ∀ id ∈ c.fired ++ c.disarmed, id < c.timers.fresh
  once : (c.fired ++ c.disarmed).Nodup

namespace Fits

variable {c : TimerCourse α}

/-- Timers are numbered in arming order. -/
theorem id_pairwise (h : c.Fits) : c.armed.Pairwise (·.id < ·.id) := by
  have hrange : (c.armed.map Timer.id).Pairwise (· < ·) := h.numbered ▸ List.pairwise_lt_range
  exact List.pairwise_map.1 hrange

theorem pending_pairwise (h : c.Fits) : c.pending.Pairwise (·.id < ·.id) := h.id_pairwise.filter _

theorem mem_pending (_ : c.Fits) {x : Timer α} :
    x ∈ c.pending ↔ x ∈ c.armed ∧ x.id ∉ c.fired ++ c.disarmed := by
  simp [TimerCourse.pending]

/-- A timer is told apart by its number. -/
theorem eq_of_id (h : c.Fits) {x y : Timer α} (hx : x ∈ c.armed) (hy : y ∈ c.armed)
    (hid : x.id = y.id) : x = y := by
  have hnodup : (c.armed.map Timer.id).Nodup := h.numbered ▸ List.nodup_range
  exact List.inj_on_of_nodup_map hnodup hx hy hid

/-- What comes next has a number of its own. -/
theorem lt_fresh (h : c.Fits) {x : Timer α} (hx : x ∈ c.armed) : x.id < c.timers.fresh := by
  have hid : x.id ∈ List.range c.armed.length := h.numbered ▸ List.mem_map_of_mem hx
  rw [h.fresh]
  exact List.mem_range.1 hid

/-- A token is up as long as its timer is pending. -/
theorem active_iff (h : c.Fits) {id : TimerId} :
    c.timers.active id = true ↔ ∃ x ∈ c.pending, x.id = id := by
  rw [TimerService.active, Roster.raised_iff_live, h.pending]

/-- A new timer is pending. -/
theorem arm (h : c.Fits) (deadline : Nat) (alarm : α) : (c.act (.arm deadline alarm)).Fits := by
  have hact : c.act (.arm deadline alarm) =
      { c with
        timers := (c.timers.arm deadline alarm).2
        armed := c.armed ++ [⟨c.timers.fresh, deadline, alarm⟩] } := rfl
  have hnew : c.timers.fresh ∉ c.fired ∧ c.timers.fresh ∉ c.disarmed := by
    simpa using fun hmem => Nat.lt_irrefl _ (h.known _ hmem)
  rw [hact]
  refine ⟨by simp [h.fresh], ?_, ?_, fun id hid => ?_, h.once⟩
  · simp [h.numbered, h.fresh, List.range_succ]
  · simp [TimerCourse.pending, h.pending, hnew]
  · rw [TimerService.fresh_arm]
    exact Nat.lt_succ_of_lt (h.known id hid)

/-- A timer that is disarmed is pending no more. -/
theorem disarm (h : c.Fits) (id : TimerId) : (c.act (.disarm id)).Fits := by
  cases hactive : c.timers.active id with
  | false =>
    have hdown : c.timers.raised id = false := hactive
    have hact : c.act (.disarm id) = c := by
      simp [TimerCourse.act, TimerService.disarm, Roster.lower_of_down hdown, hdown]
    rwa [hact]
  | true =>
    obtain ⟨x, hx, rfl⟩ := h.active_iff.1 hactive
    obtain ⟨hmem, hnot⟩ := h.mem_pending.1 hx
    have hact : c.act (.disarm x.id) =
        { c with
          timers := (c.timers.disarm x.id).2
          disarmed := c.disarmed ++ [x.id] } := by
      have hup : c.timers.raised x.id = true := hactive
      simp [TimerCourse.act, TimerService.disarm, hup]
    rw [hact]
    refine ⟨(TimerService.fresh_disarm ..).trans h.fresh, h.numbered, ?_, fun id hid => ?_, ?_⟩
    · simp only [TimerService.live_disarm, h.pending, TimerCourse.pending, List.filter_filter]
      refine List.filter_congr fun y _ => ?_
      rw [Bool.eq_iff_iff]
      simp only [Bool.and_eq_true, bne_iff_ne, decide_eq_true_eq, List.mem_append,
        List.mem_singleton, not_or]
      tauto
    · rw [TimerService.fresh_disarm]
      rw [← List.append_assoc, List.mem_append, List.mem_singleton] at hid
      rcases hid with hid | rfl
      · exact h.known id hid
      · exact h.lt_fresh hmem
    · rw [← List.append_assoc]
      refine List.nodup_append.2 ⟨h.once, by simp, ?_⟩
      rintro id hid _ hlast rfl
      exact hnot (List.mem_singleton.1 hlast ▸ hid)

theorem mem_due_iff (h : c.Fits) {now : Nat} {x : Timer α} :
    x ∈ c.timers.due now ↔ x ∈ c.pending ∧ x.deadline ≤ now := by
  rw [TimerService.mem_due, h.pending]

/-- A timer that is pending is among those that are due if its deadline is over. -/
theorem id_mem_due_iff (h : c.Fits) {now : Nat} {x : Timer α} (hx : x ∈ c.pending) :
    x.id ∈ (c.timers.due now).map Timer.id ↔ x.deadline ≤ now := by
  constructor
  · intro hid
    obtain ⟨y, hy, hsame⟩ := List.mem_map.1 hid
    obtain ⟨hpending, hdue⟩ := h.mem_due_iff.1 hy
    rwa [h.eq_of_id (h.mem_pending.1 hx).1 (h.mem_pending.1 hpending).1 hsame.symm]
  · exact fun hdue => List.mem_map_of_mem (h.mem_due_iff.2 ⟨hx, hdue⟩)

theorem act_expire (c : TimerCourse α) (now : Nat) : c.act (.expire now) =
    { c with
      timers := (c.timers.take now).2
      fired := c.fired ++ (c.timers.due now).map Timer.id } := by
  simp only [TimerCourse.act, TimerService.take_fst]

/-- Whoever fires is pending no more. -/
theorem expire (h : c.Fits) (now : Nat) : (c.act (.expire now)).Fits := by
  rw [act_expire]
  refine ⟨(TimerService.fresh_take ..).trans h.fresh, h.numbered, ?_, fun id hid => ?_, ?_⟩
  · have hleft : ∀ x ∈ c.pending, decide (now < x.deadline) =
        decide (x.id ∉ (c.timers.due now).map Timer.id) := fun x hx => by
      rw [decide_eq_decide, h.id_mem_due_iff hx, Nat.not_le]
    simp only [TimerService.live_take, h.pending, List.filter_congr hleft]
    simp only [TimerCourse.pending, List.filter_filter]
    refine List.filter_congr fun x _ => ?_
    simp only [List.mem_append, not_or, Bool.decide_and, Bool.and_assoc, Bool.and_left_comm]
  · rw [TimerService.fresh_take]
    simp only [List.mem_append] at hid
    rcases hid with (hfired | hdue) | hdisarmed
    · exact h.known id (List.mem_append_left _ hfired)
    · obtain ⟨x, hx, rfl⟩ := List.mem_map.1 hdue
      exact h.lt_fresh (h.mem_pending.1 (h.mem_due_iff.1 hx).1).1
    · exact h.known id (List.mem_append_right _ hdisarmed)
  · have hmoved : (c.fired ++ (c.timers.due now).map Timer.id ++ c.disarmed).Perm
        (c.fired ++ c.disarmed ++ (c.timers.due now).map Timer.id) := by
      rw [List.append_assoc, List.append_assoc]
      exact List.perm_append_comm.append_left _
    have hnodup := TimerService.due_nodup now c.timers
    refine hmoved.nodup_iff.2 (List.nodup_append.2 ⟨h.once, hnodup, ?_⟩)
    rintro id hid _ hdue rfl
    obtain ⟨x, hx, rfl⟩ := List.mem_map.1 hdue
    exact (h.mem_pending.1 (h.mem_due_iff.1 hx).1).2 hid

/-- Each act keeps the record in step with the timers. -/
theorem act (h : c.Fits) (a : TimerAct α) : (c.act a).Fits := by
  cases a with
  | arm deadline alarm => exact h.arm deadline alarm
  | disarm id => exact h.disarm id
  | expire now => exact h.expire now

end Fits

/-- A record that was kept from the beginning fits the timers. -/
theorem run_fits (acts : List (TimerAct α)) : (run acts).Fits := by
  refine List.foldlRecOn acts act (motive := Fits) ?_ fun c h a _ => h.act a
  exact ⟨rfl, rfl, rfl, nofun, List.nodup_nil⟩

/-! ## What a service answers -/

/-- What a service answers, in terms of the record. -/
structure Regular (c : TimerCourse α) : Prop where
  /-- Timers are numbered in the order in which they are armed. -/
  arm : c.armed.map Timer.id = List.range c.armed.length ∧
    ∀ deadline alarm, (c.timers.arm deadline alarm).1 = c.armed.length
  /-- A timer is found armed if it is pending. -/
  disarm : ∀ id, (c.timers.disarm id).1 = true ↔
    (∃ x ∈ c.armed, x.id = id) ∧ id ∉ c.fired ∧ id ∉ c.disarmed
  /-- The alarms of an expiry are those of the timers that are pending and whose deadline is
  over, each once, in the order of their deadlines and then in arming order. These timers are
  the ones that the record has as fired. -/
  expire : ∀ now, ∃ due : List (Timer α), (c.timers.expire now).1 = due.map Timer.alarm ∧
    due.Perm (c.pending.filter (·.deadline ≤ now)) ∧ due.Pairwise Timer.Before ∧
    (c.act (.expire now)).fired = c.fired ++ due.map Timer.id
  /-- No timer fires twice, and none fires that was disarmed. -/
  once : (c.fired ++ c.disarmed).Nodup
  /-- The timers that are pending stay stored, in arming order. Whoever else is stored has its
  token down. -/
  kept : c.pending = c.timers.stored.filter (fun x => c.timers.active x.id) ∧
    c.pending.Pairwise (·.id < ·.id)
  /-- An expiry leaves nobody stored but those who are pending and not due. -/
  left : ∀ now, (c.timers.expire now).2.stored = c.pending.filter (now < ·.deadline)
  size : c.timers.size = c.pending.length
  isEmpty : c.timers.isEmpty = true ↔ c.pending = []
  nextDeadline? : ∀ d, c.timers.nextDeadline? = some d ↔
    (∃ x ∈ c.pending, x.deadline = d) ∧ ∀ x ∈ c.pending, d ≤ x.deadline
  /-- After an expiry no deadline is over. -/
  expired : ∀ now d, (c.timers.expire now).2.nextDeadline? = some d → now < d

/-- The next deadline is the least of those that are pending. -/
theorem Fits.nextDeadline?_iff {c : TimerCourse α} (h : c.Fits) (d : Nat) :
    c.timers.nextDeadline? = some d ↔
      (∃ x ∈ c.pending, x.deadline = d) ∧ ∀ x ∈ c.pending, d ≤ x.deadline := by
  simp [TimerService.nextDeadline?, List.min?_eq_some_iff, h.pending]

/-- Whatever is done with timers, and at whatever times, what their service answers is what the
record says. -/
theorem run_regular (acts : List (TimerAct α)) : (run acts).Regular := by
  have h := run_fits acts
  generalize run acts = c at h
  have hsize : c.timers.size = c.pending.length := congrArg List.length h.pending
  refine {
    arm := ⟨h.numbered, fun _ _ => h.fresh⟩
    disarm := fun id => ?_
    expire := fun now => ⟨c.timers.due now, ?_, ?_, ?_, ?_⟩
    once := h.once
    kept := ⟨h.pending.symm, h.pending_pairwise⟩
    left := fun now => h.pending ▸ rfl
    size := hsize
    isEmpty := ?_
    nextDeadline? := h.nextDeadline?_iff
    expired := fun now d hd => ?_ }
  · have hactive : (c.timers.disarm id).1 = c.timers.active id := rfl
    rw [hactive, h.active_iff]
    constructor
    · rintro ⟨x, hx, rfl⟩
      obtain ⟨hmem, hnot⟩ := h.mem_pending.1 hx
      exact ⟨⟨x, hmem, rfl⟩, by simpa using hnot⟩
    · rintro ⟨⟨x, hx, rfl⟩, hfired, hdisarmed⟩
      exact ⟨x, h.mem_pending.2 ⟨hx, by simp [hfired, hdisarmed]⟩, rfl⟩
  · rw [TimerService.expire, TimerService.take_fst]
  · rw [← h.pending]
    exact c.timers.view.due_perm now
  · refine Timers.due_pairwise (t := c.timers.view) ?_ now
    exact c.timers.live_pairwise
  · rw [Fits.act_expire]
  · rw [TimerService.isEmpty, hsize, beq_iff_eq, List.length_eq_zero_iff]
  · have hleft : (c.timers.expire now).2.live = c.timers.live.filter (now < ·.deadline) :=
      TimerService.live_take now c.timers
    obtain ⟨x, hx, rfl⟩ := List.mem_map.1 (List.min?_mem hd)
    rw [hleft] at hx
    exact of_decide_eq_true (List.mem_filter.1 hx).2

end TimerCourse

end ZigbeeHost
