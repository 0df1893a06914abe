import Mathlib.Data.List.Perm.Basic
import ZigbeeHost.Proofs.Session.Sound
import ZigbeeHost.Proofs.Session.Steps
/-!
# Timers and waits

A wait with a window is in two places : its handler is in the chain, and its timer among the
armed ones. Nothing but the token links the two, and they leave at different times : a timer
fires or is disarmed at once, and a handler that has lost its timer stays in the chain until a
frame is offered to it.

`Session.openWaits` lists the handlers that wait with a window for an operation that is still
pending. Between the deeds of an application these are exactly the armed timers, token by
token (`Sound.perm_openWaits`), so what the clock may still decide can be read off either.
`Uses.coherent` puts this together with what small steps say of timers : each deadline is the
time of the installation plus the window, the next deadline is that of an open wait, a token
that is no open wait's is dead for good, and expiry leaves nothing that is due.
-/

namespace ZigbeeHost

variable {η : Type} {L : Licence η}

/-! ## Deadlines -/

/-- The deadline of a timer, if it is armed. -/
def Timers.deadline? {α : Type} (t : Timers α) (id : TimerId) : Option Nat :=
  (t.armed.find? (·.id == id)).map Timer.deadline

/-- A timer that is armed has its deadline. -/
theorem Timers.deadline?_of_mem {α : Type} {t : Timers α} (hnodup : (t.armed.map Timer.id).Nodup)
    {e : Timer α} (he : e ∈ t.armed) : t.deadline? e.id = some e.deadline := by
  unfold deadline?
  cases hfound : t.armed.find? (·.id == e.id) with
  | none => simpa using List.find?_eq_none.1 hfound e he
  | some e' =>
    have hid : e'.id = e.id := by simpa using List.find?_some hfound
    have hmem : e' ∈ t.armed := List.mem_of_find?_eq_some hfound
    rw [List.inj_on_of_nodup_map hnodup hmem he hid]
    rfl

/-! ## Open waits -/

/-- The token and the operation of a handler that waits with a window, if the operation is
among the pending ones. -/
def Handler.openWait? (pending : OperationId → Bool) :
    Handler → Option (TimerId × OperationId)
  | timed id inner => (inner.operation?.filter pending).map (id, ·)
  | _ => none

/-- The waits with a window whose operation is pending. -/
def Session.openWaits (s : Session η) : List (TimerId × OperationId) :=
  s.chain.filterMap (Handler.openWait? s.pending)

/-- The waits that are open are the timed handlers of the chain whose operation is pending. -/
theorem Session.mem_openWaits {s : Session η} {id : TimerId} {op : OperationId} :
    (id, op) ∈ s.openWaits ↔ ∃ inner, .timed id inner ∈ s.chain ∧
      inner.operation? = some op ∧ s.pending op = true := by
  simp only [openWaits, List.mem_filterMap]
  constructor
  · rintro ⟨h, hmem, hopen⟩
    cases h with
    | timed id' inner =>
      simp only [Handler.openWait?, Option.map_eq_some_iff, Option.filter_eq_some_iff,
        Prod.mk.injEq] at hopen
      obtain ⟨op', ⟨hop, hp⟩, rfl, rfl⟩ := hopen
      exact ⟨inner, hmem, hop, hp⟩
    | _ => cases hopen
  · rintro ⟨inner, hmem, hop, hp⟩
    exact ⟨_, hmem, by simp [Handler.openWait?, hop, Option.filter, hp]⟩

/-- Fewer answers make a shorter list. -/
theorem filterMap_sublist_filterMap {α β : Type} {f g : α → Option β} :
    ∀ {xs : List α}, (∀ x ∈ xs, ∀ y, f x = some y → g x = some y) →
      (xs.filterMap f).Sublist (xs.filterMap g)
  | [], _ => .slnil
  | x :: xs, hfg => by
    have htail := filterMap_sublist_filterMap fun y hy => hfg y (List.mem_cons_of_mem x hy)
    cases hf : f x with
    | some y => simpa [hf, hfg x List.mem_cons_self y hf] using htail
    | none =>
      cases hg : g x with
      | none => simpa [hf, hg] using htail
      | some y => simpa [hf, hg] using htail.cons y

namespace Sound

variable {s : Session η} (h : Sound L [] [] s)
include h

/-- Each open wait shares its token with an armed timer, and each armed timer is that of an
open wait. -/
theorem mem_openWaits_iff {id : TimerId} {op : OperationId} :
    (id, op) ∈ s.openWaits ↔ ∃ e ∈ s.timers.armed, e.id = id ∧ e.alarm = op := by
  rw [Session.mem_openWaits]
  constructor
  · rintro ⟨inner, hmem, hop, hp⟩
    have hcarried := (h.loyal (.timed id inner) hmem op hop).2 hp
    exact (h.timers.carried?_timed hmem).1 hcarried
  · rintro ⟨e, he, rfl, rfl⟩
    obtain ⟨p, hmem⟩ := h.timers.armed e he
    have hcarried := (h.timers.carried?_timed hmem).2 ⟨e, he, rfl, rfl⟩
    exact ⟨_, hmem, rfl, h.pending_of_handler hmem hcarried⟩

/-- No token is shared by two waits. -/
theorem tokens_nodup : (s.openWaits.map Prod.fst).Nodup := by
  rw [Session.openWaits, List.map_filterMap]
  refine h.timers.timer_nodup.sublist (filterMap_sublist_filterMap fun g _ id hid => ?_)
  cases g with
  | timed id' inner =>
    simp only [Handler.openWait?, Option.map_map, Option.map_eq_some_iff] at hid
    obtain ⟨op, -, rfl⟩ := hid
    rfl
  | _ => cases hid

/-- No operation waits twice. -/
theorem awaited_nodup : (s.openWaits.map Prod.snd).Nodup := by
  have hcarried : (s.carriedBy s.chain).Nodup := by
    rw [List.nodup_iff_count_le_one]
    intro op
    have hcount : (s.carriedBy s.chain).count op = _ := h.carried op
    rw [hcount]
    split <;> omega
  have hchain : (s.chain.filterMap (Handler.carried? s.timers)).Nodup :=
    hcarried.sublist (List.sublist_append_left ..)
  rw [Session.openWaits, List.map_filterMap]
  refine hchain.sublist (filterMap_sublist_filterMap fun g hg op hop => ?_)
  cases g with
  | timed id inner =>
    simp only [Handler.openWait?, Option.map_map, Option.map_eq_some_iff,
      Option.filter_eq_some_iff] at hop
    obtain ⟨op', ⟨hinner, hp⟩, rfl⟩ := hop
    exact (h.loyal (.timed id inner) hg op' hinner).2 hp
  | _ => cases hop

/-- The armed timers are the open waits, token by token. -/
theorem perm_openWaits : (s.timers.armed.map fun e => (e.id, e.alarm)).Perm s.openWaits := by
  have hids : (s.timers.armed.map fun e => (e.id, e.alarm)).map Prod.fst =
      s.timers.armed.map Timer.id := by simp
  have harmed : (s.timers.armed.map fun e => (e.id, e.alarm)).Nodup :=
    .of_map Prod.fst (hids ▸ h.timers.armed_nodup)
  refine (List.perm_ext_iff_of_nodup harmed (.of_map Prod.fst h.tokens_nodup)).2 ?_
  rintro ⟨id, op⟩
  simp [h.mem_openWaits_iff]

/-- The deadlines of the armed timers are those of the open waits. -/
theorem perm_deadlines : (s.timers.armed.map Timer.deadline).Perm
    (s.openWaits.filterMap fun w => s.timers.deadline? w.1) := by
  have hperm := h.perm_openWaits.filterMap fun w => s.timers.deadline? w.1
  have hdeadline : ∀ e ∈ s.timers.armed,
      ((fun w : TimerId × OperationId => s.timers.deadline? w.1) ∘ fun e => (e.id, e.alarm)) e =
        (some ∘ Timer.deadline) e := fun e he =>
    Timers.deadline?_of_mem h.timers.armed_nodup he
  rwa [List.filterMap_map, List.filterMap_congr hdeadline, List.filterMap_eq_map] at hperm

/-- The next deadline is the earliest of an open wait. -/
theorem nextDeadline?_eq : s.timers.nextDeadline? =
    (s.openWaits.filterMap fun w => s.timers.deadline? w.1).min? := by
  refine Option.ext fun deadline => ?_
  simp only [Timers.nextDeadline?, List.min?_eq_some_iff, h.perm_deadlines.mem_iff]

/-- No deadline comes next if no wait is open. -/
theorem nextDeadline?_eq_none_iff : s.timers.nextDeadline? = none ↔ s.openWaits = [] := by
  rw [Timers.nextDeadline?, List.min?_eq_none_iff, List.map_eq_nil_iff]
  constructor
  · intro hnil
    have hperm := h.perm_openWaits
    rw [hnil] at hperm
    exact hperm.symm.eq_nil
  · intro hnil
    have hperm := h.perm_openWaits
    rw [hnil] at hperm
    exact List.map_eq_nil_iff.1 hperm.eq_nil

end Sound

/-- Whoever is away, an armed timer would fail a pending operation. -/
theorem Sound.pending_of_armed {away : List Handler} {owed : List Tracked} {s : Session η}
    (h : Sound L away owed s) {e : Timer OperationId} (he : e ∈ s.timers.armed) :
    s.pending e.alarm = true := by
  obtain ⟨p, hmem⟩ := h.timers.armed e he
  exact h.pending_of_handler hmem ((h.timers.carried?_timed hmem).2 ⟨e, he, rfl, rfl⟩)

/-! ## Coherence -/

/-- Timers and waits of a session agree, and did so since `origin`. -/
structure Session.Coherent (L : Licence η) (origin s : Session η) : Prop where
  /-- The armed timers are the open waits, token by token. -/
  shared : (s.timers.armed.map fun e => (e.id, e.alarm)).Perm s.openWaits
  tokens_nodup : (s.openWaits.map Prod.fst).Nodup
  awaited_nodup : (s.openWaits.map Prod.snd).Nodup
  /-- Each timer was armed when a wait was installed, until its window had passed from then. -/
  installed : ∀ e ∈ s.timers.armed, ∃ u w window, origin.Steps u ∧ w.window = some window ∧
    (u.install w).Steps s ∧ e = ⟨u.timers.fresh, u.now + window, w.operation⟩
  /-- Whichever wait was installed with the token of a timer, that is its deadline. -/
  deadline : ∀ u w window, origin.Steps u → w.window = some window → (u.install w).Steps s →
    ∀ e ∈ s.timers.armed, e.id = u.timers.fresh →
      e.deadline = u.now + window ∧ e.alarm = w.operation
  /-- The next deadline is the earliest of an open wait. -/
  next : s.timers.nextDeadline? = (s.openWaits.filterMap fun w => s.timers.deadline? w.1).min?
  next_none : s.timers.nextDeadline? = none ↔ s.openWaits = []
  /-- What is decided stays decided, at any point of a run. -/
  decided : ∀ op outcome, s.outcome? op = some outcome →
    ∀ t, s.Steps t → t.outcome? op = some outcome
  /-- No timer is left, or armed again, for an operation that is decided. -/
  silent : ∀ op outcome, s.outcome? op = some outcome →
    ∀ ws t, Uses L s ws t → ∀ e ∈ t.timers.armed, e.alarm ≠ op
  /-- A token that was given away and is no open wait's is dead, at any point of a run. -/
  dead : ∀ id < s.timers.fresh, id ∉ s.openWaits.map Prod.fst →
    ∀ t, s.Steps t → t.timers.active id = false
  /-- After expiry every deadline is later than the clock. -/
  expired : ∀ e ∈ s.expireTimers.timers.armed, s.now < e.deadline
  /-- Expiry decides every operation that is due. -/
  overdue : ∀ e ∈ s.timers.armed, e.deadline ≤ s.now →
    s.expireTimers.outcome? e.alarm = some (.error .timeout)

/-- **Timers and waits are coherent.** In every session that an application reaches, timers and
open waits are the same thing seen from two sides. -/
theorem Uses.coherent {config : SessionConfig} {host : η} {s : Session η}
    (h : Uses L (.start config host) [] s) : Session.Coherent L (.start config host) s := by
  have hsound : Sound L [] [] s := Reachable.sound ⟨config, host, h⟩
  have hnone : ∀ e ∈ (Session.start config host).timers.armed,
      e.id < (Session.start config host).timers.fresh := nofun
  exact {
    shared := hsound.perm_openWaits
    tokens_nodup := hsound.tokens_nodup
    awaited_nodup := hsound.awaited_nodup
    installed := by
      intro e he
      rcases h.steps.mem_armed he with he | ⟨u, w, window, hu, hwindow, heq, hus⟩
      · cases he
      · exact ⟨u, w, window, hu, hwindow, hus, heq⟩
    deadline := by
      intro u w window hu hwindow hus e he hid
      rw [hus.armed_install (hu.armed_lt hnone) hwindow he hid]
      exact ⟨rfl, rfl⟩
    next := hsound.nextDeadline?_eq
    next_none := hsound.nextDeadline?_eq_none_iff
    decided := fun op outcome hout t hst => Session.narrow_outlives.steps hst op outcome hout
    silent := by
      rintro op outcome hout ws t hst e he rfl
      have hkeeps := hst.keeps (Session.upholds_kept L) [] [] hsound
      have hpending := Session.pending_iff.1 (hkeeps.pending_of_armed he)
      rw [Session.outcome?_eq_some_iff.1 (hst.outlives e.alarm outcome hout)] at hpending
      cases hpending
    dead := by
      intro id hlt hid t hst
      refine hst.ages.not_active hlt ?_
      rw [Bool.eq_false_iff, Ne, Timers.active_iff]
      rintro ⟨e, he, rfl⟩
      exact hid (List.mem_map.2 ⟨_, hsound.mem_openWaits_iff.2 ⟨e, he, rfl, rfl⟩, rfl⟩)
    expired := by
      intro e he
      rw [Session.expireTimers_eq] at he
      simpa using (List.mem_filter.1 he).2
    overdue := fun e he hdue => s.outcome?_expireTimers e.alarm (hsound.pending_of_armed he)
      (Timers.mem_alarms_expire.2 ⟨e, he, hdue, rfl⟩) }

/-- A session whose only wait is due. -/
def Session.overdue : Session Unit :=
  ((Session.start {} ()).waitFor ⟨.srsp, ⟨.sys, 0x01⟩, []⟩ (some 5000)).2.advance 5000

/-- A wait whose window closes, and whose handler stays in the chain. -/
theorem Uses.overdue : Uses .facade (.start {} ()) [] .overdue := by
  have hsilent : Lawful (.facade (η := Unit)) .silent := .silent fun _ => trivial
  have hwaits := (Uses.refl (L := .facade) (Session.start {} ())).deed hsilent
    (d := .call (.waitFor ⟨.srsp, ⟨.sys, 0x01⟩, []⟩ (some 5000))) ⟨trivial, trivial⟩ trivial
  exact hwaits.deed hsilent (d := .advance 5000) ⟨trivial, trivial⟩ trivial

/-- The wait is open until the timers expire. Then it has timed out for good, and its timer does
not come back. -/
theorem overdue_coherent :
    Session.overdue.openWaits = [(0, 0)] ∧ Session.overdue.timers.nextDeadline? = some 5000 ∧
      Session.overdue.expireTimers.outcome? 0 = some (.error .timeout) ∧
      ∀ ws t, Uses .facade Session.overdue.expireTimers ws t →
        ∀ e ∈ t.timers.armed, e.alarm ≠ 0 := by
  have hcoherent := Uses.overdue.coherent
  have hopen : Session.overdue.openWaits = [(0, 0)] :=
    List.perm_singleton.1 hcoherent.shared.symm
  have htimeout := hcoherent.overdue ⟨0, 5000, 0⟩ (List.mem_singleton.2 rfl) (Nat.le_refl _)
  have hexpired : Uses .facade (.start {} ()) [] Session.overdue.expireTimers :=
    Uses.overdue.deed (.silent fun _ => trivial) (d := .expire) ⟨trivial, trivial⟩ trivial
  refine ⟨hopen, ?_, htimeout, hexpired.coherent.silent 0 _ htimeout⟩
  rw [hcoherent.next, hopen]
  rfl

end ZigbeeHost
