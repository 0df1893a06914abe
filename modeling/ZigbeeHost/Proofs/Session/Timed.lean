import ZigbeeHost.Proofs.Session.Ledger
/-!
# Handlers and their timers

A handler whose timer is not armed any more carries nothing (`Handler.carried?`).
`TimersFit hs timers` says of the handlers `hs` and the timers of a session that each
armed timer belongs to one wait among the handlers, which carries the operation that the
timer would fail. Arming, disarming and expiry keep it.
-/

namespace ZigbeeHost

/-! ## What a handler carries -/

/-- The operation that a handler is to complete, unless its timer is not armed any more. -/
def Handler.carried? (timers : Timers OperationId) : Handler → Option OperationId
  | timed timer inner => if timers.active timer then inner.operation? else none
  | h => h.operation?

/-- The timer of a handler. -/
def Handler.timer? : Handler → Option TimerId
  | timed timer _ => some timer
  | _ => none

theorem Handler.carried?_of_timer?_eq_none {h : Handler} (ht : h.timer? = none)
    (timers : Timers OperationId) : h.carried? timers = h.operation? := by
  cases h with
  | timed timer inner => cases ht
  | _ => rfl

theorem Handler.operation?_of_carried? {h : Handler} {timers : Timers OperationId}
    {op : OperationId} (hc : h.carried? timers = some op) : h.operation? = some op := by
  cases h with
  | timed timer inner =>
    simp only [carried?, Option.ite_none_right_eq_some] at hc
    exact hc.2
  | _ => exact hc

namespace Timers

variable {α : Type} {t : Timers α}

/-- A timer is active if it is armed. -/
theorem active_iff {id : TimerId} : t.active id = true ↔ ∃ e ∈ t.armed, e.id = id := by
  simp [active]

/-- To disarm one timer leaves the others active. -/
theorem active_disarm (id id' : TimerId) :
    (t.disarm id).2.active id' = (t.active id' && id' != id) := by
  rw [Bool.eq_iff_iff]
  simp only [active_iff, disarm, List.mem_filter, Bool.and_eq_true, bne_iff_ne]
  constructor
  · rintro ⟨e, ⟨he, hne⟩, rfl⟩
    exact ⟨⟨e, he, rfl⟩, hne⟩
  · rintro ⟨⟨e, he, rfl⟩, hne⟩
    exact ⟨e, ⟨he, hne⟩, rfl⟩

/-- To arm a timer leaves the others active. -/
theorem active_arm (deadline : Nat) (alarm : α) (id : TimerId) :
    (t.arm deadline alarm).2.active id = (t.active id || id == t.fresh) := by
  rw [Bool.eq_iff_iff]
  simp only [active_iff, arm, List.mem_append, List.mem_singleton, Bool.or_eq_true, beq_iff_eq]
  constructor
  · rintro ⟨e, he | rfl, rfl⟩
    · exact Or.inl ⟨e, he, rfl⟩
    · exact Or.inr rfl
  · rintro (⟨e, he, rfl⟩ | rfl)
    · exact ⟨e, Or.inl he, rfl⟩
    · exact ⟨_, Or.inr rfl, rfl⟩

/-- The alarms of an expiry are those of the timers that are due. -/
theorem mem_alarms_expire {now : Nat} {a : α} :
    a ∈ (t.expire now).1 ↔ ∃ e ∈ t.armed, e.deadline ≤ now ∧ e.alarm = a := by
  simp [expire, due, and_assoc]

end Timers

/-! ## Timers that fit their handlers -/

/-- Each armed timer belongs to one wait among the handlers, for the operation that the
timer would fail. -/
structure TimersFit (hs : List Handler) (timers : Timers OperationId) : Prop where
  armed_lt : ∀ e ∈ timers.armed, e.id < timers.fresh
  timer_lt : ∀ id ∈ hs.filterMap Handler.timer?, id < timers.fresh
  armed_nodup : (timers.armed.map Timer.id).Nodup
  timer_nodup : (hs.filterMap Handler.timer?).Nodup
  armed : ∀ e ∈ timers.armed, ∃ p, Handler.timed e.id (.wait p e.alarm) ∈ hs

namespace TimersFit

variable {hs hs' : List Handler} {timers : Timers OperationId}

theorem perm (h : TimersFit hs timers) (hp : hs.Perm hs') : TimersFit hs' timers where
  armed_lt := h.armed_lt
  timer_lt id hid := h.timer_lt id ((hp.filterMap _).mem_iff.2 hid)
  armed_nodup := h.armed_nodup
  timer_nodup := h.timer_nodup.perm (hp.filterMap _)
  armed e he := (h.armed e he).imp fun _ hm => hp.mem_iff.1 hm

/-- A handler without a timer of its own makes no difference. -/
theorem cons_iff {g : Handler} (hg : g.timer? = none) :
    TimersFit (g :: hs) timers ↔ TimersFit hs timers := by
  have hfm : (g :: hs).filterMap Handler.timer? = hs.filterMap Handler.timer? := by
    simp [hg]
  constructor
  · rintro ⟨h1, h2, h3, h4, h5⟩
    refine ⟨h1, hfm ▸ h2, h3, hfm ▸ h4, ?_⟩
    intro e he
    obtain ⟨p, hp⟩ := h5 e he
    rcases List.mem_cons.1 hp with rfl | hp
    · cases hg
    · exact ⟨p, hp⟩
  · rintro ⟨h1, h2, h3, h4, h5⟩
    exact ⟨h1, hfm ▸ h2, h3, hfm ▸ h4,
      fun e he => (h5 e he).imp fun _ hp => List.mem_cons_of_mem _ hp⟩

/-- A handler behind a timer that is not armed any more may go. -/
theorem of_cons_inactive {id : TimerId} {inner : Handler}
    (h : TimersFit (.timed id inner :: hs) timers) (hid : timers.active id = false) :
    TimersFit hs timers where
  armed_lt := h.armed_lt
  timer_lt id' hid' := h.timer_lt id' (by simp [Handler.timer?, hid'])
  armed_nodup := h.armed_nodup
  timer_nodup := by
    have := h.timer_nodup
    simp only [List.filterMap_cons, Handler.timer?] at this
    exact (List.nodup_cons.1 this).2
  armed e he := by
    obtain ⟨p, hp⟩ := h.armed e he
    rcases List.mem_cons.1 hp with heq | hp
    · cases heq
      rw [Timers.active_iff.2 ⟨e, he, rfl⟩] at hid
      cases hid
    · exact ⟨p, hp⟩

/-- Behind an armed timer there is a wait for the operation that the timer would fail. -/
theorem inner_eq {id : TimerId} {inner : Handler} (h : TimersFit hs timers)
    (hmem : Handler.timed id inner ∈ hs) {e : Timer OperationId} (he : e ∈ timers.armed)
    (hid : e.id = id) : ∃ p, inner = .wait p e.alarm := by
  obtain ⟨p, hp⟩ := h.armed e he
  have hperm := List.perm_cons_erase hmem
  rcases List.mem_cons.1 (hperm.mem_iff.1 hp) with heq | hmem'
  · cases heq
    exact ⟨p, rfl⟩
  · have hnodup := (h.perm hperm).timer_nodup
    simp only [List.filterMap_cons, Handler.timer?, List.nodup_cons] at hnodup
    have htimer : Handler.timer? (.timed e.id (.wait p e.alarm)) = some id := congrArg some hid
    exact absurd (List.mem_filterMap.2 ⟨_, hmem', htimer⟩) hnodup.1

/-- Disarming a timer turns its handler into a plain wait. -/
theorem disarm {id : TimerId} {p : Pattern} {op : OperationId}
    (h : TimersFit (.timed id (.wait p op) :: hs) timers) :
    TimersFit (.wait p op :: hs) (timers.disarm id).2 := by
  have hnodup := h.timer_nodup
  simp only [List.filterMap_cons, Handler.timer?, List.nodup_cons] at hnodup
  refine (cons_iff rfl).2 ⟨?_, ?_, ?_, hnodup.2, ?_⟩
  · intro e he
    exact h.armed_lt e (List.mem_filter.1 he).1
  · intro id' hid'
    exact h.timer_lt id' (by simp [Handler.timer?, hid'])
  · exact h.armed_nodup.sublist (List.filter_sublist.map _)
  · intro e he
    obtain ⟨he, hne⟩ := List.mem_filter.1 he
    obtain ⟨p', hp'⟩ := h.armed e he
    rcases List.mem_cons.1 hp' with heq | hp'
    · cases heq
      simp at hne
    · exact ⟨p', hp'⟩

/-- A plain wait may be put behind a new timer. -/
theorem arm {p : Pattern} {op : OperationId} (h : TimersFit (.wait p op :: hs) timers)
    (deadline : Nat) :
    TimersFit (.timed timers.fresh (.wait p op) :: hs) (timers.arm deadline op).2 := by
  have h := (cons_iff rfl).1 h
  refine ⟨?_, ?_, ?_, ?_, ?_⟩
  · intro e he
    rcases List.mem_append.1 he with he | he
    · exact Nat.lt_succ_of_lt (h.armed_lt e he)
    · rw [List.mem_singleton.1 he]
      exact Nat.lt_succ_self _
  · intro id hid
    simp only [List.filterMap_cons, Handler.timer?, List.mem_cons] at hid
    rcases hid with rfl | hid
    · exact Nat.lt_succ_self _
    · exact Nat.lt_succ_of_lt (h.timer_lt id hid)
  · simp only [Timers.arm, List.map_append, List.map_cons, List.map_nil]
    refine List.nodup_append.2 ⟨h.armed_nodup, by simp, ?_⟩
    intro id hid id' hid' heq
    obtain ⟨e, he, rfl⟩ := List.mem_map.1 hid
    rw [List.mem_singleton.1 hid'] at heq
    exact Nat.ne_of_lt (h.armed_lt e he) heq
  · simp only [List.filterMap_cons, Handler.timer?, List.nodup_cons]
    exact ⟨fun hid => Nat.lt_irrefl _ (h.timer_lt _ hid), h.timer_nodup⟩
  · intro e he
    rcases List.mem_append.1 he with he | he
    · exact (h.armed e he).imp fun _ hp => List.mem_cons_of_mem _ hp
    · rw [List.mem_singleton.1 he]
      exact ⟨p, List.mem_cons_self⟩

theorem expire (h : TimersFit hs timers) (now : Nat) : TimersFit hs (timers.expire now).2 where
  armed_lt e he := h.armed_lt e (List.mem_filter.1 he).1
  timer_lt := h.timer_lt
  armed_nodup := h.armed_nodup.sublist (List.filter_sublist.map _)
  timer_nodup := h.timer_nodup
  armed e he := h.armed e (List.mem_filter.1 he).1

/-- A timed handler carries the alarm of its timer. -/
theorem carried?_timed (h : TimersFit hs timers) {id : TimerId} {inner : Handler}
    (hg : Handler.timed id inner ∈ hs) {op : OperationId} :
    Handler.carried? timers (.timed id inner) = some op ↔
      ∃ e ∈ timers.armed, e.id = id ∧ e.alarm = op := by
  simp only [Handler.carried?, Option.ite_none_right_eq_some, Timers.active_iff]
  constructor
  · rintro ⟨⟨e, he, hid⟩, hop⟩
    obtain ⟨p, rfl⟩ := h.inner_eq hg he hid
    exact ⟨e, he, hid, Option.some.inj hop⟩
  · rintro ⟨e, he, hid, rfl⟩
    obtain ⟨p, rfl⟩ := h.inner_eq hg he hid
    exact ⟨⟨e, he, hid⟩, rfl⟩

/-- What a handler carries after expiry, it carried before. -/
theorem carried?_of_expire (h : TimersFit hs timers) {now : Nat} {g : Handler} (hg : g ∈ hs)
    {op : OperationId} (hc : g.carried? (timers.expire now).2 = some op) :
    g.carried? timers = some op := by
  cases g with
  | timed id inner =>
    obtain ⟨e, he, hid⟩ := ((h.expire now).carried?_timed hg).1 hc
    exact (h.carried?_timed hg).2 ⟨e, (List.mem_filter.1 he).1, hid⟩
  | _ => exact hc

/-- After expiry a handler carries what it carried, unless that was failed. -/
theorem carried?_expire (h : TimersFit hs timers) (now : Nat) {g : Handler} (hg : g ∈ hs)
    {op : OperationId} (hc : g.carried? timers = some op) :
    g.carried? (timers.expire now).2 = some op ∨ op ∈ (timers.expire now).1 := by
  cases g with
  | timed id inner =>
    obtain ⟨e, he, hid, rfl⟩ := (h.carried?_timed hg).1 hc
    by_cases hdue : e.deadline ≤ now
    · exact .inr (Timers.mem_alarms_expire.2 ⟨e, he, hdue, rfl⟩)
    · refine .inl (((h.expire now).carried?_timed hg).2 ⟨e, ?_, hid, rfl⟩)
      exact List.mem_filter.2 ⟨he, by simpa using hdue⟩
  | _ => exact .inl hc

/-- Disarming the timer of one handler makes no difference to the others. -/
theorem carried?_disarm {id : TimerId} {inner : Handler}
    (h : TimersFit (.timed id inner :: hs) timers) {g : Handler} (hg : g ∈ hs) :
    g.carried? (timers.disarm id).2 = g.carried? timers := by
  cases g with
  | timed id' inner' =>
    have hne : id' ≠ id := by
      rintro rfl
      have hnodup := h.timer_nodup
      simp only [List.filterMap_cons, Handler.timer?, List.nodup_cons] at hnodup
      exact hnodup.1 (List.mem_filterMap.2 ⟨_, hg, rfl⟩)
    simp [Handler.carried?, Timers.active_disarm, hne]
  | _ => rfl

/-- A new timer makes no difference to the handlers that are there. -/
theorem carried?_arm (h : TimersFit hs timers) (deadline : Nat) (op : OperationId)
    {g : Handler} (hg : g ∈ hs) :
    g.carried? (timers.arm deadline op).2 = g.carried? timers := by
  cases g with
  | timed id inner =>
    have hlt := h.timer_lt id (List.mem_filterMap.2 ⟨_, hg, rfl⟩)
    simp [Handler.carried?, Timers.active_arm, Nat.ne_of_lt hlt]
  | _ => rfl

end TimersFit

end ZigbeeHost
