import ZigbeeHost.Proofs.Session.Stable
/-!
# What no run takes back

Three facts about every run, under any licence. An outcome is never changed once it is
there (`Uses.outlives`). A connection is never given to another subscriber
(`Uses.connects`). A deed leaves a session as deep in dispatches as it found it, and
outside of them no teardown stays deferred (`Uses.calm`).
-/

namespace ZigbeeHost

variable {η : Type}

namespace Session

/-! ## Outcomes -/

/-- The outcomes of `s` are those of `t`. -/
def Outlives (s t : Session η) : Prop :=
  ∀ op outcome, s.outcome? op = some outcome → t.outcome? op = some outcome

/-- An outcome, once there, outlives further completions. -/
theorem outlives_complete (s : Session η) (op : OperationId)
    (outcome : Except Failure Outcome) : Outlives s (s.complete op outcome) := by
  intro i o ho
  rw [outcome?_eq_some_iff] at ho ⊢
  rw [operations_complete, if_neg, ho]
  rintro ⟨rfl, hp⟩
  rw [pending_iff, ho] at hp
  cases hp

/-- To issue an operation forgets no outcome. -/
theorem outlives_issue (s : Session η) : Outlives s s.issue.2 := by
  intro i o ho
  rw [outcome?_eq_some_iff] at ho ⊢
  rw [operations_issue, if_neg, ho]
  rintro rfl
  simp at ho

theorem narrow_outlives : Narrow (Outlives (η := η)) where
  trans h h' := fun op outcome ho => h' op outcome (h op outcome ho)
  complete := outlives_complete
  issue := outlives_issue
  subscribe _ _ _ := fun _ _ ho => ho
  disconnect _ _ := fun _ _ ho => ho
  other hops _ _ := fun _ _ ho => by rwa [outcome?, hops]

/-! ## Connections -/

/-- The subscribers of `t` that were there when `s` was are those of `s` that are still
attached. -/
def Connects (s t : Session η) : Prop :=
  s.freshConnection ≤ t.freshConnection ∧
    ∀ slot ∈ t.slots, slot.connection < s.freshConnection → slot ∈ s.slots

theorem narrow_connects : Narrow (Connects (η := η)) where
  trans h h' := ⟨Nat.le_trans h.1 h'.1, fun slot hslot hlt =>
    h.2 slot (h'.2 slot hslot (Nat.lt_of_lt_of_le hlt h.1)) hlt⟩
  complete s op outcome := by
    refine ⟨by simp, fun slot hslot _ => ?_⟩
    rwa [complete_slots] at hslot
  issue s := ⟨Nat.le_refl _, fun _ hslot _ => hslot⟩
  subscribe s event subscriber := by
    refine ⟨by simp, fun slot hslot hlt => ?_⟩
    rw [slots_subscribe] at hslot
    rcases List.mem_append.1 hslot with hslot | hslot
    · exact hslot
    · rw [List.mem_singleton.1 hslot] at hlt
      exact absurd hlt (Nat.lt_irrefl _)
  disconnect s connection :=
    ⟨Nat.le_of_eq (freshConnection_disconnect ..).symm,
      fun _ hslot _ => (mem_slots_disconnect.1 hslot).1⟩
  other _ hslots hfresh := by
    refine ⟨Nat.le_of_eq hfresh.symm, fun slot hslot _ => ?_⟩
    rwa [hslots] at hslot

/-- Whoever is attached under the connection of a subscriber that is stored is that subscriber,
and was attached before. -/
theorem Connects.mem_slots {s t : Session η} (h : s.Connects t) {slot : Slot}
    (hslot : slot ∈ s.subscribers.stored) (hconnected : t.isConnected slot.connection = true) :
    slot ∈ s.slots ∧ slot ∈ t.slots := by
  obtain ⟨slot', hslot', hsame⟩ := isConnected_iff.1 hconnected
  have hold : slot' ∈ s.slots := h.2 slot' hslot' (hsame ▸ s.subscribers.known slot hslot)
  obtain rfl := Roster.eq_of_number (Roster.mem_live.1 hold).1 hslot hsame
  exact ⟨hold, hslot'⟩

/-- Whoever was attached and whose connection is still one is attached. -/
theorem Connects.stays {s t : Session η} (h : s.Connects t) {slot : Slot} (hslot : slot ∈ s.slots)
    (hconnected : t.isConnected slot.connection = true) : slot ∈ t.slots :=
  (h.mem_slots (s.subscribers.live_sublist.mem hslot) hconnected).2

section Emissions

variable {L : Licence η} {app : Application η} (happ : app.Keeps L fun s _ t => Connects s t)
include happ

/-- Whoever is stored and detached in `s` is still detached when its turn comes. -/
theorem foldl_notify_filter (i : Indication) {s : Session η} {others : List Slot}
    (hothers : ∀ slot ∈ others, slot ∈ s.subscribers.stored) {t : Session η} (hst : s.Connects t) :
    others.foldl (notify app i) t =
      (others.filter fun slot => s.isConnected slot.connection).foldl (notify app i) t := by
  induction others generalizing t with
  | nil => rfl
  | cons slot others ih =>
    obtain ⟨hslot, hothers⟩ := List.forall_mem_cons.1 hothers
    simp only [List.filter_cons, List.foldl_cons]
    split
    · exact ih hothers (narrow_connects.trans hst (narrow_connects.stable.notify happ i t slot))
    · rename_i hdetached
      have hgone : t.isConnected slot.connection = false := Bool.eq_false_iff.2 fun hback =>
        hdetached (isConnected_of_mem (hst.mem_slots hslot hback).1)
      rw [notify_of_not_isConnected hgone]
      exact ih hothers hst

/-- An emission is that to the connected ones among those who are stored. -/
theorem emit_eq (i : Indication) (s : Session η) :
    s.emit app i = ((s.audience i.event).foldl (notify app i) s).retain i.event := by
  have hstored : ∀ slot ∈ s.stored i.event, slot ∈ s.subscribers.stored :=
    fun slot hslot => (List.mem_filter.1 hslot).1
  rw [emit, foldl_notify_filter happ i hstored (narrow_connects.stable.refl s), filter_stored]

end Emissions

/-! ## Dispatches under way -/

/-- `t` is as deep in dispatches as `s`, and outside of them nothing is deferred if nothing
was. -/
def Calm (s t : Session η) : Prop :=
  t.depth = s.depth ∧ (s.depth = 0 → s.deferred = none → t.deferred = none)

theorem Calm.refl (s : Session η) : Calm s s := ⟨rfl, fun _ h => h⟩

theorem Calm.trans {s t u : Session η} (h : Calm s t) (h' : Calm t u) : Calm s u :=
  ⟨h'.1.trans h.1, fun hd hn => h'.2 (h.1.trans hd) (h.2 hd hn)⟩

theorem Calm.of_eq {s t : Session η} (hd : t.depth = s.depth) (hn : t.deferred = s.deferred) :
    Calm s t := ⟨hd, fun _ h => hn.trans h⟩

theorem stable_calm : Stable (Calm (η := η)) where
  refl := Calm.refl
  trans := Calm.trans
  complete _ _ _ := .of_eq (complete_depth ..) (complete_deferred ..)
  subscribe _ _ _ := .of_eq rfl rfl
  disconnect _ _ := .of_eq rfl rfl
  retain _ _ := .of_eq rfl rfl
  disarm _ _ := .of_eq rfl rfl
  running _ _ := .of_eq rfl rfl

theorem calm_install (s : Session η) (w : Wait) : Calm s (s.install w) :=
  .of_eq (install_depth ..) (install_deferred ..)

section Callbacks

variable {L : Licence η} {app : Application η}

theorem calm_tearDown (happ : app.Keeps L fun s _ t => Calm s t) (e : Failure)
    (s : Session η) : Calm s (s.tearDown app e) :=
  let cleared := { s with chain := [], tracked := [], outbound := [] }
  have hcleared : Calm s cleared := .of_eq rfl rfl
  have hdrain := stable_calm.drain happ e s.chain cleared
  (hcleared.trans hdrain).trans
    ((stable_calm.abortTracked e s.tracked _).trans (.of_eq rfl rfl))

theorem calm_shutdown (happ : app.Keeps L fun s _ t => Calm s t) (e : Failure)
    (s : Session η) : Calm s (s.shutdown app e) := by
  unfold shutdown
  split
  · exact calm_tearDown happ e s
  · rename_i hd
    exact ⟨rfl, fun h => absurd h hd⟩

/-- Leaving a dispatch ends one level of it. -/
theorem calm_leave (chain : List Handler) (waits : List Wait) (tracked : List Tracked)
    (s : Session η) :
    Calm { s with depth := s.depth - 1 } (s.leave chain waits tracked) := by
  have hback : Calm { s with depth := s.depth - 1 }
      { s.restore chain with depth := s.depth - 1 } := .of_eq rfl rfl
  have htrack (s : Session η) (t : Tracked) : Calm s (s.track t) := .of_eq rfl rfl
  exact hback.trans ((stable_calm.foldl calm_install waits _).trans
    (stable_calm.foldl htrack tracked _))

/-- A dispatch ends as deep as it began. Outside of others it leaves nothing deferred,
whatever was deferred in it. -/
theorem calm_deliver (happ : app.Keeps L fun s _ t => Calm s t) (f : Frame) (s : Session η) :
    Calm s (s.deliver app f) := by
  have hwalk := (stable_calm.walk happ f s.chain s.enter).1
  unfold deliver
  generalize walk app f s.chain s.enter = w at hwalk
  obtain ⟨chain, ⟨walked, waits, tracked⟩, stopped⟩ := w
  have hleave : (walked.leave chain waits tracked).depth = s.depth := by
    rw [(calm_leave chain waits tracked walked).1]
    show walked.depth - 1 = s.depth
    rw [hwalk]
    rfl
  show Calm s ((walked.leave chain waits tracked).settleDeferred app)
  unfold settleDeferred
  split
  · rename_i e hd he
    have hshut := calm_shutdown happ e { walked.leave chain waits tracked with deferred := none }
    exact ⟨hshut.1.trans hleave, fun _ _ => hshut.2 hd rfl⟩
  · rename_i hne
    refine ⟨hleave, fun hd _ => ?_⟩
    cases he : (walked.leave chain waits tracked).deferred with
    | none => rfl
    | some e => exact absurd he (hne e (hleave.trans hd))

theorem calm_perform (happ : app.Keeps L fun s _ t => Calm s t) (d : Deed η)
    (s : Session η) : Calm s (d.perform app s) := by
  cases d with
  | call c =>
    cases c with
    | request r =>
      simp only [Deed.perform, call, request]
      split
      · exact Calm.refl s
      · unfold exchange
        split
        · exact Calm.refl s
        · exact .of_eq rfl rfl
    | reset | reachState => exact .of_eq rfl rfl
    | waitFor p window => exact Calm.trans (t := s.issue.2) (.of_eq rfl rfl) (calm_install ..)
  | ask x callback =>
    simp only [Deed.perform, ask]
    split
    · exact Calm.refl s
    · exact .of_eq rfl rfl
  | deliver f => exact calm_deliver happ f s
  | expire =>
    have hfires : Calm s { s with timers := (s.timers.expire s.now).2 } := .of_eq rfl rfl
    exact hfires.trans (stable_calm.foldl (fun s op => stable_calm.complete s op _) _ _)
  | shutdown e => exact calm_shutdown happ e s
  | next =>
    simp only [Deed.perform, nextOutbound]
    split
    · exact Calm.refl s
    · exact .of_eq rfl rfl
  | emit i => exact stable_calm.emit happ i s
  | advance | send | takeAll | subscribe | disconnect | addHandler | think =>
    exact .of_eq rfl rfl

end Callbacks

/-! ## Leaving a dispatch -/

/-- To leave a dispatch changes the chain, the timers and the tracked operations. -/
theorem leave_eq (chain : List Handler) (waits : List Wait) (tracked : List Tracked)
    (s : Session η) : s.leave chain waits tracked = { s with
      chain := (s.leave chain waits tracked).chain
      timers := (s.leave chain waits tracked).timers
      tracked := (s.leave chain waits tracked).tracked
      depth := s.depth - 1 } := by
  let Left (t : Session η) : Prop :=
    t = { s with chain := t.chain, timers := t.timers, tracked := t.tracked, depth := s.depth - 1 }
  have hinstall (t : Session η) (w : Wait) (ht : Left t) : Left (t.install w) := by
    have hsame : (t.install w).tracked = t.tracked := by rw [install_eq]
    have hleft := (install_eq t w).trans (congrArg (fun u : Session η =>
      { u with chain := (t.install w).chain, timers := (t.install w).timers }) ht)
    rw [← hsame] at hleft
    exact hleft
  have htrack (t : Session η) (x : Tracked) (ht : Left t) : Left (t.track x) :=
    congrArg (fun u : Session η => { u with tracked := (t.track x).tracked }) ht
  refine List.foldlRecOn tracked _ (motive := Left) ?_ fun t ht x _ => htrack t x ht
  exact List.foldlRecOn waits _ (motive := Left) rfl fun t ht w _ => hinstall t w ht

/-- What the walk asked for is installed behind all others. -/
theorem leave_chain (chain : List Handler) (waits : List Wait) (tracked : List Tracked)
    (s : Session η) : ∃ installed, (s.leave chain waits tracked).chain =
      chain ++ s.chain ++ installed ∧
        installed.map Handler.operation? = waits.map (some ·.operation) := by
  have htrack : ∀ (ts : List Tracked) (t : Session η),
      (ts.foldl (fun t x => t.track x) t).chain = t.chain := by
    intro ts
    induction ts with
    | nil => exact fun _ => rfl
    | cons x ts ih => exact fun t => ih (t.track x)
  have hinstall : ∀ (ws : List Wait) (t : Session η), ∃ installed,
      (ws.foldl (fun t w => t.install w) t).chain = t.chain ++ installed ∧
        installed.map Handler.operation? = ws.map (some ·.operation) := by
    intro ws
    induction ws with
    | nil => exact fun t => ⟨[], by simp⟩
    | cons w ws ih =>
      intro t
      obtain ⟨installed, hchain, hops⟩ := ih (t.install w)
      have hone : ∃ h : Handler, (t.install w).chain = t.chain ++ [h] ∧
          h.operation? = some w.operation := by
        unfold install
        split <;> exact ⟨_, rfl, rfl⟩
      obtain ⟨h, hadded, hop⟩ := hone
      refine ⟨h :: installed, ?_, ?_⟩
      · rw [List.foldl_cons, hchain, hadded, List.append_assoc]
        rfl
      · rw [List.map_cons, hop, hops, List.map_cons]
  obtain ⟨installed, hchain, hops⟩ :=
    hinstall waits { s.restore chain with depth := s.depth - 1 }
  exact ⟨installed, (htrack tracked _).trans hchain, hops⟩

/-- The end of a dispatch takes one off its depth. -/
theorem leave_depth (chain : List Handler) (waits : List Wait) (tracked : List Tracked)
    (s : Session η) : (s.leave chain waits tracked).depth = s.depth - 1 :=
  (calm_leave chain waits tracked s).1

end Session

/-! ## Every run -/

section Runs

variable {L : Licence η} {s t : Session η} {ws : List Wait}

/-- An outcome is never changed once it is there, not by a callback either. -/
theorem Uses.outlives (h : Uses L s ws t) : s.Outlives t :=
  h.keeps (Session.narrow_outlives.kept L)

/-- A connection is never given to another subscriber. -/
theorem Uses.connects (h : Uses L s ws t) : s.Connects t :=
  h.keeps (Session.narrow_connects.kept L)

theorem Lawful.outlives {app : Application η} (happ : Lawful L app) :
    app.Keeps L fun s _ t => Session.Outlives s t :=
  happ.keeps (Session.narrow_outlives.kept L)

theorem Lawful.connects {app : Application η} (happ : Lawful L app) :
    app.Keeps L fun s _ t => Session.Connects s t :=
  happ.keeps (Session.narrow_connects.kept L)

theorem Session.calm_kept (L : Licence η) : L.Kept fun s _ t => Session.Calm s t where
  refl := Session.Calm.refl
  deed hst _ happ _ _ := (hst.trans (Session.calm_perform happ _ _)).trans (.of_eq rfl rfl)
  wait _ _ hst _ := hst.trans (.of_eq rfl rfl)

/-- A run ends as deep in dispatches as it began. -/
theorem Uses.calm (h : Uses L s ws t) : s.Calm t :=
  h.keeps (Session.calm_kept L)

theorem Lawful.calm {app : Application η} (happ : Lawful L app) :
    app.Keeps L fun s _ t => Session.Calm s t :=
  happ.keeps (Session.calm_kept L)

/-- A dispatch is left as deep in dispatches as it was entered. -/
theorem Session.dispatched_depth {app : Application η} (hlaw : Lawful L app) (f : Frame)
    (s : Session η) : (s.dispatched app f).depth = s.depth := by
  have hwalk := (stable_calm.walk hlaw.calm f s.chain s.enter).1
  rw [dispatched, leave_depth, hwalk]
  rfl

/-- Between the deeds of an application no dispatch is under way and no teardown is
deferred. -/
theorem Reachable.calm (hs : Reachable L s) : s.depth = 0 ∧ s.deferred = none := by
  obtain ⟨config, host, h⟩ := hs
  exact ⟨h.calm.1, h.calm.2 rfl rfl⟩

end Runs

end ZigbeeHost
