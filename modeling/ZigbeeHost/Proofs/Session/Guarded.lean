import ZigbeeHost.Proofs.Session.Newcomers
import ZigbeeHost.Proofs.Session.Teardown
/-!
# Watchers whose event does not occur

A watcher detaches when its event occurs and decides its operation, or when the operation is
aborted. In the midst of a dispatch neither happens : the handlers for events are out of the
chain with all the others, no run adds one (`Uses.gains`), and a teardown is deferred. The
same goes for a teardown, whose tracked operations are out as well. So a watcher that is
`Guarded` stays attached, whatever callbacks do (`Uses.guards`), as long as they do not emit its
event by hand.

When the event occurs, each watcher has its turn once, and the turns of the others leave it
attached. `Sound.emit_watcher` says what becomes of it.
-/

namespace ZigbeeHost

variable {η : Type} {L : Licence η}

/-! ## Guarded subscribers -/

/-- The subscriber is attached where no handler emits and no teardown finds it : in the midst of
a dispatch, or of a teardown that has its operation yet to abort. -/
structure Guarded (owed : List Tracked) (slot : Slot) (s : Session η) : Prop where
  attached : slot ∈ s.slots
  mute : ∀ h ∈ s.chain, h.mute = true
  spared : s.depth ≠ 0 ∨ slot.connection ∈ owed.map Tracked.connection

namespace Guarded

variable {owed owed' : List Tracked} {slot : Slot} {s t : Session η}

/-- A slot that stays attached while handlers come and go stays guarded. -/
theorem step (h : Guarded owed slot s) (hgains : s.Gains t) (hcalm : s.Calm t)
    (hslot : slot ∈ t.slots) : Guarded owed slot t where
  attached := hslot
  mute g hg := (hgains.handler g hg).elim (h.mute g) And.left
  spared := h.spared.imp_left fun hdepth => hcalm.1 ▸ hdepth

theorem mono (h : Guarded owed slot s) (hsub : owed ⊆ owed') : Guarded owed' slot s where
  attached := h.attached
  mute := h.mute
  spared := h.spared.imp_right fun hc => List.map_subset _ hsub hc

theorem retain (h : Guarded owed slot s) (event : Event) : Guarded owed slot (s.retain event) where
  attached := s.slots_retain event ▸ h.attached
  mute := h.mute
  spared := h.spared

theorem enter (hslot : slot ∈ s.slots) (owed : List Tracked) : Guarded owed slot s.enter where
  attached := hslot
  mute := nofun
  spared := Or.inl (Nat.succ_ne_zero _)

end Guarded

/-- Whoever is guarded when a run starts is still attached when it ends. -/
def Session.Guards (L : Licence η) (slot : Slot) (s t : Session η) : Prop :=
  ∀ away owed, Sound L away owed s → Guarded owed slot s → slot ∈ t.slots

/-- If nobody is called back, an application detaches its own subscribers at most. -/
theorem Deed.mem_slots_perform {d : Deed η} (hquiet : d.quiet = true) {s : Session η}
    (hown : d.Own s) {slot : Slot} {op : OperationId}
    (hop : slot.subscriber.operation? = some op) (hslot : slot ∈ s.slots) (app : Application η) :
    slot ∈ (d.perform app s).slots := by
  cases d with
  | call c =>
    cases c with
    | request r =>
      simp only [perform, Session.call, Session.request]
      split
      · exact hslot
      · unfold Session.exchange
        split <;> exact hslot
    | reset soft => exact s.issue.2.slots_subset_subscribe .reset _ hslot
    | reachState ends allowed => exact hslot
    | waitFor p window =>
      show slot ∈ (s.issue.2.install _).slots
      rw [Session.install_slots]
      exact hslot
  | ask x callback =>
    simp only [perform, Session.ask]
    split <;> exact hslot
  | expire =>
    rw [perform, Session.expireTimers_eq]
    exact hslot
  | next =>
    simp only [perform, Session.nextOutbound]
    split <;> exact hslot
  | subscribe event callback => exact s.slots_subset_subscribe event _ hslot
  | disconnect connection =>
    refine Session.mem_slots_disconnect.2 ⟨hslot, fun hc => ?_⟩
    obtain ⟨callback, hsub⟩ := hown slot hslot hc
    rw [hsub] at hop
    cases hop
  | deliver | shutdown | emit => cases hquiet
  | advance | send | takeAll | addHandler | think => exact hslot

namespace Sound

variable {away : List Handler} {owed : List Tracked} {s : Session η} {app : Application η}
  {slot : Slot} {f : Frame} (hlaw : Lawful L app)

/-! ### Emissions -/

section Callbacks

variable (happ : app.Keeps L fun s _ t => Session.Guards L slot s t)
include happ hlaw

/-- The turn of another subscriber. -/
theorem notify_guards (hs : Sound L away owed s) (hg : Guarded owed slot s) {other : Slot}
    (hne : slot.connection ≠ other.connection) (i : Indication) :
    Guarded owed slot (s.notify app i other) := by
  refine hg.step (Session.stable_gains.notify hlaw.gains i s other)
    (Session.stable_calm.notify hlaw.calm i s other) ?_
  rcases Session.notify_cases app i s other with
    heq | ⟨watch, op, outcome, -, -, -, heq⟩ | ⟨callback, -, heq⟩ <;> rw [heq]
  · exact hg.attached
  · rw [Session.complete_slots]
    exact Session.mem_slots_disconnect.2 ⟨hg.attached, hne⟩
  · let calling := { s with running := other.connection :: s.running }
    have hcalling : Sound L away owed calling := Accounts.congr hs rfl rfl rfl rfl
    exact happ.hear callback other.connection i calling away owed hcalling
      ⟨hg.attached, hg.mute, hg.spared⟩

/-- The turns of other subscribers, which were attached when the emission started, in `s`. -/
theorem turns_guards {t : Session η} (hst : s.Connects t)
    (ht : Sound L away owed t) (hg : Guarded owed slot t) (i : Indication) (others : List Slot)
    (hothers : ∀ x ∈ others, x ∈ s.slots ∧ slot.connection ≠ x.connection) :
    let u := others.foldl (Session.notify app i) t
    s.Connects u ∧ Sound L away owed u ∧ Guarded owed slot u := by
  refine List.foldlRecOn others (Session.notify app i)
    (motive := fun u => s.Connects u ∧ Sound L away owed u ∧ Guarded owed slot u)
    ⟨hst, ht, hg⟩ ?_
  intro u ⟨hsu, hu, hgu⟩ x hx
  obtain ⟨hmem, hne⟩ := hothers x hx
  have hturn := Session.narrow_connects.stable.notify hlaw.connects i u x
  exact ⟨Session.narrow_connects.trans hsu hturn, hu.notify hlaw.upholds i hsu hmem,
    notify_guards hlaw happ hu hgu hne i⟩

/-- An emission of another event. -/
theorem emit_guards (hs : Sound L away owed s) (hg : Guarded owed slot s) {i : Indication}
    (hi : i.event ≠ slot.event) : Guarded owed slot (s.emit app i) := by
  obtain ⟨-, -, hturns⟩ := turns_guards hlaw happ (Session.narrow_connects.stable.refl s) hs hg i
    (s.audience i.event) fun x hx => by
      obtain ⟨hmem, hevent⟩ := Session.mem_audience.1 hx
      refine ⟨hmem, fun hc => hi ?_⟩
      rw [Session.eq_of_connection hg.attached hmem hc, hevent]
  rw [Session.emit_eq hlaw.connects]
  exact hturns.retain i.event

/-- In an emission of its event a watcher has one turn, and decides its operation then if the
indication does. -/
theorem emit_watcher (hs : Sound L away owed s) (hg : Guarded owed slot s) {watch : Watch}
    {op : OperationId} (hsub : slot.subscriber = .watcher watch op) {i : Indication}
    (hi : slot.event = i.event) :
    match watch.verdict? i with
    | some outcome => (s.emit app i).outcome? op = some outcome
    | none => slot ∈ (s.emit app i).slots := by
  have haudience : slot ∈ s.audience i.event :=
    Session.mem_audience.2 ⟨hg.attached, hi⟩
  obtain ⟨before, behind, hsplit⟩ := List.append_of_mem haudience
  have hnodup : ((before ++ slot :: behind).map Slot.connection).Nodup :=
    hsplit ▸ s.slots_nodup.sublist (List.filter_sublist.map _)
  rw [List.map_append, List.map_cons] at hnodup
  have hmem : ∀ x ∈ before ++ slot :: behind, x ∈ s.slots := fun x hx =>
    (Session.mem_audience.1 (hsplit ▸ hx)).1
  have hbefore : ∀ x ∈ before, x ∈ s.slots ∧ slot.connection ≠ x.connection := by
    refine fun x hx => ⟨hmem x (List.mem_append_left _ hx), fun hc => ?_⟩
    exact (List.nodup_append.1 hnodup).2.2 _ (List.mem_map_of_mem hx) _ List.mem_cons_self hc.symm
  have hbehind : ∀ x ∈ behind, x ∈ s.slots ∧ slot.connection ≠ x.connection := by
    refine fun x hx => ⟨hmem x (by simp [hx]), fun hc => ?_⟩
    exact (List.nodup_cons.1 (List.nodup_append.1 hnodup).2.1).1 (hc ▸ List.mem_map_of_mem hx)
  obtain ⟨hst, ht, hgt⟩ := turns_guards hlaw happ (Session.narrow_connects.stable.refl s) hs hg i
    before hbefore
  have hemit : s.emit app i = (behind.foldl (Session.notify app i)
      ((before.foldl (Session.notify app i) s).notify app i slot)).retain i.event := by
    rw [Session.emit_eq hlaw.connects, hsplit, List.foldl_append, List.foldl_cons]
  rw [hemit]
  generalize before.foldl (Session.notify app i) s = t at hst ht hgt ⊢
  have hconnected : t.isConnected slot.connection = true :=
    Session.isConnected_iff.2 ⟨slot, hgt.attached, rfl⟩
  cases hverdict : watch.verdict? i with
  | some outcome =>
    have hturn : t.notify app i slot = (t.disconnect slot.connection).complete op outcome := by
      simp [Session.notify, hconnected, hsub, hverdict]
    have hpending : t.pending op = true :=
      Accounts.pending_of_slot ht hgt.attached (by rw [hsub]; rfl)
    have houtlives : (t.notify app i slot).Outlives
        (behind.foldl (Session.notify app i) (t.notify app i slot)) :=
      Session.narrow_outlives.stable.foldl
        (fun u x => Session.narrow_outlives.stable.notify hlaw.outlives i u x) _ _
    refine houtlives op outcome ?_
    rw [hturn]
    exact (t.disconnect slot.connection).outcome?_complete op outcome hpending
  | none =>
    have hturn : t.notify app i slot = t := by
      simp [Session.notify, hconnected, hsub, hverdict]
    rw [hturn]
    exact ((turns_guards hlaw happ hst ht hgt i behind hbehind).2.2.retain i.event).attached

/-! ### Handlers -/

omit hlaw in
theorem resume_guards (hs : Sound L away owed s) (hg : Guarded owed slot s)
    (answer : Except Failure Bytes) (a : Aftermath) : slot ∈ (a.resume app answer s).1.slots := by
  rcases a.resume_cases app answer s with ⟨callback, rfl⟩ |
    ⟨op, -, ⟨outcome, -, heq⟩ | ⟨c, -, heq⟩ | ⟨ends, allowed, -, heq⟩⟩
  · exact happ.answered callback answer s away owed hs hg
  · rw [heq, Session.complete_slots]
    exact hg.attached
  · rw [heq]
    exact hg.attached
  · rw [heq]
    exact s.slots_subset_subscribe .stateChange _ hg.attached

/-- A handler that does not emit the event. -/
theorem offer_guards {g : Handler} (hs : Sound L (g :: away) owed s) (hg : Guarded owed slot s)
    (hother : ∀ i, g.emission? f = some i → i.event ≠ slot.event) :
    slot ∈ (g.offer app f s).1.slots := by
  rcases Handler.offer_cases (hs.formed g List.mem_cons_self) f app s with
    heq | ⟨i, hi, heq⟩ | ⟨accepted, a, answer, rfl, heq⟩ | ⟨p, op, rest, rfl, heq⟩ |
      ⟨id, p, op, rest, rfl, heq⟩ | ⟨callback, permanent, rfl, heq⟩ <;> rw [heq]
  · exact hg.attached
  · exact (emit_guards hlaw happ hs hg (hother i hi)).attached
  · exact resume_guards happ hs hg answer a
  · rw [Session.complete_slots]
    exact hg.attached
  · show slot ∈ (s.complete op (.ok (.payload rest))).slots
    rw [Session.complete_slots]
    exact hg.attached
  · exact happ.offer callback f s _ owed hs hg

omit hlaw in
theorem abort_guards {g : Handler} (hs : Sound L (g :: away) owed s) (hg : Guarded owed slot s)
    (e : Failure) : slot ∈ (g.abort app e s).slots := by
  cases g with
  | indication kind command event lenient => exact hg.attached
  | response accepted a =>
    have hdrop : ((a.resume app (.error e) s).2.drop (a.resume app (.error e) s).1).slots =
        (a.resume app (.error e) s).1.slots := by
      refine List.foldlRecOn (a.resume app (.error e) s).2.waits _
        (motive := fun t : Session η => t.slots = (a.resume app (.error e) s).1.slots) rfl ?_
      exact fun t ht w _ => (Session.complete_slots ..).trans ht
    show slot ∈ ((a.resume app (.error e) s).2.drop (a.resume app (.error e) s).1).slots
    rw [hdrop]
    exact resume_guards happ hs hg _ a
  | wait p op =>
    rw [Handler.abort, Session.complete_slots]
    exact hg.attached
  | timed id inner =>
    obtain ⟨p, op, rfl⟩ := hs.inner_eq
    simp only [Handler.abort]
    split
    · rw [Session.complete_slots]
      exact hg.attached
    · exact hg.attached
  | custom callback permanent => exact happ.abort callback e s _ owed hs hg

/-! ### Dispatches and teardowns -/

/-- As a walk goes on whose handlers do not emit the event. -/
theorem walk_guards (chain : List Handler) (hs : Sound L (chain ++ away) owed s)
    (hg : Guarded owed slot s)
    (hother : ∀ h ∈ chain, ∀ i, h.emission? f = some i → i.event ≠ slot.event) :
    slot ∈ (s.walk app f chain).2.1.1.slots := by
  refine (hs.walk_induct hlaw.upholds hlaw.connects (Q := Guarded owed slot) hg ?_).attached
  intro g hgmem away' owed' t _ howed ht hgt
  exact hgt.step (Session.stable_gains.steady.offer (fun _ _ => trivial) hlaw.gains f g t)
    (Session.stable_calm.steady.offer (fun _ _ => trivial) hlaw.calm f g t)
    (offer_guards hlaw happ ht (hgt.mono howed) (hother g hgmem))

/-- A dispatch in which no handler emits the event. -/
theorem dispatched_guards (hs : Sound L away owed s) (hslot : slot ∈ s.slots)
    (hother : ∀ h ∈ s.chain, ∀ i, h.emission? f = some i → i.event ≠ slot.event) :
    slot ∈ (s.dispatched app f).slots := by
  have hslots : (s.dispatched app f).slots = (s.enter.walk app f s.chain).2.1.1.slots :=
    (congrArg Session.slots (Session.leave_eq ..)).trans rfl
  rw [hslots]
  exact walk_guards hlaw happ s.chain hs.enter (.enter hslot owed) hother

/-- As handlers are aborted, the watchers of tracked operations stay attached. -/
theorem drain_guards (chain : List Handler) (hs : Sound L (chain ++ away) owed s)
    (hg : Guarded owed slot s) (e : Failure) :
    slot ∈ (Chain.drain Handler.permanent (Handler.abort app e) chain s).2.slots := by
  refine (hs.drain_induct hlaw.upholds (Q := Guarded owed slot) hg ?_).attached
  intro g away' t _ ht hgt
  exact hgt.step (Session.stable_gains.abort hlaw.gains e g t)
    (Session.stable_calm.abort hlaw.calm e g t) (abort_guards happ ht hgt e)

/-- A teardown spares a watcher whose operation is owed to it. -/
theorem tearDown_guards (hs : Sound L away owed s) (hslot : slot ∈ s.slots)
    (howed : slot.connection ∈ owed.map Tracked.connection) (e : Failure) :
    slot ∈ (s.tearDown app e).slots := by
  let cleared := { s with chain := [], tracked := [], outbound := [] }
  let drained := (Chain.drain Handler.permanent (Handler.abort app e) s.chain cleared).2
  have hcleared : Guarded (s.tracked ++ owed) slot cleared :=
    ⟨hslot, nofun, Or.inr (List.map_subset _ (List.subset_append_right ..) howed)⟩
  -- Each connection is tracked once, so nobody aborts what is owed.
  have hnot : slot.connection ∉ s.tracked.map Tracked.connection := fun hc => by
    have hnodup := hs.watchers.tracked_nodup
    rw [List.map_append] at hnodup
    exact (List.nodup_append.1 hnodup).2.2 _ howed _ hc rfl
  show slot ∈ (s.tracked.foldl (Session.abortTracked e) drained).slots
  rw [Session.slots_abortTracked]
  have hdrained := drain_guards hlaw happ s.chain hs.cleared hcleared e
  exact List.mem_filter.2 ⟨hdrained, decide_eq_true hnot⟩

/-- A teardown fails the operation of a watcher that is tracked. -/
theorem tearDown_fails_watcher (hs : Sound L away owed s) (hslot : slot ∈ s.slots)
    {op : OperationId} (hop : slot.subscriber.operation? = some op)
    (htracked : ⟨slot.connection, op⟩ ∈ s.tracked) (e : Failure) :
    (s.tearDown app e).outcome? op = some (.error e) := by
  let cleared := { s with chain := [], tracked := [], outbound := [] }
  let drained := (Chain.drain Handler.permanent (Handler.abort app e) s.chain cleared).2
  have hcleared : Guarded (s.tracked ++ owed) slot cleared :=
    ⟨hslot, nofun, Or.inr (List.mem_map_of_mem (List.mem_append_left _ htracked))⟩
  have hattached : slot ∈ drained.slots := drain_guards hlaw happ s.chain hs.cleared hcleared e
  have hdrained := hs.cleared.drain hlaw.upholds s.chain e
  obtain ⟨before, behind, hsplit⟩ := List.append_of_mem htracked
  have hnot : slot.connection ∉ before.map Tracked.connection := fun hc => by
    have hnodup := hs.watchers.tracked_nodup
    rw [hsplit, List.map_append, List.map_append, List.map_cons] at hnodup
    have hfront := (List.nodup_append.1 (List.nodup_append.1 hnodup).2.1).2.2
    exact hfront _ hc _ List.mem_cons_self rfl
  -- Its turn comes when those before it in the list are aborted.
  let turn := before.foldl (Session.abortTracked e) drained
  have hturn : slot ∈ turn.slots := by
    rw [Session.slots_abortTracked]
    exact List.mem_filter.2 ⟨hattached, decide_eq_true hnot⟩
  have howed : s.tracked ++ owed = before ++ (⟨slot.connection, op⟩ :: (behind ++ owed)) := by
    rw [hsplit, List.append_assoc, List.cons_append]
  rw [howed] at hdrained
  have hsound := abortedTracked hdrained e
  have hpending : turn.pending op = true := Accounts.pending_of_slot hsound hturn hop
  have hall : s.tracked.foldl (Session.abortTracked e) drained =
      behind.foldl (Session.abortTracked e) (turn.abortTracked e ⟨slot.connection, op⟩) := by
    rw [hsplit, List.foldl_append, List.foldl_cons]
  show (s.tracked.foldl (Session.abortTracked e) drained).outcome? op = some (.error e)
  rw [hall]
  refine Session.narrow_outlives.stable.abortTracked e behind _ op _ ?_
  exact (turn.disconnect slot.connection).outcome?_complete op (.error e) hpending

/-- A shutdown spares a slot that is owed, and every slot while a dispatch is under way. -/
theorem shutdown_guards (hs : Sound L away owed s) (hslot : slot ∈ s.slots)
    (hspared : s.depth ≠ 0 ∨ slot.connection ∈ owed.map Tracked.connection) (e : Failure) :
    slot ∈ (s.shutdown app e).slots := by
  unfold Session.shutdown
  split
  · rename_i hdepth
    exact tearDown_guards hlaw happ hs hslot (hspared.resolve_left fun h => h hdepth) e
  · exact hslot

/-- A delivery keeps a guarded slot. -/
theorem deliver_guards (hs : Sound L away owed s) (hg : Guarded owed slot s) :
    slot ∈ (s.deliver app f).slots := by
  have hslot := dispatched_guards (f := f) hlaw happ hs hg.attached fun h hh i hi => by
    rw [Handler.emission?_of_mute (hg.mute h hh)] at hi
    cases hi
  rw [Session.deliver_eq]
  unfold Session.settleDeferred
  split
  · have hcleared : Sound L away owed { s.dispatched app f with deferred := none } :=
      Accounts.congr (hs.dispatched hlaw f) rfl rfl rfl rfl
    refine shutdown_guards hlaw happ hcleared hslot ?_ _
    exact hg.spared.imp_left ((Session.dispatched_depth hlaw f s).symm ▸ ·)
  · exact hslot

theorem perform_guards (hL : ∀ i, L.deed (.emit i) → i.event ≠ slot.event) {op : OperationId}
    (hop : slot.subscriber.operation? = some op) (hs : Sound L away owed s)
    (hg : Guarded owed slot s) {d : Deed η} (hd : L.Permits d) (hown : d.Own s) :
    slot ∈ (d.perform app s).slots := by
  cases hquiet : d.quiet with
  | true => exact Deed.mem_slots_perform hquiet hown hop hg.attached app
  | false =>
    cases d with
    | deliver f => exact deliver_guards hlaw happ hs hg
    | shutdown e => exact shutdown_guards hlaw happ hs hg.attached hg.spared e
    | emit i => exact (emit_guards hlaw happ hs hg (hL i hd.1)).attached
    | _ => cases hquiet

end Callbacks

end Sound

/-! ## Every run -/

section Runs

variable {slot : Slot} {op : OperationId} (hop : slot.subscriber.operation? = some op)
  (hL : ∀ i, L.deed (.emit i) → i.event ≠ slot.event)
include hop hL

theorem Session.guards_kept :
    L.Kept fun s ws t => Uses L s ws t ∧ Session.Guards L slot s t := by
  refine Licence.kept_along (fun s _ _ _ hg => hg.attached) ?_ ?_
  · intro s t ws app d hrun hst hlaw happ hd hown away owed hs hg
    have ht := hrun.keeps (upholds_kept L) away owed hs
    have hgt := hg.step hrun.gains hrun.calm (hst away owed hs hg)
    exact Sound.perform_guards hlaw happ hL hop ht hgt hd hown
  · intro s t ws p window _ hst _ away owed hs hg
    exact hst away owed hs hg

/-- A watcher that is guarded stays attached, whatever is done meanwhile, if nobody emits its
event by hand. -/
theorem Uses.guards {s t : Session η} {ws : List Wait} (h : Uses L s ws t) {away : List Handler}
    {owed : List Tracked} (hs : Sound L away owed s) (hg : Guarded owed slot s) :
    Guarded owed slot t :=
  hg.step h.gains h.calm ((h.keeps (Session.guards_kept hop hL)).2 away owed hs hg)

theorem Lawful.guards {app : Application η} (happ : Lawful L app) :
    app.Keeps L fun s _ t => Session.Guards L slot s t :=
  (happ.keeps (Session.guards_kept hop hL)).mono fun _ _ _ h => h.2

end Runs

end ZigbeeHost
