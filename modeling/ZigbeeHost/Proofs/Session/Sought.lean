import ZigbeeHost.Proofs.Session.Sound
/-!
# What a wait for a state ends with

A wait for a state succeeds with a state that it was to reach, and with nothing else. Its
operation goes from the handler of its question to the watcher that follows the state, and
both decide it by the same states. `Session.Seeks` says of a session, with the handlers `away`
that are out of it, that whoever may complete the operation looks for a state of `ends`.

This is a property of each handler and of each subscriber, so every deed keeps it turn by
turn, as long as the callbacks in it do, and every run does (`Uses.pursues`), also one that
changes the state by hand.
-/

namespace ZigbeeHost

variable {η : Type} {L : Licence η} {ends : List DeviceState} {op : OperationId}

/-! ## Who looks for a state -/

/-- Who has the operation follows the state of the device to a state of `ends`. -/
def Handler.Follows (ends : List DeviceState) (op : OperationId) (h : Handler) : Prop :=
  h.operation? = some op → ∃ accepted allowed, h = .response accepted (.follow ends allowed op)

/-- If the subscriber has the operation, it watches for a state in `ends` on its behalf. -/
def Subscriber.Follows (ends : List DeviceState) (op : OperationId) (sub : Subscriber) : Prop :=
  sub.operation? = some op → ∃ allowed, sub = .watcher (.decisiveState ends allowed) op

/-- The outcome is a failure, or a state of `ends`. -/
def Reaches (ends : List DeviceState) (outcome : Except Failure Outcome) : Prop :=
  ∀ v, outcome = .ok v → ∃ state ∈ ends, v = .state state

theorem Handler.follows_of_ne {h : Handler} (hne : h.operation? ≠ some op) :
    h.Follows ends op := fun hop => absurd hop hne

theorem Handler.Follows.ne {h : Handler} (hf : h.Follows ends op)
    (hno : ∀ accepted allowed, h ≠ .response accepted (.follow ends allowed op)) :
    h.operation? ≠ some op := fun hop =>
  let ⟨accepted, allowed, heq⟩ := hf hop
  hno accepted allowed heq

theorem reaches_error (e : Failure) : Reaches ends (.error e) := nofun

theorem Watch.reaches {allowed : List DeviceState} {i : Indication}
    {outcome : Except Failure Outcome}
    (h : (Watch.decisiveState ends allowed).verdict? i = some outcome) :
    Reaches ends outcome := by
  rintro v rfl
  cases i with
  | stateChange state =>
    simp only [verdict?] at h
    split at h
    · rename_i hmem
      cases h
      exact ⟨state, hmem, rfl⟩
    · split at h <;> cases h
  | _ => cases h

namespace Session

/-- Whoever may complete the operation looks for a state of `ends`, and nobody has completed it
with anything else. -/
structure Seeks (ends : List DeviceState) (op : OperationId) (away : List Handler)
    (s : Session η) : Prop where
  issued : op < s.operations.size
  handler : ∀ h ∈ away ++ s.chain, h.Follows ends op
  subscriber : ∀ slot ∈ s.slots, slot.subscriber.Follows ends op
  outcome : ∀ outcome, s.outcome? op = some outcome → Reaches ends outcome

/-- What seeks in `s` seeks in `t`, where the waits `ws` are away too. -/
def Pursues (ends : List DeviceState) (op : OperationId) (s : Session η) (ws : List Wait)
    (t : Session η) : Prop :=
  ∀ away, Seeks ends op away s → Seeks ends op (ws.map Wait.handler ++ away) t

namespace Seeks

variable {away away' : List Handler} {s t : Session η}

theorem of_eq (h : Seeks ends op away s) (hops : t.operations = s.operations)
    (hslots : t.slots ⊆ s.slots) (hchain : away' ++ t.chain ⊆ away ++ s.chain) :
    Seeks ends op away' t where
  issued := hops ▸ h.issued
  handler g hg := h.handler g (hchain hg)
  subscriber slot hslot := h.subscriber slot (hslots hslot)
  outcome o ho := h.outcome o (by rwa [outcome?, hops] at ho)

theorem mono (h : Seeks ends op away s) (hsub : away' ⊆ away) : Seeks ends op away' s :=
  h.of_eq rfl (List.Subset.refl _)
    (List.append_subset.2 ⟨List.subset_append_of_subset_left _ hsub, List.subset_append_right ..⟩)

theorem complete (h : Seeks ends op away s) {op' : OperationId}
    {outcome : Except Failure Outcome} (ho : op' = op → Reaches ends outcome) :
    Seeks ends op away (s.complete op' outcome) where
  issued := by rw [size_operations_complete]; exact h.issued
  handler g hg := h.handler g (by rwa [complete_chain] at hg)
  subscriber slot hslot := h.subscriber slot (by rwa [complete_slots] at hslot)
  outcome o hdecided := by
    rw [outcome?_eq_some_iff, operations_complete] at hdecided
    split at hdecided
    · rename_i hsame
      cases hdecided
      exact ho hsame.1.symm
    · exact h.outcome o (outcome?_eq_some_iff.2 hdecided)

theorem fail (h : Seeks ends op away s) (op' : OperationId) (e : Failure) :
    Seeks ends op away (s.complete op' (.error e)) :=
  h.complete fun _ => reaches_error e

theorem issue (h : Seeks ends op away s) : Seeks ends op away s.issue.2 where
  issued := Nat.lt_of_lt_of_eq (Nat.lt_succ_of_lt h.issued) (Array.size_push ..).symm
  handler := h.handler
  subscriber := h.subscriber
  outcome o ho := by
    have hother : op ≠ s.operations.size := Nat.ne_of_lt h.issued
    rw [outcome?_eq_some_iff, operations_issue, if_neg hother] at ho
    exact h.outcome o (outcome?_eq_some_iff.2 ho)

/-- A new operation is another one. -/
theorem ne_issue (h : Seeks ends op away s) : some s.issue.1 ≠ some op := fun heq =>
  Nat.ne_of_gt h.issued (Option.some.inj heq)

theorem subscribe (h : Seeks ends op away s) (event : Event) {sub : Subscriber}
    (hsub : sub.Follows ends op) : Seeks ends op away (s.subscribe event sub).2 where
  issued := h.issued
  handler := h.handler
  subscriber slot hslot := by
    rw [slots_subscribe] at hslot
    rcases List.mem_append.1 hslot with hslot | hslot
    · exact h.subscriber slot hslot
    · rw [List.mem_singleton.1 hslot]
      exact hsub
  outcome := h.outcome

theorem disconnect (h : Seeks ends op away s) (connection : Connection) :
    Seeks ends op away (s.disconnect connection) :=
  h.of_eq rfl (fun _ hslot => (mem_slots_disconnect.1 hslot).1) (List.Subset.refl _)

theorem add (h : Seeks ends op away s) {g : Handler} (hg : g.Follows ends op) :
    Seeks ends op (g :: away) s where
  issued := h.issued
  handler g' hg' := (List.mem_cons.1 hg').elim (fun heq => heq ▸ hg) (h.handler g')
  subscriber := h.subscriber
  outcome := h.outcome

theorem addHandler (h : Seeks ends op away s) {g : Handler} (hg : g.Follows ends op) :
    Seeks ends op away (s.addHandler g) :=
  (h.add hg).of_eq rfl (List.Subset.refl _) (by grind [Session.addHandler])

theorem restore {chain : List Handler} (h : Seeks ends op (chain ++ away) s) :
    Seeks ends op away (s.restore chain) :=
  h.of_eq rfl (List.Subset.refl _) (by grind [Session.restore])

theorem install (h : Seeks ends op away s) {w : Wait} (hw : w.handler.Follows ends op) :
    Seeks ends op away (s.install w) := by
  have hne : w.handler.operation? ≠ some op := hw.ne fun _ _ heq => by cases heq
  unfold Session.install
  split
  · exact h.addHandler hw
  · refine Seeks.addHandler (s := { s with timers := _ }) ?_ (Handler.follows_of_ne hne)
    exact h.of_eq rfl (List.Subset.refl _) (List.Subset.refl _)

theorem foldl {α : Type} {f : Session η → α → Session η} (xs : List α)
    (hf : ∀ x ∈ xs, ∀ t, Seeks ends op away t → Seeks ends op away (f t x))
    (h : Seeks ends op away s) : Seeks ends op away (xs.foldl f s) :=
  List.foldlRecOn xs f (motive := Seeks ends op away) h fun t ht x hx => hf x hx t ht

/-! ## What callbacks are called from -/

section Callbacks

variable {app : Application η} (happ : app.Keeps L (Pursues ends op))
include happ

theorem notify (h : Seeks ends op away s) (i : Indication) {slot : Slot}
    (hslot : slot.subscriber.Follows ends op) : Seeks ends op away (s.notify app i slot) := by
  rcases Session.notify_cases app i s slot with
    heq | ⟨watch, op', outcome, -, hsub, hverdict, heq⟩ | ⟨callback, -, heq⟩ <;> rw [heq]
  · exact h
  · refine (h.disconnect _).complete fun hop => ?_
    obtain ⟨allowed, hwatch⟩ := hslot (by rw [hsub, hop]; rfl)
    rw [hsub] at hwatch
    cases hwatch
    exact Watch.reaches hverdict
  · have hcalling : Seeks ends op away { s with running := slot.connection :: s.running } :=
      h.of_eq rfl (List.Subset.refl _) (List.Subset.refl _)
    exact (happ.hear callback slot.connection i _ away hcalling).of_eq rfl (List.Subset.refl _)
      (List.Subset.refl _)

theorem emit (hold : app.Keeps L fun s _ t => Connects s t) (h : Seeks ends op away s)
    (i : Indication) : Seeks ends op away (s.emit app i) := by
  have hturns : Seeks ends op away ((s.audience i.event).foldl (Session.notify app i) s) :=
    foldl _ (fun slot hslot _ ht =>
      ht.notify happ i (h.subscriber slot (mem_audience.1 hslot).1)) h
  rw [emit_eq hold]
  refine hturns.of_eq rfl ?_ (List.Subset.refl _)
  rw [slots_retain]
  exact List.Subset.refl _

/-- Whoever takes the answer to the question of the wait decides it by its states, or hands it to
a watcher that does. -/
theorem resume {accepted : List Command} {a : Aftermath}
    (h : Seeks ends op (.response accepted a :: away) s) (answer : Except Failure Bytes) :
    Seeks ends op ((a.resume app answer s).2.waits.map Wait.handler ++ away)
      (a.resume app answer s).1 := by
  have hfollows := h.handler _ (List.mem_append_left _ List.mem_cons_self)
  have hs : Seeks ends op away s := h.mono (List.subset_cons_self ..)
  cases a with
  | settle op' =>
    refine hs.complete fun hop => ?_
    exact absurd (congrArg some hop) (hfollows.ne fun _ _ heq => by cases heq)
  | confirm c op' =>
    simp only [Aftermath.resume]
    split
    · exact hs.add (Handler.follows_of_ne (hfollows.ne fun _ _ heq => by cases heq))
    · exact hs.fail op' _
  | follow ends' allowed op' =>
    have hends : op' = op → ends' = ends := fun hop => by
      obtain ⟨_, _, hsame⟩ := hfollows (congrArg some hop)
      cases hsame
      rfl
    simp only [Aftermath.resume]
    split
    · exact hs.fail op' _
    · split
      · rename_i state _ hmem
        refine hs.complete fun hop v hv => ?_
        cases hv
        exact ⟨state, hends hop ▸ hmem, rfl⟩
      · split
        · exact hs.fail op' _
        · refine hs.subscribe .stateChange fun hop => ?_
          obtain rfl := Option.some.inj hop
          exact ⟨allowed, by rw [hends rfl]⟩
  | application callback => exact happ.answered callback answer s away hs

theorem offer (hold : app.Keeps L fun s _ t => Connects s t) {g : Handler}
    (h : Seeks ends op (g :: away) s) (f : Frame) :
    Seeks ends op ((g.offer app f s).2.waits.map Wait.handler ++ away) (g.offer app f s).1 := by
  induction g with
  | indication kind command event lenient =>
    have hs : Seeks ends op away s := h.mono (List.subset_cons_self ..)
    simp only [Handler.offer]
    split
    · split
      · exact hs.emit happ hold _
      · exact hs
    · exact hs
  | response accepted a =>
    simp only [Handler.offer]
    split
    · exact h.resume happ _
    · exact h.mono (List.subset_cons_self ..)
  | wait pattern op' =>
    have hfollows := h.handler _ (List.mem_append_left _ List.mem_cons_self)
    have hs : Seeks ends op away s := h.mono (List.subset_cons_self ..)
    simp only [Handler.offer]
    split
    · refine hs.complete fun hop => ?_
      exact absurd (congrArg some hop) (hfollows.ne fun _ _ heq => by cases heq)
    · exact hs
  | timed id inner ih =>
    have hfollows := h.handler _ (List.mem_append_left _ List.mem_cons_self)
    have hs : Seeks ends op away s := h.mono (List.subset_cons_self ..)
    have hinner := ih (hs.add (Handler.follows_of_ne (hfollows.ne fun _ _ heq => by cases heq)))
    simp only [Handler.offer]
    split
    · split
      · exact hinner.of_eq rfl (List.Subset.refl _) (List.Subset.refl _)
      · exact hinner
    · exact hs
  | custom callback permanent =>
    exact happ.offer callback f s away (h.mono (List.subset_cons_self ..))

theorem abort {g : Handler} (h : Seeks ends op (g :: away) s) (e : Failure) :
    Seeks ends op away (g.abort app e s) := by
  have hs : Seeks ends op away s := h.mono (List.subset_cons_self ..)
  induction g generalizing s with
  | indication kind command event lenient => exact hs
  | response accepted a =>
    have hresumed := (h.resume happ (.error e)).mono (List.subset_append_right ..)
    exact foldl _ (fun w _ _ ht => ht.fail w.operation _) hresumed
  | wait pattern op' => exact hs.fail op' e
  | timed id inner ih =>
    have hfollows := h.handler _ (List.mem_append_left _ List.mem_cons_self)
    simp only [Handler.abort]
    split
    · have hdisarmed : Seeks ends op away (s.disarm id) :=
        hs.of_eq rfl (List.Subset.refl _) (List.Subset.refl _)
      refine ih (hdisarmed.add (Handler.follows_of_ne ?_)) hdisarmed
      exact hfollows.ne fun _ _ heq => by cases heq
    · exact hs
  | custom callback permanent => exact happ.abort callback e s away hs

/-! ## Deeds -/

/-- A walk is done with some handlers, and their waits come behind the others. -/
theorem walk (hold : app.Keeps L fun s _ t => Connects s t) (chain : List Handler)
    (h : Seeks ends op (chain ++ away) s) (f : Frame) :
    Seeks ends op
      ((s.walk app f chain).1 ++ ((s.walk app f chain).2.1.2.1.map Wait.handler ++ away))
      (s.walk app f chain).2.1.1 := by
  rw [Session.walk_eq]
  refine Chain.dispatch_induct (Session.turn app f)
    (fun left st => Seeks ends op (left ++ (st.2.1.map Wait.handler ++ away)) st.1)
    ?_ chain [] (s, [], []) h
  rintro before g behind ⟨t, waits, tracked⟩ ht
  have hturn : Seeks ends op (g :: (before ++ g :: behind ++ (waits.map Wait.handler ++ away))) t :=
    ht.mono (List.cons_subset.2 ⟨by simp, List.Subset.refl _⟩)
  have hstays := (Chain.turn_sublist before behind g (g.offer app f t).2.verdict).subset
  exact (hturn.offer happ hold f).mono (by grind [Session.turn])

omit happ in
theorem leave {chain : List Handler} {waits : List Wait} (tracked : List Tracked)
    (h : Seeks ends op (chain ++ (waits.map Wait.handler ++ away)) s) :
    Seeks ends op away (s.leave chain waits tracked) := by
  have hback : Seeks ends op away { s.restore chain with depth := s.depth - 1 } :=
    (h.restore.mono (List.subset_append_right ..)).of_eq rfl (List.Subset.refl _)
      (List.Subset.refl _)
  have hwaits : ∀ w ∈ waits, w.handler.Follows ends op := fun w hw => by
    have hmem := List.mem_map_of_mem (f := Wait.handler) hw
    exact h.handler w.handler (by grind)
  have hinstalled := foldl waits (fun w hw _ ht => ht.install (hwaits w hw)) hback
  exact foldl tracked (fun _ _ _ ht => ht.of_eq rfl (List.Subset.refl _) (List.Subset.refl _))
    hinstalled

theorem tearDown (h : Seeks ends op away s) (e : Failure) :
    Seeks ends op away (s.tearDown app e) := by
  have hcleared : Seeks ends op (s.chain ++ away)
      { s with chain := [], tracked := [], outbound := [] } :=
    h.of_eq rfl (List.Subset.refl _) (by grind)
  have hdrained : Seeks ends op
      ((Chain.drain Handler.permanent (Handler.abort app e) s.chain
        { s with chain := [], tracked := [], outbound := [] }).1 ++ away)
      (Chain.drain Handler.permanent (Handler.abort app e) s.chain
        { s with chain := [], tracked := [], outbound := [] }).2 :=
    Chain.drain_induct (fun left t => Seeks ends op (left ++ away) t)
      (fun before g behind t _ ht => Seeks.abort happ (ht.mono (by grind)) e) s.chain [] _ hcleared
  exact restore (foldl s.tracked
    (fun t _ _ ht => (ht.disconnect t.connection).fail t.operation e) hdrained)

theorem shutdown (h : Seeks ends op away s) (e : Failure) :
    Seeks ends op away (s.shutdown app e) := by
  unfold Session.shutdown
  split
  · exact h.tearDown happ e
  · exact h.of_eq rfl (List.Subset.refl _) (List.Subset.refl _)

theorem deliver (hold : app.Keeps L fun s _ t => Connects s t) (h : Seeks ends op away s)
    (f : Frame) : Seeks ends op away (s.deliver app f) := by
  have hentered : Seeks ends op (s.chain ++ away) s.enter :=
    h.of_eq rfl (List.Subset.refl _) (by grind [Session.enter])
  have hleft : Seeks ends op away (s.dispatched app f) :=
    (hentered.walk happ hold s.chain f).leave _
  rw [Session.deliver_eq]
  unfold Session.settleDeferred
  split
  · have hsettled : Seeks ends op away { s.dispatched app f with deferred := none } :=
      hleft.of_eq rfl (List.Subset.refl _) (List.Subset.refl _)
    exact hsettled.shutdown happ _
  · exact hleft

end Callbacks

theorem exchange (h : Seeks ends op away s) (x : Exchange) :
    Seeks ends op away (s.exchange x).2 := by
  unfold Session.exchange
  split
  · exact h
  · have hfresh : (Handler.response x.responses (x.aftermath s.issue.1)).operation? =
        some s.issue.1 := by
      simp only [Handler.operation?, Exchange.aftermath]
      split <;> rfl
    have hadded := h.issue.addHandler (Handler.follows_of_ne (hfresh ▸ h.ne_issue))
    exact hadded.of_eq rfl (List.Subset.refl _) (List.Subset.refl _)

theorem call (h : Seeks ends op away s) (c : Call) : Seeks ends op away (s.call c).2 := by
  cases c with
  | request r =>
    simp only [Session.call, Session.request]
    split
    · exact h
    · exact h.exchange _
  | reset soft =>
    have hsub : (Subscriber.watcher .nextReset s.issue.1).Follows ends op :=
      fun hop => absurd hop h.ne_issue
    exact (h.issue.subscribe .reset hsub).of_eq rfl (List.Subset.refl _) (List.Subset.refl _)
  | reachState ends' allowed =>
    have hasks : (Handler.response [(ConfigurationRequest.infoItem .deviceState).command]
        (.follow ends' allowed s.issue.1)).Follows ends op := Handler.follows_of_ne h.ne_issue
    exact (h.issue.addHandler hasks).of_eq rfl (List.Subset.refl _) (List.Subset.refl _)
  | waitFor p window => exact h.issue.install (Handler.follows_of_ne h.ne_issue)

end Seeks

/-- Each deed pursues the state, as long as the callbacks in it do. -/
theorem pursues_perform {app : Application η} (happ : app.Keeps L (Pursues ends op))
    (hold : app.Keeps L fun s _ t => Connects s t) (d : Deed η) (s : Session η) :
    Pursues ends op s [] (d.perform app s) := by
  intro away h
  cases d with
  | call c => exact h.call c
  | ask x callback =>
    simp only [Deed.perform, ask]
    split
    · exact h
    · exact (h.addHandler (Handler.follows_of_ne (by rintro ⟨⟩))).of_eq rfl (List.Subset.refl _)
        (List.Subset.refl _)
  | deliver f => exact h.deliver happ hold f
  | expire =>
    have hfired : Seeks ends op away { s with timers := (s.timers.expire s.now).2 } :=
      h.of_eq rfl (List.Subset.refl _) (List.Subset.refl _)
    exact Seeks.foldl _ (fun op' _ _ ht => ht.fail op' _) hfired
  | shutdown e => exact h.shutdown happ e
  | next =>
    simp only [Deed.perform, nextOutbound]
    split
    · exact h
    · exact h.of_eq rfl (List.Subset.refl _) (List.Subset.refl _)
  | subscribe event callback => exact h.subscribe event fun hop => by cases hop
  | disconnect connection => exact h.disconnect connection
  | emit i => exact h.emit happ hold i
  | addHandler callback permanent => exact h.addHandler (Handler.follows_of_ne (by rintro ⟨⟩))
  | advance | send | takeAll | think =>
    exact h.of_eq rfl (List.Subset.refl _) (List.Subset.refl _)

end Session

/-! ## Every run -/

theorem Uses.pursues {s t : Session η} {ws : List Wait} (h : Uses L s ws t) :
    s.Pursues ends op ws t := by
  refine h.keeps (R := Session.Pursues ends op) ⟨fun s away hs => hs, ?_, ?_⟩
  · intro s t ws app d hst hlaw hkeeps _ _ away hs
    exact (Session.pursues_perform hkeeps hlaw.connects d t _ (hst away hs)).of_eq rfl
      (List.Subset.refl _)
      (List.Subset.refl _)
  · intro s t ws p window hst _ away hs
    have ht := hst away hs
    refine (ht.issue.add (g := (Wait.mk p window t.issue.1).handler)
      (Handler.follows_of_ne ht.ne_issue)).mono ?_
    simp

/-- Whoever calls for a state of `ends` seeks it. -/
theorem Sound.seeks {s : Session η} (hs : Sound L [] [] s) (ends allowed : List DeviceState) :
    Session.Seeks ends s.issue.1 [] (s.call (.reachState ends allowed)).2 where
  issued := Nat.lt_of_lt_of_eq (Nat.lt_succ_self _) (Array.size_push ..).symm
  handler h hh := by
    have hchain : (s.call (.reachState ends allowed)).2.chain = s.chain ++
        [.response [ConfigurationRequest.getDeviceInfo] (.follow ends allowed s.issue.1)] := rfl
    rw [List.nil_append, hchain] at hh
    rcases List.mem_append.1 hh with hh | hh
    · exact Handler.follows_of_ne fun hop => Nat.lt_irrefl _ (hs.loyal h hh _ hop).1
    · rw [List.mem_singleton.1 hh]
      exact fun _ => ⟨_, allowed, rfl⟩
  subscriber slot hslot hop := by
    have hpending := Accounts.pending_of_slot hs hslot hop
    exact absurd (Session.pending_lt hpending) (Nat.lt_irrefl _)
  outcome o ho := by
    have hnone : (s.issue.2).outcome? s.issue.1 = none := by
      simp [Session.outcome?, Ledger.outcome?, Session.issue]
    exact absurd (ho.symm.trans hnone) (Option.some_ne_none o)

end ZigbeeHost
