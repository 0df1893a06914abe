import ZigbeeHost.Proofs.Session.Listeners
/-!
# What a run adds

A run adds handlers and tracked operations to a session. None of the handlers emits, and none
asks for the state of the device but on behalf of an operation that the run issued. A tracked
operation is a new one too, or a handler of the chain asked on its behalf (`Session.Gains`).

While a frame is dispatched the chain is out, and so it is in a teardown, with the tracked
operations. What is added meanwhile therefore has nothing to do with an operation that was
issued before : it is `Sheltered`, and stays so along every run. From the moment that the chain
is out, the operations of its handlers are `Recent`.
-/

namespace ZigbeeHost

variable {η : Type} {L : Licence η}

/-- The handler emits nothing, whatever it is offered. -/
def Handler.mute : Handler → Bool
  | indication .. => false
  | _ => true

theorem Handler.emission?_of_mute {h : Handler} (hm : h.mute = true) (f : Frame) :
    h.emission? f = none := by
  cases h with
  | indication => cases hm
  | _ => rfl

/-- The operation on whose behalf the handler asks for the state of the device. -/
def Handler.inquiry? : Handler → Option OperationId
  | response _ (.follow _ _ op) => some op
  | timed _ inner => inner.inquiry?
  | _ => none

namespace Session

/-- What `t` has beyond `s` is new. -/
structure Gains (s t : Session η) : Prop where
  size : s.operations.size ≤ t.operations.size
  handler : ∀ h ∈ t.chain, h ∈ s.chain ∨
    h.mute = true ∧ ∀ op, h.inquiry? = some op → s.operations.size ≤ op
  tracked : ∀ x ∈ t.tracked, x ∈ s.tracked ∨ s.operations.size ≤ x.operation ∨
    ∃ h ∈ s.chain, h.inquiry? = some x.operation

namespace Gains

variable {s t u : Session η}

theorem of_eq (hchain : t.chain = s.chain) (htracked : t.tracked = s.tracked)
    (hsize : t.operations.size = s.operations.size) : Gains s t :=
  ⟨Nat.le_of_eq hsize.symm, fun _ hh => Or.inl (hchain ▸ hh), fun _ hx => Or.inl (htracked ▸ hx)⟩

theorem trans (h : Gains s t) (h' : Gains t u) : Gains s u where
  size := Nat.le_trans h.size h'.size
  handler g hg := by
    rcases h'.handler g hg with hg | ⟨hmute, hop⟩
    · exact h.handler g hg
    · exact Or.inr ⟨hmute, fun op ho => Nat.le_trans h.size (hop op ho)⟩
  tracked x hx := by
    rcases h'.tracked x hx with hx | hlt | ⟨g, hg, ho⟩
    · exact h.tracked x hx
    · exact Or.inr (Or.inl (Nat.le_trans h.size hlt))
    · rcases h.handler g hg with hg | ⟨-, hop⟩
      · exact Or.inr (Or.inr ⟨g, hg, ho⟩)
      · exact Or.inr (Or.inl (hop _ ho))

theorem issue (s : Session η) : Gains s s.issue.2 :=
  ⟨by simp [Session.issue], fun _ => Or.inl, fun _ => Or.inl⟩

theorem addHandler {g : Handler} (hmute : g.mute = true) (s : Session η)
    (hop : ∀ op, g.inquiry? = some op → s.operations.size ≤ op) : Gains s (s.addHandler g) where
  size := Nat.le_refl _
  handler h hh := by
    rcases List.mem_append.1 hh with hh | hh
    · exact Or.inl hh
    · obtain rfl := List.mem_singleton.1 hh
      exact Or.inr ⟨hmute, hop⟩
  tracked _ := Or.inl

end Gains

theorem stable_gains : Stable (Gains (η := η)) where
  refl _ := .of_eq rfl rfl rfl
  trans := .trans
  complete _ _ _ := .of_eq (complete_chain ..) (complete_tracked ..) (size_operations_complete ..)
  subscribe _ _ _ := .of_eq rfl rfl rfl
  disconnect _ _ := .of_eq rfl rfl rfl
  retain _ _ := .of_eq rfl rfl rfl
  disarm _ _ := .of_eq rfl rfl rfl
  running _ _ := .of_eq rfl rfl rfl

theorem gains_install (s : Session η) (w : Wait) : Gains s (s.install w) := by
  unfold install
  split
  · exact .addHandler (g := .wait ..) rfl s nofun
  · rename_i window _
    let armed := { s with timers := (s.timers.arm (s.now + window) w.operation).2 }
    have harmed : Gains s armed := .of_eq rfl rfl rfl
    exact harmed.trans (.addHandler (g := .timed s.timers.fresh (.wait ..)) rfl armed nofun)

theorem gains_call (c : Call) (s : Session η) : Gains s (s.call c).2 := by
  have hsent {t : Session η} (f : Frame) (h : Gains s t) : Gains s (t.send f) :=
    h.trans (.of_eq rfl rfl rfl)
  cases c with
  | request r =>
    simp only [call, request]
    split
    · exact .of_eq rfl rfl rfl
    · rename_i x _
      unfold exchange
      split
      · exact .of_eq rfl rfl rfl
      · refine hsent _ ((Gains.issue s).trans (.addHandler rfl _ fun op ho => ?_))
        cases hconfirmation : x.confirmation <;> simp [Handler.inquiry?, Exchange.aftermath,
          hconfirmation] at ho
  | reset soft =>
    -- The operation of a reset is new, and tracked at once.
    refine hsent (t := (s.issue.2.subscribe .reset (.watcher .nextReset s.issue.1)).2.track
      ⟨s.freshConnection, s.issue.1⟩) _ ⟨by simp [issue, subscribe, Session.track],
        fun _ => Or.inl, fun x hx => ?_⟩
    rcases List.mem_append.1 hx with hx | hx
    · exact Or.inl (List.mem_filter.1 hx).1
    · obtain rfl := List.mem_singleton.1 hx
      exact Or.inr (Or.inl (Nat.le_refl _))
  | reachState ends allowed =>
    refine hsent _ ⟨by simp [Session.addHandler], fun h hh => ?_, fun _ => Or.inl⟩
    rcases List.mem_append.1 hh with hh | hh
    · exact Or.inl hh
    · obtain rfl := List.mem_singleton.1 hh
      refine Or.inr ⟨rfl, fun op ho => ?_⟩
      cases ho
      exact Nat.le_refl _
  | waitFor p window => exact (Gains.issue s).trans (gains_install _ _)

section Callbacks

variable {app : Application η} (happ : app.Keeps L fun s _ t => Gains s t)
include happ

theorem gains_shutdown (e : Failure) (s : Session η) : Gains s (s.shutdown app e) := by
  unfold shutdown
  split
  · let cleared := { s with chain := [], tracked := [], outbound := [] }
    have hgains : Gains cleared
        (s.tracked.foldl (abortTracked e)
          (Chain.drain Handler.permanent (Handler.abort app e) s.chain cleared).2) :=
      (stable_gains.drain happ e s.chain cleared).trans
        (stable_gains.abortTracked e s.tracked _)
    have hkept := Chain.drain_fst Handler.permanent (Handler.abort app e) s.chain cleared
    refine ⟨hgains.size, fun h hh => ?_, fun x hx => ?_⟩
    · rcases List.mem_append.1 hh with hh | hh
      · rw [hkept] at hh
        exact Or.inl (List.mem_filter.1 hh).1
      · exact Or.inr ((hgains.handler h hh).resolve_left List.not_mem_nil)
    · rcases hgains.tracked x hx with hx | hlt | ⟨h, hh, -⟩
      · cases hx
      · exact Or.inr (Or.inl hlt)
      · cases hh
  · exact .of_eq rfl rfl rfl

omit happ in
/-- Whatever a handler asks to be tracked is an operation that it asked on behalf of. -/
theorem inquiry?_of_tracked (htracked : ∀ cb f s, (app.offer cb f s).2.tracked = [])
    (hanswered : ∀ cb a s, (app.answered cb a s).2.tracked = []) (f : Frame) (h : Handler)
    (s : Session η) : ∀ x ∈ (h.offer app f s).2.tracked, h.inquiry? = some x.operation := by
  induction h with
  | indication kind command event lenient =>
    simp only [Handler.offer]
    split
    · split <;> exact fun _ hx => by cases hx
    · exact fun _ hx => by cases hx
  | response accepted a =>
    simp only [Handler.offer]
    split
    · rename_i answer _
      rcases a.resume_cases app answer s with ⟨callback, rfl⟩ |
        ⟨op, -, ⟨outcome, -, heq⟩ | ⟨c, -, heq⟩ | ⟨ends, allowed, rfl, heq⟩⟩
      · simp only [Aftermath.resume, hanswered]
        exact fun _ hx => by cases hx
      · rw [heq]
        exact fun _ hx => by cases hx
      · rw [heq]
        exact fun _ hx => by cases hx
      · rw [heq]
        intro x hx
        rw [List.mem_singleton.1 hx]
        rfl
    · exact fun _ hx => by cases hx
  | wait p op =>
    simp only [Handler.offer]
    split <;> exact fun _ hx => by cases hx
  | timed timer inner ih =>
    simp only [Handler.offer]
    split
    · split <;> exact ih
    · exact fun _ hx => by cases hx
  | custom callback permanent =>
    simp only [Handler.offer, htracked]
    exact fun _ hx => by cases hx

omit happ in
theorem inquiry?_of_tracked_walk (htracked : ∀ cb f s, (app.offer cb f s).2.tracked = [])
    (hanswered : ∀ cb a s, (app.answered cb a s).2.tracked = []) (f : Frame)
    (chain : List Handler) (s : Session η) :
    ∀ x ∈ (s.walk app f chain).2.1.2.2, ∃ h ∈ chain, h.inquiry? = some x.operation := by
  let Asked (x : Tracked) : Prop := ∃ h ∈ chain, h.inquiry? = some x.operation
  rw [walk_eq]
  refine (Chain.dispatch_induct (turn app f)
    (fun left st => left ⊆ chain ∧ ∀ x ∈ st.2.2, Asked x) ?_ chain [] (s, [], [])
    ⟨List.Subset.refl _, nofun⟩).2
  rintro before h behind ⟨t, waits, tracked⟩ ⟨hleft, hasked⟩
  have hh : h ∈ chain := hleft (List.mem_append_right _ List.mem_cons_self)
  have hturn := Chain.turn_sublist before behind h (turn app f h (t, waits, tracked)).2
  refine ⟨List.Subset.trans hturn.subset hleft, fun x hx => ?_⟩
  rcases List.mem_append.1 hx with hx | hx
  · exact hasked x hx
  · exact ⟨h, hh, inquiry?_of_tracked htracked hanswered f h t x hx⟩

theorem gains_dispatched (f : Frame) (s : Session η) : Gains s (s.dispatched app f) := by
  have hwalk := stable_gains.walk happ f s.chain s.enter
  have hleft := Chain.dispatch_sublist (turn app f) s.chain (s.enter, [], [])
  have hasked := inquiry?_of_tracked_walk happ.offer_tracked happ.answered_tracked f s.chain s.enter
  rw [← walk_eq] at hleft
  rw [dispatched]
  generalize s.enter.walk app f s.chain = walked at hwalk hleft hasked
  obtain ⟨left, ⟨t, waits, tracked⟩, stopped⟩ := walked
  have hback : Gains s { t.restore left with depth := t.depth - 1 } := by
    refine ⟨hwalk.size, fun h hh => ?_, fun x hx => ?_⟩
    · rcases List.mem_append.1 hh with hh | hh
      · exact Or.inl (hleft.subset hh)
      · exact Or.inr ((hwalk.handler h hh).resolve_left List.not_mem_nil)
    · rcases hwalk.tracked x hx with hx | hlt | ⟨h, hh, -⟩
      · exact Or.inl hx
      · exact Or.inr (Or.inl hlt)
      · cases hh
  have hinstalled := hback.trans (stable_gains.foldl gains_install waits _)
  refine List.foldlRecOn tracked _ (motive := fun u : Session η => Gains s u) hinstalled ?_
  intro u hu x hx
  refine ⟨hu.size, hu.handler, fun y hy => ?_⟩
  rcases List.mem_append.1 hy with hy | hy
  · exact hu.tracked y (List.mem_filter.1 hy).1
  · obtain rfl := List.mem_singleton.1 hy
    exact Or.inr (Or.inr (hasked y hx))

theorem gains_perform (d : Deed η) (s : Session η) : Gains s (d.perform app s) := by
  cases d with
  | call c => exact gains_call c s
  | ask x callback =>
    simp only [Deed.perform, ask]
    split
    · exact .of_eq rfl rfl rfl
    · have hadded := Gains.addHandler (g := .response x.responses (.application callback)) rfl s
        fun _ hop => by cases hop
      exact hadded.trans (.of_eq rfl rfl rfl)
  | deliver f =>
    rw [Deed.perform, deliver_eq]
    refine (gains_dispatched happ f s).trans ?_
    unfold settleDeferred
    split
    · have hcleared : Gains (s.dispatched app f) { s.dispatched app f with deferred := none } :=
        .of_eq rfl rfl rfl
      exact hcleared.trans (gains_shutdown happ _ _)
    · exact .of_eq rfl rfl rfl
  | expire =>
    have hsize := size_operations_expireTimers s
    refine .of_eq ?_ ?_ hsize <;> rw [Deed.perform, expireTimers_eq]
  | shutdown e => exact gains_shutdown happ e s
  | next =>
    simp only [Deed.perform, nextOutbound]
    split <;> exact .of_eq rfl rfl rfl
  | emit i => exact stable_gains.emit happ i s
  | addHandler callback permanent =>
    exact .addHandler (g := .custom ..) rfl s fun _ hop => by cases hop
  | advance | send | takeAll | subscribe | disconnect | think => exact .of_eq rfl rfl rfl

end Callbacks

theorem gains_kept (L : Licence η) : L.Kept fun s _ t => Gains s t where
  refl _ := .of_eq rfl rfl rfl
  deed hst _ happ _ _ := (hst.trans (gains_perform happ _ _)).trans (.of_eq rfl rfl rfl)
  wait _ _ hst _ := hst.trans (.issue _)

end Session

/-- What a run adds is new. -/
theorem Uses.gains {s t : Session η} {ws : List Wait} (h : Uses L s ws t) : s.Gains t :=
  h.keeps (Session.gains_kept L)

theorem Lawful.gains {app : Application η} (happ : Lawful L app) :
    app.Keeps L fun s _ t => Session.Gains s t :=
  happ.keeps (Session.gains_kept L)

/-! ## The operations of newcomers -/

namespace Session

/-- The operations of the handlers in the chain are from `n` on, and so are all that are issued
from now on. -/
structure Recent (n : Nat) (s : Session η) : Prop where
  size : n ≤ s.operations.size
  operation : ∀ h ∈ s.chain, ∀ op, h.operation? = some op → n ≤ op

/-- What is recent in `s` is recent in `t`, and the waits `ws` are. -/
def Renews (s : Session η) (ws : List Wait) (t : Session η) : Prop :=
  ∀ n, Recent n s → Recent n t ∧ ∀ w ∈ ws, n ≤ w.operation

namespace Recent

variable {n : Nat} {s t : Session η}

theorem of_eq (h : Recent n s) (hchain : t.chain ⊆ s.chain)
    (hsize : t.operations.size = s.operations.size) : Recent n t :=
  ⟨hsize ▸ h.size, fun g hg => h.operation g (hchain hg)⟩

theorem issue (h : Recent n s) : Recent n s.issue.2 :=
  ⟨Nat.le_trans h.size (by simp [Session.issue]), h.operation⟩

theorem addHandler (h : Recent n s) {g : Handler} (hg : ∀ op, g.operation? = some op → n ≤ op) :
    Recent n (s.addHandler g) where
  size := h.size
  operation x hx :=
    (List.mem_append.1 hx).elim (h.operation x) fun hx => List.mem_singleton.1 hx ▸ hg

theorem install (h : Recent n s) {w : Wait} (hw : n ≤ w.operation) : Recent n (s.install w) := by
  unfold Session.install
  split
  · refine h.addHandler ?_
    rintro _ ⟨⟩
    exact hw
  · rename_i window _
    let armed := { s with timers := (s.timers.arm (s.now + window) w.operation).2 }
    have harmed : Recent n armed := h.of_eq (List.Subset.refl _) rfl
    refine harmed.addHandler (g := .timed s.timers.fresh (.wait w.pattern w.operation)) ?_
    rintro _ ⟨⟩
    exact hw

theorem call (h : Recent n s) (c : Call) : Recent n (s.call c).2 := by
  cases c with
  | request r =>
    simp only [Session.call, Session.request]
    split
    · exact h
    · rename_i x _
      unfold Session.exchange
      split
      · exact h
      · refine Recent.of_eq (h.issue.addHandler fun op hop => ?_) (List.Subset.refl _) rfl
        obtain rfl : s.issue.1 = op := by
          simp only [Handler.operation?, Exchange.aftermath] at hop
          split at hop <;> exact Option.some.inj hop
        exact h.size
  | reset soft => exact h.issue.of_eq (List.Subset.refl _) rfl
  | reachState ends allowed =>
    refine Recent.of_eq (h.issue.addHandler fun op hop => ?_) (List.Subset.refl _) rfl
    exact Option.some.inj hop ▸ h.size
  | waitFor p window => exact h.issue.install h.size

end Recent

theorem stable_recent : Stable fun s t : Session η => ∀ n, Recent n s → Recent n t where
  refl _ _ h := h
  trans h h' n hs := h' n (h n hs)
  complete s op outcome _ h :=
    h.of_eq (by simp) (size_operations_complete ..)
  subscribe _ _ _ _ h := h.of_eq (List.Subset.refl _) rfl
  disconnect _ _ _ h := h.of_eq (List.Subset.refl _) rfl
  retain _ _ _ h := h.of_eq (List.Subset.refl _) rfl
  disarm _ _ _ h := h.of_eq (List.Subset.refl _) rfl
  running _ _ _ h := h.of_eq (List.Subset.refl _) rfl

section Callbacks

variable {app : Application η} (happ : app.Keeps L Renews) {n : Nat} {s : Session η}
include happ

theorem renewing : app.Keeps L fun s _ t => ∀ n, Recent n s → Recent n t :=
  happ.mono fun _ _ _ h n hs => (h n hs).1

namespace Recent

/-- A handler asks for waits of its own operation, or of new ones. -/
theorem waits_offer (h : Recent n s) {g : Handler} (hg : ∀ op, g.operation? = some op → n ≤ op)
    (f : Frame) : ∀ w ∈ (g.offer app f s).2.waits, n ≤ w.operation := by
  induction g with
  | indication kind command event lenient =>
    simp only [Handler.offer]
    split
    · split <;> exact List.forall_mem_nil _
    · exact List.forall_mem_nil _
  | response accepted a =>
    simp only [Handler.offer]
    split
    · rename_i answer _
      rcases a.resume_cases app answer s with ⟨callback, rfl⟩ |
        ⟨op, hop, ⟨outcome, -, heq⟩ | ⟨c, -, heq⟩ | ⟨ends, allowed, -, heq⟩⟩
      · exact (happ.answered callback answer s n h).2
      · rw [heq]
        exact List.forall_mem_nil _
      · rw [heq]
        intro w hw
        rw [List.mem_singleton.1 hw]
        exact hg op hop
      · rw [heq]
        exact List.forall_mem_nil _
    · exact List.forall_mem_nil _
  | wait p op =>
    simp only [Handler.offer]
    split <;> exact List.forall_mem_nil _
  | timed timer inner ih =>
    simp only [Handler.offer]
    split
    · split <;> exact ih hg
    · exact List.forall_mem_nil _
  | custom callback permanent => exact (happ.offer callback f s n h).2

theorem waits_walk (h : Recent n s) {chain : List Handler}
    (hchain : ∀ g ∈ chain, ∀ op, g.operation? = some op → n ≤ op) (f : Frame) :
    ∀ w ∈ (s.walk app f chain).2.1.2.1, n ≤ w.operation := by
  rw [walk_eq]
  refine (Chain.dispatch_induct (turn app f)
    (fun left st => left ⊆ chain ∧ Recent n st.1 ∧ ∀ w ∈ st.2.1, n ≤ w.operation) ?_ chain []
    (s, [], []) ⟨List.Subset.refl _, h, nofun⟩).2.2
  rintro before g behind ⟨t, waits, tracked⟩ ⟨hleft, ht, hwaits⟩
  have hg := hchain g (hleft (List.mem_append_right _ List.mem_cons_self))
  have hturn := Chain.turn_sublist before behind g (turn app f g (t, waits, tracked)).2
  refine ⟨List.Subset.trans hturn.subset hleft, ?_, fun w hw => ?_⟩
  · exact stable_recent.steady.offer (fun _ _ => trivial) (renewing happ) f g t n ht
  · exact (List.mem_append.1 hw).elim (hwaits w) (ht.waits_offer happ hg f w)

theorem dispatched (h : Recent n s) (f : Frame) : Recent n (s.dispatched app f) := by
  have hentered : Recent n s.enter := h.of_eq (List.nil_subset _) rfl
  have hwalked := stable_recent.walk (renewing happ) f s.chain s.enter n hentered
  have hwaits := hentered.waits_walk happ h.operation f
  have hleft := Chain.dispatch_sublist (turn app f) s.chain (s.enter, [], [])
  rw [← walk_eq] at hleft
  rw [Session.dispatched]
  generalize s.enter.walk app f s.chain = walked at hwalked hwaits hleft
  obtain ⟨left, ⟨t, waits, tracked⟩, stopped⟩ := walked
  have hback : Recent n { t.restore left with depth := t.depth - 1 } :=
    ⟨hwalked.size, fun g hg => (List.mem_append.1 hg).elim
      (fun hg => h.operation g (hleft.subset hg)) (hwalked.operation g)⟩
  have hinstalled := List.foldlRecOn waits (fun s w => s.install w)
    (motive := fun u => Recent n u) hback fun u hu w hw => hu.install (hwaits w hw)
  exact List.foldlRecOn tracked (fun s x => s.track x) (motive := fun u => Recent n u) hinstalled
    fun u hu x _ => hu.of_eq (List.Subset.refl _) rfl

theorem shutdown (h : Recent n s) (e : Failure) : Recent n (s.shutdown app e) := by
  unfold Session.shutdown
  split
  · have hcleared : Recent n { s with chain := [], tracked := [], outbound := [] } :=
      h.of_eq (List.nil_subset _) rfl
    have hdrained := stable_recent.trans (stable_recent.drain (renewing happ) e s.chain _)
      (stable_recent.abortTracked e s.tracked _) n hcleared
    have hkept := Chain.drain_fst Handler.permanent (Handler.abort app e) s.chain
      { s with chain := [], tracked := [], outbound := [] }
    refine ⟨hdrained.size, fun g hg => (List.mem_append.1 hg).elim (fun hg => ?_)
      (hdrained.operation g)⟩
    rw [hkept] at hg
    exact h.operation g (List.mem_filter.1 hg).1
  · exact h.of_eq (List.Subset.refl _) rfl

theorem perform (h : Recent n s) (d : Deed η) : Recent n (d.perform app s) := by
  cases d with
  | call c => exact h.call c
  | ask x callback =>
    simp only [Deed.perform, ask]
    split
    · exact h
    · have hadded := h.addHandler (g := .response x.responses (.application callback))
        fun _ hop => by cases hop
      exact hadded.of_eq (List.Subset.refl _) rfl
  | deliver f =>
    rw [Deed.perform, deliver_eq]
    have hdispatched := h.dispatched happ f
    unfold settleDeferred
    split
    · have hcleared : Recent n { s.dispatched app f with deferred := none } :=
        hdispatched.of_eq (List.Subset.refl _) rfl
      exact hcleared.shutdown happ _
    · exact hdispatched
  | expire =>
    refine h.of_eq ?_ (size_operations_expireTimers s)
    rw [Deed.perform, expireTimers_eq]
    exact List.Subset.refl _
  | shutdown e => exact h.shutdown happ e
  | next =>
    simp only [Deed.perform, nextOutbound]
    split
    · exact h
    · exact h.of_eq (List.Subset.refl _) rfl
  | emit i => exact stable_recent.emit (renewing happ) i s n h
  | addHandler callback permanent => exact h.addHandler (g := .custom ..) fun _ hop => by cases hop
  | advance | send | takeAll | subscribe | disconnect | think =>
    exact h.of_eq (List.Subset.refl _) rfl

end Recent

end Callbacks

end Session

/-- The operations of what a run adds are those that it issued, or took over from the chain. -/
theorem Uses.renews {s t : Session η} {ws : List Wait} (h : Uses L s ws t) : s.Renews ws t := by
  refine h.keeps (R := Session.Renews) ⟨fun s n hs => ⟨hs, nofun⟩, ?_, ?_⟩
  · intro s t ws app d hst _ happ _ _ n hs
    obtain ⟨ht, hws⟩ := hst n hs
    exact ⟨(ht.perform happ d).of_eq (List.Subset.refl _) rfl, hws⟩
  · intro s t ws p window hst _ n hs
    obtain ⟨ht, hws⟩ := hst n hs
    refine ⟨ht.issue, fun w hw => (List.mem_append.1 hw).elim (hws w) fun hw => ?_⟩
    rw [List.mem_singleton.1 hw]
    exact ht.size

/-! ## Sheltered operations -/

/-- The operation was issued, and what the session has in reach is not concerned with it : no
handler of the chain emits or asks on its behalf, and a teardown would not find it tracked. -/
structure Sheltered (op : OperationId) (s : Session η) : Prop where
  issued : op < s.operations.size
  mute : ∀ h ∈ s.chain, h.mute = true
  inquiry : ∀ h ∈ s.chain, h.inquiry? ≠ some op
  tracked : s.depth ≠ 0 ∨ ∀ x ∈ s.tracked, x.operation ≠ op

namespace Sheltered

variable {op : OperationId} {s t : Session η}

theorem mono (h : Sheltered op s) (hgains : s.Gains t) (hdepth : t.depth = s.depth) :
    Sheltered op t where
  issued := Nat.lt_of_lt_of_le h.issued hgains.size
  mute g hg := (hgains.handler g hg).elim (h.mute g) And.left
  inquiry g hg ho := by
    rcases hgains.handler g hg with hg | ⟨-, hnew⟩
    · exact h.inquiry g hg ho
    · exact Nat.not_le_of_lt h.issued (hnew op ho)
  tracked := by
    refine h.tracked.imp (fun hd => hdepth ▸ hd) fun hnone x hx => ?_
    rcases hgains.tracked x hx with hx | hlt | ⟨g, hg, ho⟩
    · exact hnone x hx
    · exact Nat.ne_of_gt (Nat.lt_of_lt_of_le h.issued hlt)
    · rintro rfl
      exact h.inquiry g hg ho

/-- In a dispatch. -/
theorem enter (hop : op < s.operations.size) : Sheltered op s.enter :=
  ⟨hop, nofun, nofun, Or.inl (Nat.succ_ne_zero _)⟩

/-- In a teardown. -/
theorem cleared (hop : op < s.operations.size) :
    Sheltered op { s with chain := [], tracked := [], outbound := [] } :=
  ⟨hop, nofun, nofun, Or.inr nofun⟩

end Sheltered

end ZigbeeHost
