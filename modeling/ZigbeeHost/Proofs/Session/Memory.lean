import ZigbeeHost.Proofs.Session.StateWait
/-!
# Remembered runs

An application may remember the signs that its session met with, in all its deeds, at any depth
of callbacks. `Remembering app` says that its callbacks do so, and `Remembered s ws t` that a
run leads from `s` to `t` and leaves its signs in the memory, those of each deed behind the ones
that its callbacks met with. Such an application may otherwise do whatever it likes, but for
emitting changes of state by hand (`Licence.unforced`), so all that holds of the runs of lawful
applications holds of these too (`Remembered.uses`).

What callbacks meet with in the midst of a dispatch or of a teardown does not concern an
operation that was issued before : it is sheltered there, and none of the signs that they leave
in the memory is about it (`Session.Recalls`).
-/

namespace ZigbeeHost

variable {θ : Type}

/-- Nobody emits a change of state by hand. -/
def Licence.unforced (η : Type) : Licence η where
  deed
    | .emit i => i.event ≠ .stateChange
    | _ => True

/-- The deed leaves the memory to itself. -/
def Deed.Heedful : Deed (θ × List Sign) → Prop
  | think change => ∀ host, (change host).2 = host.2
  | _ => True

namespace Session

/-- The signs that the application met with. -/
def memory (s : Session (θ × List Sign)) : List Sign := s.host.2

/-- Keeps signs in mind, behind those that are kept already. -/
def remember (signs : List Sign) (s : Session (θ × List Sign)) : Session (θ × List Sign) :=
  { s with host := (s.host.1, s.host.2 ++ signs) }

end Session

mutual

/-- The callbacks of the application remember what they meet with. -/
inductive Remembering : Application (θ × List Sign) → Prop
  | intro {app : Application (θ × List Sign)}
      (hear : ∀ cb c i s, Remembered s [] (app.hear cb c i s))
      (offer : ∀ cb f s, Remembered s (app.offer cb f s).2.waits (app.offer cb f s).1)
      (offer_tracked : ∀ cb f s, (app.offer cb f s).2.tracked = [])
      (answered : ∀ cb a s, Remembered s (app.answered cb a s).2.waits (app.answered cb a s).1)
      (answered_tracked : ∀ cb a s, (app.answered cb a s).2.tracked = [])
      (abort : ∀ cb e s, Remembered s [] (app.abort cb e s)) :
      Remembering app

/-- A run leads from `s` to `t`, and the memory is what the deeds in it met with. -/
inductive Remembered :
    Session (θ × List Sign) → List Wait → Session (θ × List Sign) → Prop
  | refl (s : Session (θ × List Sign)) : Remembered s [] s
  | deed {s t : Session (θ × List Sign)} {ws : List Wait} {app : Application (θ × List Sign)}
      {d : Deed (θ × List Sign)} :
      Remembered s ws t → Remembering app → (Licence.unforced _).Permits d → d.Heedful →
      d.Own t → Remembered s ws ((d.perform app t).remember (t.signs app d))
  | wait {s t : Session (θ × List Sign)} {ws : List Wait} (p : Pattern) (window : Option Nat) :
      Remembered s ws t → Remembered s (ws ++ [⟨p, window, t.issue.1⟩]) t.issue.2

end

theorem Remembering.silent : Remembering (.silent : Application (θ × List Sign)) :=
  .intro (fun _ _ _ s => .refl s) (fun _ _ s => .refl s) (fun _ _ _ => rfl)
    (fun _ _ s => .refl s) (fun _ _ _ => rfl) (fun _ _ s => .refl s)

/-! ## The induction over remembered runs -/

section Induction

variable {R : Session (θ × List Sign) → List Wait → Session (θ × List Sign) → Prop}

/-- A relation holds of every remembered run if each deed keeps it, as long as the callbacks in
the deed keep it. -/
theorem Remembered.keeps (refl : ∀ s, R s [] s)
    (deed : ∀ {s t ws app d}, Remembered s ws t → R s ws t → Remembering app →
      app.Keeps (Licence.unforced _) R → (Licence.unforced _).Permits d → d.Heedful → d.Own t →
      R s ws ((d.perform app t).remember (t.signs app d)))
    (wait : ∀ {s t ws} (p : Pattern) (window : Option Nat), Remembered s ws t → R s ws t →
      R s (ws ++ [⟨p, window, t.issue.1⟩]) t.issue.2)
    {s t : Session (θ × List Sign)} {ws : List Wait} (h : Remembered s ws t) : R s ws t := by
  refine @Remembered.rec θ (fun app _ => app.Keeps (Licence.unforced _) R)
    (fun s ws t _ => R s ws t) ?_ refl ?_ ?_ _ _ _ h
  · intro app _ _ offer_tracked _ answered_tracked _ hear offer answered abort
    exact {
      hear, offer, offer_tracked, answered, answered_tracked, abort
      offer_verdict := fun _ _ _ => trivial }
  · intro s t ws app d hrun happ hd hheed hown hst hkeeps
    exact deed hrun hst happ hkeeps hd hheed hown
  · intro s t ws p window hrun hst
    exact wait p window hrun hst

theorem Remembering.keeps
    (h : ∀ {s t : Session (θ × List Sign)} {ws : List Wait}, Remembered s ws t → R s ws t)
    {app : Application (θ × List Sign)} (happ : Remembering app) :
    app.Keeps (Licence.unforced _) R := by
  obtain ⟨hear, offer, offer_tracked, answered, answered_tracked, abort⟩ := happ
  exact {
    hear := fun cb c i s => h (hear cb c i s)
    offer := fun cb f s => h (offer cb f s)
    offer_tracked := offer_tracked
    offer_verdict := fun _ _ _ => trivial
    answered := fun cb a s => h (answered cb a s)
    answered_tracked := answered_tracked
    abort := fun cb e s => h (abort cb e s) }

end Induction

/-- A remembered run is a run. -/
theorem Remembered.uses {s t : Session (θ × List Sign)} {ws : List Wait}
    (h : Remembered s ws t) : Uses (.unforced _) s ws t := by
  refine h.keeps .refl (fun {s t ws app d} _ hst _ hkeeps hd _ hown => ?_)
    fun p window _ hst => .wait p window hst trivial
  have hlaw := Lawful.iff_keeps.2 hkeeps
  -- To remember the signs is a deed of its own.
  exact (hst.deed hlaw hd hown).deed hlaw
    (d := .think fun host => (host.1, host.2 ++ t.signs app d)) ⟨trivial, trivial⟩ trivial

theorem Remembering.lawful {app : Application (θ × List Sign)} (h : Remembering app) :
    Lawful (.unforced _) app :=
  Lawful.iff_keeps.2 (h.keeps Remembered.uses)

/-! ## Whom signs concern -/

/-- The sign may reach a wait with the operation. -/
def Sign.Concerns (op : OperationId) : Sign → Prop
  | called w => w.operation = op
  | offered _ handlers => ∃ h ∈ handlers, h.inquiry? = some op
  | changed _ slots => ∃ slot ∈ slots, slot.subscriber.operation? = some op
  | torn _ chain tracked =>
    (∃ h ∈ chain, h.inquiry? = some op) ∨ ∃ x ∈ tracked, x.operation = op

namespace StateWait

variable {w : StateWait}

theorem IsReached.concerns : {sign : Sign} → w.IsReached sign → sign.Concerns w.operation
  | .called _, h => congrArg operation h
  | .offered .., h => ⟨w.handler, h, rfl⟩
  | .changed .., h =>
    let ⟨slot, hslot, hsub⟩ := List.mem_map.1 h
    ⟨slot, hslot, hsub ▸ w.operation?_subscriber⟩
  | .torn .., h => h.imp (fun hh => ⟨w.handler, hh, rfl⟩) fun hx => List.mem_map.1 hx

/-- Signs that do not concern a wait leave it at its stage. -/
theorem foldl_of_unconcerned {signs : List Sign}
    (h : ∀ sign ∈ signs, ¬sign.Concerns w.operation) (stage : Stage) :
    signs.foldl w.step stage = stage := by
  refine List.foldlRecOn signs w.step (motive := fun stage' => stage' = stage) rfl ?_
  rintro _ rfl sign hsign
  exact step_of_not_isReached (fun hreached => h sign hsign hreached.concerns) _

end StateWait

/-- No handler asks on behalf of an operation that is not issued yet, and so the signs of a
dispatch or a teardown do not concern it. -/
theorem Sound.unconcerned {η : Type} {L : Licence η} {away : List Handler}
    {owed : List Tracked} {s : Session η} (hs : Sound L away owed s) {op : OperationId}
    (hop : s.operations.size ≤ op) :
    (∀ app f, ∀ sign ∈ s.heralds app f, ¬sign.Concerns op) ∧ ∀ e, ¬(s.collapse e).Concerns op := by
  have hinquiry : ∀ h ∈ s.chain, h.inquiry? ≠ some op := by
    intro h hh ho
    have hcarried : h.operation? = some op := by
      have hformed := hs.formed h (List.mem_append_right _ hh)
      cases h with
      | response accepted a =>
        cases a with
        | follow => exact ho
        | _ => cases ho
      | timed id inner =>
        cases inner with
        | wait p op' => cases ho
        | _ => exact hformed.elim
      | _ => cases ho
    exact Nat.not_lt_of_le hop (hs.loyal h (List.mem_append_right _ hh) op hcarried).1
  refine ⟨fun app f sign hsign hconcerns => ?_, fun e hconcerns => ?_⟩
  · rcases List.mem_cons.1 hsign with rfl | hsign
    · obtain ⟨h, hh, ho⟩ := hconcerns
      exact hinquiry h ((Chain.prefix_offered ..).subset hh) ho
    · obtain ⟨state, -, rfl⟩ := List.mem_map.1 hsign
      obtain ⟨slot, hslot, ho⟩ := hconcerns
      have hpending := Accounts.pending_of_slot hs (List.mem_filter.1 hslot).1 ho
      exact Nat.not_lt_of_le hop (Session.pending_lt hpending)
  · rcases hconcerns with ⟨h, hh, ho⟩ | ⟨x, hx, rfl⟩
    · exact hinquiry h hh ho
    · exact Nat.not_lt_of_le hop (hs.watchers.issued x (List.mem_append_right _ hx))

/-! ## What callbacks remember -/

namespace Session

/-- Between `s` and `t` nothing was remembered that concerns an operation sheltered in `s`. -/
structure Recalls (s t : Session (θ × List Sign)) : Prop where
  gains : s.Gains t
  depth : t.depth = s.depth
  memory : ∃ signs, t.memory = s.memory ++ signs ∧
    ∀ op, Sheltered op s → ∀ sign ∈ signs, ¬sign.Concerns op

/-- Callbacks remembered something between `s` and `t`, which concerns no operation that was
issued when they were called. -/
def Overhears (s t : Session (θ × List Sign)) : Prop :=
  ∃ signs, t.memory = s.memory ++ signs ∧
    ∀ op < s.operations.size, ∀ sign ∈ signs, ¬sign.Concerns op

variable {s t u : Session (θ × List Sign)}

theorem Recalls.of_eq (hgains : s.Gains t) (hdepth : t.depth = s.depth)
    (hmemory : t.memory = s.memory) : Recalls s t :=
  ⟨hgains, hdepth, [], hmemory.trans (List.append_nil _).symm, nofun⟩

theorem Recalls.trans (h : Recalls s t) (h' : Recalls t u) : Recalls s u := by
  obtain ⟨signs, hmemory, hsheltered⟩ := h.memory
  obtain ⟨signs', hmemory', hsheltered'⟩ := h'.memory
  refine ⟨h.gains.trans h'.gains, h'.depth.trans h.depth, signs ++ signs', ?_, ?_⟩
  · rw [hmemory', hmemory, List.append_assoc]
  · intro op hop sign hsign
    rcases List.mem_append.1 hsign with hsign | hsign
    · exact hsheltered op hop sign hsign
    · exact hsheltered' op (hop.mono h.gains h.depth) sign hsign

theorem Overhears.of_eq (hmemory : t.memory = s.memory) : Overhears s t :=
  ⟨[], hmemory.trans (List.append_nil _).symm, fun _ _ _ => nofun⟩

theorem Overhears.trans (h : Overhears s t) (h' : Overhears t u)
    (hsize : s.operations.size ≤ t.operations.size) : Overhears s u := by
  obtain ⟨signs, hmemory, hunconcerned⟩ := h
  obtain ⟨signs', hmemory', hunconcerned'⟩ := h'
  refine ⟨signs ++ signs', ?_, fun op hop sign hsign => ?_⟩
  · rw [hmemory', hmemory, List.append_assoc]
  · rcases List.mem_append.1 hsign with hsign | hsign
    · exact hunconcerned op hop sign hsign
    · exact hunconcerned' op (Nat.lt_of_lt_of_le hop hsize) sign hsign

theorem stable_recalls : Stable (Recalls (θ := θ)) where
  refl _ := .of_eq (stable_gains.refl _) rfl rfl
  trans := .trans
  complete s op outcome := .of_eq (stable_gains.complete s op outcome) (complete_depth ..)
    (congrArg Prod.snd (complete_host s op outcome))
  subscribe s event subscriber := .of_eq (stable_gains.subscribe s event subscriber) rfl rfl
  disconnect s connection := .of_eq (stable_gains.disconnect s connection) rfl rfl
  retain s event := .of_eq (stable_gains.retain s event) rfl rfl
  disarm s timer := .of_eq (stable_gains.disarm s timer) rfl rfl
  running s running := .of_eq (stable_gains.running s running) rfl rfl

/-- If nobody is called back, nothing is remembered. -/
theorem memory_perform {d : Deed (θ × List Sign)} (hquiet : d.quiet = true) (hheed : d.Heedful)
    (app : Application (θ × List Sign)) (s : Session (θ × List Sign)) :
    (d.perform app s).memory = s.memory := by
  cases d with
  | call c =>
    cases c with
    | request r =>
      simp only [Deed.perform, call, request]
      split
      · rfl
      · unfold exchange
        split <;> rfl
    | reset | reachState => rfl
    | waitFor p window => exact congrArg Prod.snd (install_host s.issue.2 _)
  | ask x callback =>
    simp only [Deed.perform, ask]
    split <;> rfl
  | expire =>
    rw [Deed.perform, expireTimers_eq]
    rfl
  | next =>
    simp only [Deed.perform, nextOutbound]
    split <;> rfl
  | think change => exact hheed s.host
  | deliver | shutdown | emit => cases hquiet
  | advance | send | takeAll | subscribe | disconnect | addHandler => rfl

section Callbacks

variable {app : Application (θ × List Sign)}
  (happ : app.Keeps (.unforced _) fun s _ t => Recalls s t)
include happ

/-- What callbacks meet with in a dispatch. -/
theorem overhears_dispatched (f : Frame) (s : Session (θ × List Sign)) :
    Overhears s (s.dispatched app f) := by
  obtain ⟨signs, hmemory, hsheltered⟩ := (stable_recalls.walk happ f s.chain s.enter).memory
  have hleave := congrArg (fun t : Session (θ × List Sign) => t.memory)
    (leave_eq (s.enter.walk app f s.chain).1 (s.enter.walk app f s.chain).2.1.2.1
      (s.enter.walk app f s.chain).2.1.2.2 (s.enter.walk app f s.chain).2.1.1)
  exact ⟨signs, hleave.trans hmemory, fun op hop => hsheltered op (.enter hop)⟩

/-- What callbacks meet with in a teardown. -/
theorem overhears_tearDown (e : Failure) (s : Session (θ × List Sign)) :
    Overhears s (s.tearDown app e) := by
  let cleared := { s with chain := [], tracked := [], outbound := [] }
  have hdrain := stable_recalls.drain happ e s.chain cleared
  obtain ⟨signs, hmemory, hsheltered⟩ :=
    (hdrain.trans (stable_recalls.abortTracked e s.tracked _)).memory
  exact ⟨signs, hmemory, fun op hop => hsheltered op (.cleared hop)⟩

theorem overhears_settleDeferred (s : Session (θ × List Sign)) :
    Overhears s (s.settleDeferred app) := by
  rcases settle_cases app s with ⟨-, hsettled⟩ | ⟨e, -, hsettled⟩ <;> rw [hsettled]
  · exact .of_eq rfl
  · exact overhears_tearDown happ e { s with deferred := none }

theorem overhears_deliver (f : Frame) (s : Session (θ × List Sign)) :
    Overhears s (s.deliver app f) :=
  have hgains := gains_dispatched (happ.mono fun _ _ _ h => h.gains) f s
  (overhears_dispatched happ f s).trans (overhears_settleDeferred happ _) hgains.size

omit happ in
/-- None of the signs of a deed concerns an operation that is sheltered. -/
theorem signs_of_sheltered (happ : Lawful (.unforced _) app) {op : OperationId}
    (hop : Sheltered op s) (d : Deed (θ × List Sign)) :
    ∀ sign ∈ s.signs app d, ¬sign.Concerns op := by
  have hcollapse {t : Session (θ × List Sign)} (ht : Sheltered op t) (hdepth : t.depth = 0)
      (e : Failure) : ¬(t.collapse e).Concerns op := by
    rintro (⟨h, hh, ho⟩ | ⟨x, hx, ho⟩)
    · exact ht.inquiry h hh ho
    · exact ht.tracked.resolve_left (fun h => h hdepth) x hx ho
  intro sign hsign
  cases d with
  | call c =>
    cases c with
    | reachState ends allowed =>
      rw [List.mem_singleton.1 hsign]
      exact Nat.ne_of_gt hop.issued
    | _ => cases hsign
  | deliver f =>
    rcases List.mem_append.1 hsign with hsign | hsign
    · rcases List.mem_cons.1 hsign with rfl | hsign
      · rintro ⟨h, hh, ho⟩
        exact hop.inquiry h ((Chain.prefix_offered ..).subset hh) ho
      obtain ⟨state, hstate, -⟩ := List.mem_map.1 hsign
      have hunheard : s.heard? f = none :=
        if_neg fun hmem => Bool.false_ne_true (hop.mute Event.stateChange.listener hmem)
      rw [hunheard] at hstate
      cases hstate
    · have hdispatched := hop.mono (gains_dispatched happ.gains f s) (dispatched_depth happ f s)
      unfold settling at hsign
      split at hsign
      · rename_i e hdepth _
        rw [List.mem_singleton.1 hsign]
        exact hcollapse hdispatched hdepth e
      · cases hsign
  | shutdown e =>
    simp only [signs] at hsign
    split at hsign
    · rename_i hdepth
      rw [List.mem_singleton.1 hsign]
      exact hcollapse hop hdepth e
    · cases hsign
  | _ => cases hsign

theorem recalls_perform (hlaw : Lawful (.unforced _) app) {d : Deed (θ × List Sign)}
    (hheed : d.Heedful) (s : Session (θ × List Sign)) :
    Recalls s ((d.perform app s).remember (s.signs app d)) := by
  have hgains : s.Gains ((d.perform app s).remember (s.signs app d)) :=
    (gains_perform hlaw.gains d s).trans (.of_eq rfl rfl rfl)
  refine ⟨hgains, (calm_perform hlaw.calm d s).1, ?_⟩
  have hmemory : ∃ signs, (d.perform app s).memory = s.memory ++ signs ∧
      ∀ op, Sheltered op s → ∀ sign ∈ signs, ¬sign.Concerns op := by
    have hoverheard {t : Session (θ × List Sign)} (h : Overhears s t) :
        ∃ signs, t.memory = s.memory ++ signs ∧
          ∀ op, Sheltered op s → ∀ sign ∈ signs, ¬sign.Concerns op :=
      h.imp fun signs hsigns => ⟨hsigns.1, fun op hop => hsigns.2 op hop.issued⟩
    cases hquiet : d.quiet with
    | true => exact hoverheard (.of_eq (memory_perform hquiet hheed app s))
    | false =>
      cases d with
      | deliver f => exact hoverheard (overhears_deliver happ f s)
      | shutdown e =>
        rw [Deed.perform, shutdown]
        split
        · exact hoverheard (overhears_tearDown happ e s)
        · exact hoverheard (.of_eq rfl)
      | emit i => exact (stable_recalls.emit happ i s).memory
      | _ => cases hquiet
  obtain ⟨signs, hsigns, hunconcerned⟩ := hmemory
  refine ⟨signs ++ s.signs app d, ?_, fun op hop sign hsign => ?_⟩
  · exact (congrArg (· ++ s.signs app d) hsigns).trans (List.append_assoc ..)
  · rcases List.mem_append.1 hsign with hsign | hsign
    · exact hunconcerned op hop sign hsign
    · exact signs_of_sheltered hlaw hop d sign hsign

end Callbacks

end Session

/-- A run remembers nothing that concerns a sheltered operation. -/
theorem Remembered.recalls {s t : Session (θ × List Sign)} {ws : List Wait}
    (h : Remembered s ws t) : s.Recalls t :=
  h.keeps (R := fun s _ t => s.Recalls t) (fun s => Session.stable_recalls.refl s)
    (fun _ hst happ hkeeps _ hheed _ =>
      hst.trans (Session.recalls_perform hkeeps happ.lawful hheed _))
    fun _ _ _ hst => hst.trans (.of_eq (.issue _) rfl rfl)

theorem Remembering.recalls {app : Application (θ × List Sign)} (h : Remembering app) :
    app.Keeps (.unforced _) fun s _ t => Session.Recalls s t :=
  h.keeps Remembered.recalls

end ZigbeeHost
