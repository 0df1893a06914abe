import ZigbeeHost.Proofs.Session.Correlation
/-!
# The handlers for events come first

A new session listens for all events, and its handlers for them are never overtaken. A walk
does not remove them, a teardown keeps them, and whatever is added goes behind. `Retains`
says that handlers of this kind which stand at the front of the chain stay there. It speaks
of any number of them, since the chain is empty for callbacks that are called while it is
walked, and every deed keeps it (`Uses.retains`).

So a frame that carries an event never gets to a handler that waits for something. The walk
ends at the handler for the event, which offers the value to the subscribers of the event,
and the pending operations have no part in it (`Reachable.listens`).
-/

namespace ZigbeeHost

variable {η : Type} {L : Licence η}

/-! ## Handlers for events -/

/-- The handler with which a session listens for an event. -/
def Event.listener (e : Event) : Handler := .indication .areq e.command e e.lenient

/-- The handlers are handlers for events. -/
def Listening (hs : List Handler) : Prop := ∀ h ∈ hs, ∃ e, h = Event.listener e

theorem listening_all : Listening (Event.all.map Event.listener) := by
  intro h hh
  obtain ⟨e, -, rfl⟩ := List.mem_map.1 hh
  exact ⟨e, rfl⟩

/-- No two events have the same command. -/
theorem Event.find?_command (e : Event) : all.find? (·.command = e.command) = some e := by
  cases e <;> decide

/-- In front of the handler for an event are handlers for other commands. -/
theorem Event.listeners_eq (e : Event) : ∃ before behind : List Event,
    all.map listener = before.map listener ++ e.listener :: behind.map listener ∧
      ∀ e' ∈ before, e'.command ≠ e.command := by
  obtain ⟨-, before, behind, hall, hbefore⟩ := List.find?_eq_some_iff_append.1 (find?_command e)
  refine ⟨before, behind, ?_, fun e' he' => by simpa using hbefore e' he'⟩
  rw [hall, List.map_append, List.map_cons]

/-- What is read as an event occurred as this event. -/
theorem Event.event_of_read {e : Event} {lenient : Bool} {payload : Bytes} {i : Indication}
    (hread : e.read lenient payload = .ok i) : i.event = e := by
  have hmap {α : Type} {x : Except Failure α} {g : α → Indication} (hg : ∀ v, (g v).event = e)
      (hx : x.map g = .ok i) : i.event = e := by
    cases x with
    | error err => cases hx
    | ok v =>
      cases hx
      exact hg v
  cases e <;> exact hmap (fun _ => rfl) hread

/-! ## They stay in front -/

namespace Session

/-- Handlers for events at the front of the chain stay there. -/
def Retains (s t : Session η) : Prop :=
  ∀ hs, Listening hs → hs <+: s.chain → hs <+: t.chain

namespace Retains

variable {s t u : Session η}

theorem of_front (h : s.chain <+: t.chain) : Retains s t := fun _ _ hs => hs.trans h

theorem of_eq (h : t.chain = s.chain) : Retains s t := of_front (h ▸ List.prefix_rfl)

theorem trans (h : Retains s t) (h' : Retains t u) : Retains s u :=
  fun hs hl hp => h' hs hl (h hs hl hp)

end Retains

theorem stable_retains : Stable (Retains (η := η)) where
  refl _ := .of_eq rfl
  trans := .trans
  complete _ _ _ := .of_eq (complete_chain ..)
  subscribe _ _ _ := .of_eq rfl
  disconnect _ _ := .of_eq rfl
  retain _ _ := .of_eq rfl
  disarm _ _ := .of_eq rfl
  running _ _ := .of_eq rfl

theorem retains_install (s : Session η) (w : Wait) : Retains s (s.install w) :=
  .of_front (prefix_install w s)

/-- The chain that was walked is at the front when the dispatch is left. -/
theorem prefix_leave (chain : List Handler) (waits : List Wait) (tracked : List Tracked)
    (s : Session η) {hs : List Handler} (hl : Listening hs) (hp : hs <+: chain) :
    hs <+: (s.leave chain waits tracked).chain := by
  have htrack (s : Session η) (t : Tracked) : Retains s (s.track t) := .of_eq rfl
  exact (stable_retains.foldl retains_install waits _).trans
    (stable_retains.foldl htrack tracked _) hs hl (hp.trans (List.prefix_append ..))

/-- A teardown keeps the permanent handlers in order, and these are permanent. -/
theorem retains_shutdown (app : Application η) (e : Failure) (s : Session η) :
    Retains s (s.shutdown app e) := by
  intro hs hl hp
  unfold shutdown
  split
  · have hkept := hp.filter Handler.permanent
    have hall : hs.filter Handler.permanent = hs := by
      refine List.filter_eq_self.2 fun h hh => ?_
      obtain ⟨e, rfl⟩ := hl h hh
      rfl
    rw [hall, ← Chain.drain_fst Handler.permanent (Handler.abort app e) s.chain
      { s with chain := [], tracked := [], outbound := [] }] at hkept
    exact hkept.trans (List.prefix_append ..)
  · exact hp

theorem retains_deliver (app : Application η) (f : Frame) (s : Session η) :
    Retains s (s.deliver app f) := by
  have hsettle (t : Session η) : Retains t (t.settleDeferred app) := by
    unfold settleDeferred
    split
    · exact retains_shutdown app _ { t with deferred := none }
    · exact .of_eq rfl
  intro hs hl hp
  refine hsettle _ hs hl (prefix_leave _ _ _ _ hl ?_)
  -- A handler for an event is not removed, whether it emits or lets the frame pass.
  obtain ⟨behind, hchain⟩ := hp
  rw [← hchain]
  refine Chain.prefix_dispatch hs behind _ fun h hh st => ?_
  obtain ⟨e, rfl⟩ := hl h hh
  simp only [Event.listener, Handler.offer]
  split
  · split <;> rfl
  · rfl

theorem retains_perform {app : Application η} (happ : app.Keeps L fun s _ t => Retains s t)
    (d : Deed η) (s : Session η) : Retains s (d.perform app s) := by
  cases d with
  | deliver f => exact retains_deliver app f s
  | shutdown e => exact retains_shutdown app e s
  | emit i => exact stable_retains.emit happ i s
  | _ => exact .of_front (Deed.prefix_perform rfl app s)

end Session

/-- In every run the handlers for events that stand at the front stay there. -/
theorem Uses.retains {s t : Session η} {ws : List Wait} (h : Uses L s ws t) : s.Retains t := by
  refine h.keeps (R := fun s _ t => Session.Retains s t) ⟨fun _ => .of_eq rfl, ?_, ?_⟩
  · intro s t ws app d hst _ happ _ _
    exact (hst.trans (Session.retains_perform happ d t)).trans (.of_eq rfl)
  · intro s t ws p window hst _
    exact hst.trans (.of_eq rfl)

/-! ## Who emits -/

/-- The indication that a handler offers to the subscribers of its event, if it is offered
the frame. -/
def Handler.emission? (f : Frame) : Handler → Option Indication
  | indication kind command event lenient =>
    if f.kind = kind ∧ f.command = command then (event.read lenient f.payload).toOption else none
  | _ => none

namespace Handler

variable {f : Frame} {h : Handler}

/-- The handler for the event of a frame emits its value and stops the walk. -/
theorem offer_listener {e : Event} {i : Indication} (hkind : f.kind = .areq)
    (hcommand : f.command = e.command) (hread : e.read e.lenient f.payload = .ok i)
    (app : Application η) (s : Session η) :
    e.listener.offer app f s = (s.emit app i, { verdict := .handled }) := by
  simp [Event.listener, offer, hkind, hcommand, hread]

/-- The handlers for other events let the frame pass. -/
theorem offer_listener_of_ne {e : Event} (hcommand : f.command ≠ e.command)
    (app : Application η) (s : Session η) : e.listener.offer app f s = (s, {}) := by
  simp [Event.listener, offer, hcommand]

/-- A handler passes a frame over, or emits what it carries, or carries on with an answer, or
completes a wait and disarms its timer, unless it is the application's. -/
theorem offer_cases (hf : h.Formed L) (f : Frame) (app : Application η) (s : Session η) :
    (h.offer app f s).1 = s ∨
    (∃ i, h.emission? f = some i ∧ (h.offer app f s).1 = s.emit app i) ∨
    (∃ accepted a answer, h = .response accepted a ∧
      (h.offer app f s).1 = (a.resume app answer s).1) ∨
    (∃ p op rest, h = .wait p op ∧
      (h.offer app f s).1 = s.complete op (.ok (.payload rest))) ∨
    (∃ id p op rest, h = .timed id (.wait p op) ∧
      (h.offer app f s).1 = (s.complete op (.ok (.payload rest))).disarm id) ∨
    ∃ callback permanent, h = .custom callback permanent ∧
      (h.offer app f s).1 = (app.offer callback f s).1 := by
  cases h with
  | indication kind command event lenient =>
    simp only [offer, emission?]
    split
    · cases hread : event.read lenient f.payload with
      | ok i => exact Or.inr (Or.inl ⟨i, rfl, rfl⟩)
      | error e => exact Or.inl rfl
    · exact Or.inl rfl
  | response accepted a =>
    simp only [offer]
    split
    · rename_i answer _
      exact Or.inr (Or.inr (Or.inl ⟨accepted, a, answer, rfl, rfl⟩))
    · exact Or.inl rfl
  | wait p op =>
    simp only [offer]
    split
    · rename_i rest _
      exact Or.inr (Or.inr (Or.inr (Or.inl ⟨p, op, rest, rfl, rfl⟩)))
    · exact Or.inl rfl
  | timed id inner =>
    cases inner with
    | wait p op =>
      cases hid : s.timers.active id with
      | false => exact Or.inl (by rw [offer_timed_of_not_active hid])
      | true =>
        rw [offer_timed_of_active hid, offer]
        cases p.match? f with
        | none => exact Or.inl rfl
        | some rest =>
          exact Or.inr (Or.inr (Or.inr (Or.inr (Or.inl ⟨id, p, op, rest, rfl, rfl⟩))))
    | _ => exact hf.elim
  | custom callback permanent =>
    exact Or.inr (Or.inr (Or.inr (Or.inr (Or.inr ⟨callback, permanent, rfl, rfl⟩))))

/-- A handler that emits nothing does not depend on what subscribers do. -/
theorem offer_hear (hf : h.Formed L) (hnone : h.emission? f = none) (app : Application η)
    (hear : CallbackId → Connection → Indication → Session η → Session η) (s : Session η) :
    h.offer { app with hear } f s = h.offer app f s := by
  cases h with
  | indication kind command event lenient =>
    simp only [emission?] at hnone
    simp only [offer]
    split
    · rename_i hmatch
      rw [if_pos hmatch] at hnone
      cases hread : event.read lenient f.payload with
      | ok i =>
        rw [hread] at hnone
        cases hnone
      | error e => rfl
    · rfl
  | response commands a => cases a <;> rfl
  | wait | custom => rfl
  | timed id inner =>
    cases inner with
    | wait p op => rfl
    | _ => exact hf.elim

theorem abort_hear (app : Application η)
    (hear : CallbackId → Connection → Indication → Session η → Session η) (e : Failure)
    (h : Handler) (s : Session η) : h.abort { app with hear } e s = h.abort app e s := by
  induction h generalizing s with
  | response commands a => cases a <;> rfl
  | indication | wait | custom => rfl
  | timed id inner ih => simp only [abort, ih]

/-- A frame that carries no event makes no handler emit. -/
theorem emission?_of_free (hf : h.Formed L) (hfree : ∀ e : Event, ¬e.Takes f) :
    h.emission? f = none := by
  cases h with
  | indication kind command event lenient =>
    obtain ⟨rfl, rfl, rfl⟩ := hf
    simp only [emission?]
    split
    · rename_i hmatch
      cases hread : event.read event.lenient f.payload with
      | ok i => exact absurd ⟨hmatch.1, hmatch.2, i, hread⟩ (hfree event)
      | error e => rfl
    · rfl
  | _ => rfl

end Handler

namespace Session

/-- The handlers that are offered a frame. -/
def offered (app : Application η) (f : Frame) (s : Session η) : List Handler :=
  Chain.offered (turn app f) s.chain (s.enter, [], [])

/-- The indications that a frame makes the handlers emit, in order. -/
def emissions (app : Application η) (f : Frame) (s : Session η) : List Indication :=
  (s.offered app f).filterMap (Handler.emission? f)

/-- If no handler emits, the subscribers have no part in the dispatch. -/
theorem deliver_hear {f : Frame} {s : Session η} (hf : ∀ h ∈ s.chain, h.Formed L)
    (hnone : ∀ h ∈ s.chain, h.emission? f = none) (app : Application η)
    (hear : CallbackId → Connection → Indication → Session η → Session η) :
    s.deliver { app with hear } f = s.deliver app f := by
  have hwalk : s.enter.walk { app with hear } f s.chain = s.enter.walk app f s.chain := by
    refine Chain.dispatch_congr s.chain _ fun h hh st => ?_
    simp only [Handler.offer_hear (hf h hh) (hnone h hh)]
  have habort (e : Failure) : Handler.abort { app with hear } e = Handler.abort app e :=
    funext₂ (Handler.abort_hear app hear e)
  have hshutdown (e : Failure) (t : Session η) :
      t.shutdown { app with hear } e = t.shutdown app e := by
    simp only [shutdown, tearDown, habort]
  simp only [deliver, hwalk, settleDeferred, hshutdown]

/-- A frame that carries an event is offered to the handlers in front of the one for the
event, which ends the walk. -/
theorem deliver_listener {f : Frame} {e : Event} {i : Indication} {s : Session η}
    (hfront : Event.all.map Event.listener <+: s.chain) (hkind : f.kind = .areq)
    (hcommand : f.command = e.command) (hread : e.read e.lenient f.payload = .ok i)
    (app : Application η) :
    s.offered app f <+: Event.all.map Event.listener ∧ s.emissions app f = [i] ∧
      s.dispatched app f = (s.enter.emit app i).leave s.chain [] [] := by
  obtain ⟨before, behind, hall, hne⟩ := e.listeners_eq
  obtain ⟨rest, hrest⟩ := hfront
  have hchain : s.chain = before.map Event.listener ++
      e.listener :: (behind.map Event.listener ++ rest) := by
    rw [← hrest, hall, List.append_assoc, List.cons_append]
  have hother : ∀ h ∈ before.map Event.listener,
      ∀ st : Session η × List Wait × List Tracked, turn app f h st = (st, {}) := by
    intro h hh st
    obtain ⟨e', he', rfl⟩ := List.mem_map.1 hh
    have hpass := Handler.offer_listener_of_ne (hcommand ▸ (hne e' he').symm) app st.1
    simp only [turn, hpass, List.append_nil]
    rfl
  have hpassed : Chain.dispatch (turn app f) (before.map Event.listener) (s.enter, [], []) =
      (before.map Event.listener, (s.enter, [], []), false) := by
    have hpass := Chain.dispatch_of_pass (before.map Event.listener) (s.enter, [], [])
      (fun _ => true) (fun h hh => hother h hh _)
    rwa [List.filter_true] at hpass
  have hgoes := congrArg (fun w => w.2.2) hpassed
  have hturn : turn app f e.listener (s.enter, [], []) =
      ((s.enter.emit app i, [], []), .handled) := by
    simp only [turn, Handler.offer_listener hkind hcommand hread, List.append_nil]
  have hstop : (turn app f e.listener (s.enter, [], [])).2.stop = true := by
    rw [hturn]
    rfl
  have hoffered : s.offered app f = before.map Event.listener ++ [e.listener] := by
    rw [offered, hchain, Chain.offered_append _ _ _ hgoes, hpassed,
      Chain.offered_cons_of_stop _ hstop]
  refine ⟨?_, ?_, ?_⟩
  · rw [hoffered, hall]
    exact (List.prefix_append_right_inj _).2 (List.prefix_append [e.listener] _)
  · have hsilent : (before.map Event.listener).filterMap (Handler.emission? f) = [] := by
      refine List.filterMap_eq_nil_iff.2 fun h hh => ?_
      obtain ⟨e', he', rfl⟩ := List.mem_map.1 hh
      exact if_neg fun hmatch => hne e' he' (hmatch.2.symm.trans hcommand)
    have hemits : e.listener.emission? f = some i := by
      simp only [Event.listener, Handler.emission?, hkind, hcommand, hread, and_self, if_true]
      rfl
    rw [emissions, hoffered, List.filterMap_append, hsilent, List.nil_append,
      List.filterMap_cons_some hemits, List.filterMap_nil]
  · have hwalk : s.enter.walk app f s.chain = (s.chain, (s.enter.emit app i, [], []), true) := by
      rw [walk_eq, hchain, Chain.dispatch_append _ _ _ hgoes, hpassed,
        Chain.dispatch_cons_of_stop _ hstop, hturn]
      rfl
    rw [dispatched, hwalk]

/-- The turns of subscribers change the entry of an operation only through one that has it, or that
the application makes do so. -/
theorem operations_turns {app : Application η} {i : Indication} {s : Session η} {op : OperationId}
    {called : List Slot} (hwatch : ∀ slot ∈ called, slot.subscriber.operation? ≠ some op)
    (hhear : ∀ slot ∈ called, ∀ cb, slot.subscriber = .application cb → ∀ t,
      (app.hear cb slot.connection i t).operations[op]? = t.operations[op]?) :
    (called.foldl (notify app i) s).operations[op]? = s.operations[op]? := by
  refine List.foldlRecOn called (notify app i)
    (motive := fun t : Session η => t.operations[op]? = s.operations[op]?) rfl ?_
  intro t ht slot hslot
  rw [← ht]
  rcases notify_cases app i t slot with
    heq | ⟨watch, op', outcome, -, hsub, -, heq⟩ | ⟨cb, hsub, heq⟩ <;> rw [heq]
  · have hne : op ≠ op' := by
      rintro rfl
      exact hwatch slot hslot (by rw [hsub]; rfl)
    rw [operations_complete, if_neg fun h => hne h.1]
    rfl
  · exact hhear slot hslot cb hsub _

/-- An emission changes the entry of an operation only through those who are stored for the event.
If callbacks bring nobody back who was detached, they are the audience. -/
theorem operations_emit {app : Application η} {i : Indication} {s : Session η} {op : OperationId}
    {called : List Slot}
    (hcalled : called = s.stored i.event ∨ Lawful L app ∧ called = s.audience i.event)
    (hwatch : ∀ slot ∈ called, slot.subscriber.operation? ≠ some op)
    (hhear : ∀ slot ∈ called, ∀ cb, slot.subscriber = .application cb → ∀ t,
      (app.hear cb slot.connection i t).operations[op]? = t.operations[op]?) :
    (s.emit app i).operations[op]? = s.operations[op]? := by
  rcases hcalled with rfl | ⟨happ, rfl⟩
  · exact operations_turns hwatch hhear
  · rw [emit_eq happ.connects]
    exact operations_turns hwatch hhear

end Session

/-! ## Events and pending operations -/

/-- The handlers for the events come first, in the order in which a session listens for
them. A frame that carries an event is offered to them only, and its value is emitted
once, to the subscribers of the event; the chain stays, and the operations that are not
theirs stay as they are. Of those who are stored for the event, lawful callbacks leave the
detached ones out. Other frames make nobody emit. -/
theorem Reachable.listens {s : Session η} (hs : Reachable L s) (app : Application η) :
    s.chain.take 11 = Event.all.map Event.listener ∧
    (∀ (f : Frame) (e : Event) (i : Indication), f.kind = .areq → f.command = e.command →
      e.read e.lenient f.payload = .ok i →
        i.event = e ∧ s.emissions app f = [i] ∧
        s.offered app f <+: Event.all.map Event.listener ∧
        s.deliver app f = ((s.enter.emit app i).leave s.chain [] []).settleDeferred app ∧
        ((s.enter.emit app i).deferred = none → s.chain <+: (s.deliver app f).chain ∧
          ∀ (op : OperationId) (called : List Slot),
            called = s.stored e ∨ Lawful L app ∧ called = s.audience e →
            (∀ slot ∈ called, slot.subscriber.operation? ≠ some op) →
            (∀ slot ∈ called, ∀ cb, slot.subscriber = .application cb → ∀ t,
              (app.hear cb slot.connection i t).operations[op]? = t.operations[op]?) →
            (s.deliver app f).operations[op]? = s.operations[op]?)) ∧
    (∀ f : Frame, (∀ e : Event, ¬e.Takes f) → s.emissions app f = [] ∧
      ∀ hear, s.deliver { app with hear } f = s.deliver app f) := by
  have hfront : Event.all.map Event.listener <+: s.chain := by
    obtain ⟨config, host, h⟩ := hs
    exact h.retains _ listening_all List.prefix_rfl
  refine ⟨(List.prefix_iff_eq_take.1 hfront).symm, fun f e i hkind hcommand hread => ?_,
    fun f hfree => ?_⟩
  · have hevent := Event.event_of_read hread
    obtain ⟨hoffered, hemissions, hdispatched⟩ :=
      Session.deliver_listener hfront hkind hcommand hread app
    have hdeliver : s.deliver app f = _ := Session.deliver_eq f s
    rw [hdispatched] at hdeliver
    refine ⟨hevent, hemissions, hoffered, hdeliver, fun hdeferred => ?_⟩
    have hquiet : ((s.enter.emit app i).leave s.chain [] []).deferred = none := hdeferred
    rw [hdeliver, Session.settleDeferred_of_none hquiet]
    refine ⟨List.prefix_append .., fun op called hcalled hwatch hhear => ?_⟩
    subst hevent
    exact Session.operations_emit (s := s.enter) hcalled hwatch hhear
  · have hnone : ∀ h ∈ s.chain, h.emission? f = none := fun h hh =>
      Handler.emission?_of_free (hs.sound.formed h hh) hfree
    refine ⟨?_, Session.deliver_hear hs.sound.formed hnone app⟩
    refine List.filterMap_eq_nil_iff.2 fun h hh => hnone h ?_
    exact (Chain.prefix_offered ..).subset hh

/-- A ping is still under way when devices may join. -/
theorem pinged_permitJoin :
    Session.pinged.emissions .silent permitJoin = [.permitJoin ⟨60⟩] ∧
      (Session.pinged.deliver .silent permitJoin).operations[0]? = some none := by
  obtain ⟨-, hemissions, -, -, hrest⟩ := (Reachable.listens .pinged .silent).2.1 permitJoin
    .permitJoin (.permitJoin ⟨60⟩) rfl rfl rfl
  have hquiet : (Session.pinged.enter.emit .silent (.permitJoin ⟨60⟩)).deferred = none := rfl
  exact ⟨hemissions, (hrest hquiet).2 0 _ (.inl rfl) nofun nofun⟩

end ZigbeeHost
