import ZigbeeHost.Request
/-!
# Using a session

An application does things with a session, one `Deed` after the other : it makes calls,
has frames delivered, moves the clock, tears the session down. While a session calls it
back, it may do the same, and so on to any depth. A `Licence` says which deeds it keeps
to.

`Lawful L app` says that the callbacks of `app` use the session that they are given
through such deeds only, and `Uses L s [] t` that a run of such deeds leads from `s` to
`t`. The two are defined together : a deed of a run may call back any lawful application,
and a callback is a run again. A handler that is offered a frame, and whoever carries on
with an answer, may end its run with waits to be installed.

`Uses.keeps` is the induction over runs : a relation between sessions that each deed
keeps, as long as the callbacks in it keep the relation, holds of every run.
-/

namespace ZigbeeHost

variable {η : Type}

/-! ## Deeds -/

/-- Something that an application does with a session. -/
inductive Deed (η : Type) where
  | call (c : Call)
  /-- Starts an exchange whose answer the application takes. -/
  | ask (x : Exchange) (callback : CallbackId)
  /-- Has a frame of the co-processor delivered. -/
  | deliver (f : Frame)
  | advance (millis : Nat)
  | expire
  | shutdown (e : Failure)
  | send (f : Frame)
  /-- Takes the first frame to be sent. -/
  | next
  /-- Takes all frames to be sent. -/
  | takeAll
  | subscribe (event : Event) (callback : CallbackId)
  | disconnect (connection : Connection)
  | emit (i : Indication)
  | addHandler (callback : CallbackId) (permanent : Bool)
  /-- Changes nothing but its own state. -/
  | think (change : η → η)

namespace Deed

/-- What the deed makes of a session that calls `app` back. -/
def perform (app : Application η) (s : Session η) : Deed η → Session η
  | call c => (s.call c).2
  | ask x callback => (s.ask x callback).2
  | deliver f => s.deliver app f
  | advance millis => s.advance millis
  | expire => s.expireTimers
  | shutdown e => s.shutdown app e
  | send f => s.send f
  | next => (s.nextOutbound.map Prod.snd).getD s
  | takeAll => s.takeOutbound.2
  | subscribe event callback => (s.subscribe event (.application callback)).2
  | disconnect connection => s.disconnect connection
  | emit i => s.emit app i
  | addHandler callback permanent => s.addHandler (.custom callback permanent)
  | think change => { s with host := change s.host }

/-- An application detaches its own subscribers only : it never learns the connections
of the others. -/
def Own (s : Session η) : Deed η → Prop
  | disconnect connection =>
    ∀ slot ∈ s.slots, slot.connection = connection → ∃ cb, slot.subscriber = .application cb
  | _ => True

end Deed

/-! ## Licences -/

/-- What an application keeps to. -/
structure Licence (η : Type) where
  deed : Deed η → Prop := fun _ => True
  /-- What it waits for. -/
  pattern : Pattern → Prop := fun _ => True
  /-- It may add handlers, and take answers itself. -/
  handlers : Prop := True
  /-- The verdicts of its handlers on a frame. -/
  verdict : Frame → Verdict → Prop := fun _ _ => True
  /-- What becomes of its own state with a deed, besides what callbacks do : it may keep
  a diary. -/
  note : Deed η → Session η → η → η := fun _ _ h => h

namespace Licence

variable (L : Licence η)

/-- The licence permits the deed. -/
def Permits (d : Deed η) : Prop :=
  L.deed d ∧
    match d with
    | .call (.waitFor p _) => L.pattern p
    | .ask .. | .addHandler .. => L.handlers
    | _ => True

/-- A deed, with what the application notes about it. -/
def perform (app : Application η) (d : Deed η) (s : Session η) : Session η :=
  let t := d.perform app s
  { t with host := L.note d s t.host }

/-- The application has no handlers of its own : it calls, subscribes and moves frames. -/
def facade : Licence η := { handlers := False }

end Licence

/-! ## Lawful applications and runs -/

mutual

/-- The callbacks of `app` use the session through permitted deeds only. -/
inductive Lawful (L : Licence η) : Application η → Prop
  | intro {app : Application η}
      (hear : ∀ cb c i s, Uses L s [] (app.hear cb c i s))
      (offer : ∀ cb f s, Uses L s (app.offer cb f s).2.waits (app.offer cb f s).1)
      (offer_tracked : ∀ cb f s, (app.offer cb f s).2.tracked = [])
      (offer_verdict : ∀ cb f s, L.verdict f (app.offer cb f s).2.verdict)
      (answered : ∀ cb a s, Uses L s (app.answered cb a s).2.waits (app.answered cb a s).1)
      (answered_tracked : ∀ cb a s, (app.answered cb a s).2.tracked = [])
      (abort : ∀ cb e s, Uses L s [] (app.abort cb e s)) :
      Lawful L app

/-- A run of permitted deeds leads from `s` to `t`, and ends with waits to be installed.
The operation of each wait was issued for it. -/
inductive Uses (L : Licence η) : Session η → List Wait → Session η → Prop
  | refl (s : Session η) : Uses L s [] s
  | deed {s t : Session η} {ws : List Wait} {app : Application η} {d : Deed η} :
      Uses L s ws t → Lawful L app → L.Permits d → d.Own t → Uses L s ws (L.perform app d t)
  | wait {s t : Session η} {ws : List Wait} (p : Pattern) (window : Option Nat) :
      Uses L s ws t → L.pattern p → Uses L s (ws ++ [⟨p, window, t.issue.1⟩]) t.issue.2

end

/-- An application that does nothing when it is called. -/
def Application.silent : Application η where
  hear _ _ _ s := s
  offer _ _ s := (s, {})
  abort _ _ s := s

/-- An application that does nothing is lawful. -/
theorem Lawful.silent {L : Licence η} (hv : ∀ f, L.verdict f {}) :
    Lawful L (.silent : Application η) :=
  .intro (fun _ _ _ s => .refl s) (fun _ _ s => .refl s) (fun _ _ _ => rfl) (fun _ f _ => hv f)
    (fun _ _ s => .refl s) (fun _ _ _ => rfl) (fun _ _ s => .refl s)

/-- An application whose subscribers act out scripts, during which they call `app` back. -/
def Application.acting (L : Licence η) (app : Application η)
    (script : CallbackId → List (Deed η)) : Application η where
  hear cb _ _ s := (script cb).foldl (fun s d => L.perform app d s) s
  offer := app.offer
  answered := app.answered
  abort := app.abort

/-- Whoever acts out deeds that are permitted is lawful. -/
theorem Lawful.acting {L : Licence η} {app : Application η} (happ : Lawful L app)
    {script : CallbackId → List (Deed η)} (hscript : ∀ cb, ∀ d ∈ script cb, L.Permits d)
    (hown : ∀ cb, ∀ d ∈ script cb, ∀ s, d.Own s) : Lawful L (.acting L app script) := by
  obtain ⟨-, offer, offer_tracked, offer_verdict, answered, answered_tracked, abort⟩ := id happ
  refine .intro (fun cb _ _ s => ?_) offer offer_tracked offer_verdict answered answered_tracked
    abort
  refine List.foldlRecOn (script cb) _ (motive := Uses L s []) (.refl s) ?_
  exact fun t ht d hd => .deed ht happ (hscript cb d hd) (hown cb d hd t)

/-- The sessions that an application reaches from a new one, between its deeds. -/
def Reachable (L : Licence η) (s : Session η) : Prop :=
  ∃ config host, Uses L (.start config host) [] s

/-- A session at its start is reachable. -/
theorem Reachable.start (L : Licence η) (config : SessionConfig) (host : η) :
    Reachable L (.start config host) :=
  ⟨config, host, .refl _⟩

/-- A permitted deed leads from one reachable session to another. -/
theorem Reachable.deed {L : Licence η} {s : Session η} (hs : Reachable L s)
    {app : Application η} (happ : Lawful L app) {d : Deed η} (hd : L.Permits d)
    (hown : d.Own s) : Reachable L (L.perform app d s) :=
  let ⟨config, host, h⟩ := hs
  ⟨config, host, h.deed happ hd hown⟩

/-- A new session that pinged the co-processor. -/
def Session.pinged : Session Unit := ((Session.start {} ()).call (.request (.system .ping))).2

/-- The answer to a ping. -/
def pong : Frame := ⟨.srsp, ⟨.sys, 0x01⟩, [0x59, 0x01]⟩

/-- A frame that says for how long devices may join. -/
def permitJoin : Frame := ⟨.areq, Event.permitJoin.command, [60]⟩

theorem Reachable.pinged : Reachable .facade .pinged :=
  (Reachable.start .facade {} ()).deed (.silent fun _ => trivial)
    (d := .call (.request (.system .ping))) ⟨trivial, trivial⟩ trivial

/-! ## The induction over runs -/

variable {L : Licence η}

/-- The callbacks of `app` are in a relation between sessions before and after, with the
waits that they end with. -/
structure Application.Keeps (L : Licence η) (R : Session η → List Wait → Session η → Prop)
    (app : Application η) : Prop where
  hear : ∀ cb c i s, R s [] (app.hear cb c i s)
  offer : ∀ cb f s, R s (app.offer cb f s).2.waits (app.offer cb f s).1
  offer_tracked : ∀ cb f s, (app.offer cb f s).2.tracked = []
  offer_verdict : ∀ cb f s, L.verdict f (app.offer cb f s).2.verdict
  answered : ∀ cb a s, R s (app.answered cb a s).2.waits (app.answered cb a s).1
  answered_tracked : ∀ cb a s, (app.answered cb a s).2.tracked = []
  abort : ∀ cb e s, R s [] (app.abort cb e s)

variable {R : Session η → List Wait → Session η → Prop}

theorem Application.Keeps.mono {R' : Session η → List Wait → Session η → Prop}
    {app : Application η} (h : app.Keeps L R) (himp : ∀ s ws t, R s ws t → R' s ws t) :
    app.Keeps L R' :=
  { h with
    hear := fun cb c i s => himp _ _ _ (h.hear cb c i s)
    offer := fun cb f s => himp _ _ _ (h.offer cb f s)
    answered := fun cb a s => himp _ _ _ (h.answered cb a s)
    abort := fun cb e s => himp _ _ _ (h.abort cb e s) }

/-- An application is lawful if its callbacks are runs. -/
theorem Lawful.iff_keeps {app : Application η} :
    Lawful L app ↔ app.Keeps L fun s ws t => Uses L s ws t := by
  constructor
  · rintro ⟨hear, offer, offer_tracked, offer_verdict, answered, answered_tracked, abort⟩
    exact { hear, offer, offer_tracked, offer_verdict, answered, answered_tracked, abort }
  · rintro ⟨hear, offer, offer_tracked, offer_verdict, answered, answered_tracked, abort⟩
    exact .intro hear offer offer_tracked offer_verdict answered answered_tracked abort

/-- A relation that holds of every run, because each deed keeps it. -/
structure Licence.Kept (L : Licence η) (R : Session η → List Wait → Session η → Prop) :
    Prop where
  refl : ∀ s, R s [] s
  deed : ∀ {s t ws app d}, R s ws t → Lawful L app → app.Keeps L R → L.Permits d → d.Own t →
    R s ws (L.perform app d t)
  wait : ∀ {s t ws} (p : Pattern) (window : Option Nat), R s ws t → L.pattern p →
    R s (ws ++ [⟨p, window, t.issue.1⟩]) t.issue.2

/-- A relation that each deed keeps holds of every run. -/
theorem Uses.keeps (hR : L.Kept R) {s t : Session η} {ws : List Wait} (h : Uses L s ws t) :
    R s ws t := by
  refine @Uses.rec η L (fun app _ => app.Keeps L R) (fun s ws t _ => R s ws t)
    ?_ ?_ ?_ ?_ _ _ _ h
  · intro app _ _ offer_tracked offer_verdict _ answered_tracked _ hear offer answered abort
    exact { hear, offer, offer_tracked, offer_verdict, answered, answered_tracked, abort }
  · exact hR.refl
  · intro s t ws app d _ happ hd hown ih keeps
    exact hR.deed ih happ keeps hd hown
  · intro s t ws p window _ hp ih
    exact hR.wait p window ih hp

/-- Runs go on from where another one ends. -/
theorem Uses.trans {s t u : Session η} {ws ws' : List Wait}
    (h : Uses L s ws t) (h' : Uses L t ws' u) : Uses L s (ws ++ ws') u := by
  have hgoes : ∀ {t : Session η} {ws' : List Wait} {u : Session η}, Uses L t ws' u →
      ∀ {s ws}, Uses L s ws t → Uses L s (ws ++ ws') u := by
    intro t ws' u h'
    refine @Uses.rec η L (fun _ _ => True)
      (fun t ws' u _ => ∀ {s ws}, Uses L s ws t → Uses L s (ws ++ ws') u)
      (fun _ _ _ _ _ _ _ _ _ _ _ => trivial) ?_ ?_ ?_ _ _ _ h'
    · intro t s ws h
      rwa [List.append_nil]
    · intro t u ws' app d _ happ hd hown ih _ s ws h
      exact (ih h).deed happ hd hown
    · intro t u ws' p window _ hp ih s ws h
      rw [← List.append_assoc]
      exact (ih h).wait p window hp
  exact hgoes h' h

/-- What the licence keeps holds of a lawful application. -/
theorem Lawful.keeps (hR : L.Kept R) {app : Application η} (h : Lawful L app) :
    app.Keeps L R :=
  (Lawful.iff_keeps.1 h).mono fun _ _ _ hrun => hrun.keeps hR

/-- To keep a relation, a deed may look back at the run that led to it. -/
theorem Licence.kept_along (refl : ∀ s, R s [] s)
    (deed : ∀ {s t ws app d}, Uses L s ws t → R s ws t → Lawful L app → app.Keeps L R →
      L.Permits d → d.Own t → R s ws (L.perform app d t))
    (wait : ∀ {s t ws} (p : Pattern) (window : Option Nat), Uses L s ws t → R s ws t →
      L.pattern p → R s (ws ++ [⟨p, window, t.issue.1⟩]) t.issue.2) :
    L.Kept fun s ws t => Uses L s ws t ∧ R s ws t where
  refl s := ⟨.refl s, refl s⟩
  deed hst hlaw happ hd hown :=
    ⟨hst.1.deed hlaw hd hown, deed hst.1 hst.2 hlaw (happ.mono fun _ _ _ h => h.2) hd hown⟩
  wait p window hst hp := ⟨hst.1.wait p window hp, wait p window hst.1 hst.2 hp⟩

end ZigbeeHost
