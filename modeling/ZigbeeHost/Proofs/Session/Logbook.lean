import Mathlib.Tactic.FinCases
import ZigbeeHost.Proofs.Session.Newcomers
/-!
# Runs that are written down

An application may keep a log in its own state. A `Logbook` says what is written in it : entries
before a deed, entries when it is done, and entries when a subscriber is called. `Writing` says
that the callbacks of an application keep the log, and `Written s ws t` that a run from `s` to
`t` does, at any depth of callbacks. The entries of a deed stand around those that its callbacks
wrote, so the log tells what happened inside of what.

Otherwise such an application does what its licence permits, so all that holds of the runs of
lawful applications holds of these too (`Written.uses`). `Written.keeps` is the induction over
them.
-/

namespace ZigbeeHost

variable {θ σ : Type}

/-- What an application writes down. -/
structure Logbook (θ σ : Type) where
  /-- Before it does a deed. -/
  before : Session (θ × List σ) → Deed (θ × List σ) → List σ := fun _ _ => []
  /-- When the deed is done, which began in the session given. -/
  after : Application (θ × List σ) → Session (θ × List σ) → Deed (θ × List σ) → List σ :=
    fun _ _ _ => []
  /-- When a subscriber with the connection is called. -/
  called : Connection → Indication → List σ := fun _ _ => []

namespace Session

/-- The entries of the log. -/
def pages (s : Session (θ × List σ)) : List σ := s.host.2

/-- Writes entries at the end of the log. -/
def write (entries : List σ) (s : Session (θ × List σ)) : Session (θ × List σ) :=
  { s with host := (s.host.1, s.host.2 ++ entries) }

@[simp]
theorem write_nil (s : Session (θ × List σ)) : s.write [] = s := by simp [write]

@[simp]
theorem pages_write (entries : List σ) (s : Session (θ × List σ)) :
    (s.write entries).pages = s.pages ++ entries := rfl

end Session

/-- The deed leaves the log to itself. -/
def Deed.Discreet : Deed (θ × List σ) → Prop
  | think change => ∀ host, (change host).2 = host.2
  | _ => True

/-- The licence says nothing about the application's own state. -/
structure Licence.Open (L : Licence (θ × List σ)) : Prop where
  think : ∀ change, L.deed (.think change)
  note : ∀ d s host, L.note d s host = host

theorem Licence.Open.perform_eq {L : Licence (θ × List σ)} (hL : L.Open)
    (app : Application (θ × List σ)) (d : Deed (θ × List σ)) (s : Session (θ × List σ)) :
    L.perform app d s = d.perform app s := by
  simp only [Licence.perform, hL.note]

/-- Nothing is forbidden. -/
def Licence.free (η : Type) : Licence η := {}

theorem Licence.open_free : (Licence.free (θ × List σ)).Open where
  think _ := trivial
  note _ _ _ := rfl

/-! ## Written runs -/

/-- What a deed makes of a session, with what is written down. -/
def Logbook.perform (D : Logbook θ σ) (app : Application (θ × List σ)) (d : Deed (θ × List σ))
    (s : Session (θ × List σ)) : Session (θ × List σ) :=
  let begun := s.write (D.before s d)
  (d.perform app begun).write (D.after app begun d)

theorem Logbook.perform_eq {D : Logbook θ σ} {s : Session (θ × List σ)} {d : Deed (θ × List σ)}
    {app : Application (θ × List σ)} (hbefore : D.before s d = []) (hafter : D.after app s d = []) :
    D.perform app d s = d.perform app s := by
  rw [perform, hbefore, Session.write_nil, hafter, Session.write_nil]

mutual

/-- The callbacks of the application write down what they do. -/
inductive Writing (L : Licence (θ × List σ)) (D : Logbook θ σ) : Application (θ × List σ) → Prop
  | intro {app : Application (θ × List σ)}
      (hear : ∀ cb c i s, Written L D (s.write (D.called c i)) [] (app.hear cb c i s))
      (offer : ∀ cb f s, Written L D s (app.offer cb f s).2.waits (app.offer cb f s).1)
      (offer_tracked : ∀ cb f s, (app.offer cb f s).2.tracked = [])
      (offer_verdict : ∀ cb f s, L.verdict f (app.offer cb f s).2.verdict)
      (answered : ∀ cb a s, Written L D s (app.answered cb a s).2.waits (app.answered cb a s).1)
      (answered_tracked : ∀ cb a s, (app.answered cb a s).2.tracked = [])
      (abort : ∀ cb e s, Written L D s [] (app.abort cb e s)) :
      Writing L D app

/-- A run leads from `s` to `t`, and the log says what was done. -/
inductive Written (L : Licence (θ × List σ)) (D : Logbook θ σ) :
    Session (θ × List σ) → List Wait → Session (θ × List σ) → Prop
  | refl (s : Session (θ × List σ)) : Written L D s [] s
  | deed {s t : Session (θ × List σ)} {ws : List Wait} {app : Application (θ × List σ)}
      {d : Deed (θ × List σ)} :
      Written L D s ws t → Writing L D app → L.Permits d → d.Discreet → d.Own t →
      Written L D s ws (D.perform app d t)
  | wait {s t : Session (θ × List σ)} {ws : List Wait} (p : Pattern) (window : Option Nat) :
      Written L D s ws t → L.pattern p → Written L D s (ws ++ [⟨p, window, t.issue.1⟩]) t.issue.2

end

instance (s : Session (θ × List σ)) (d : Deed (θ × List σ)) : Decidable (d.Own s) :=
  match d with
  | .disconnect connection =>
    decidable_of_iff (∀ slot ∈ s.slots, slot.connection = connection →
      slot.subscriber.operation? = none) <| by
        refine forall₃_congr fun slot _ _ => ?_
        cases slot.subscriber <;> simp [Subscriber.operation?]
  | .call _ | .ask .. | .deliver _ | .advance _ | .expire | .shutdown _ | .send _ | .next
  | .takeAll | .subscribe .. | .emit _ | .addHandler .. | .think _ => .isTrue trivial

/-- An application whose subscribers act out scripts, during which they call `app` back. They
keep to what is their own. -/
def Logbook.acting (D : Logbook θ σ) (app : Application (θ × List σ))
    (script : CallbackId → Connection → List (Deed (θ × List σ))) :
    Application (θ × List σ) where
  hear cb c i s := (script cb c).foldl (fun s d => if d.Own s then D.perform app d s else s)
    (s.write (D.called c i))
  offer := app.offer
  answered := app.answered
  abort := app.abort

section Acting

variable {L : Licence (θ × List σ)} {D : Logbook θ σ}

/-- Whoever acts out deeds that are permitted keeps the log. -/
theorem Writing.acting {app : Application (θ × List σ)} (happ : Writing L D app)
    {script : CallbackId → Connection → List (Deed (θ × List σ))}
    (hscript : ∀ cb c, ∀ d ∈ script cb c, L.Permits d ∧ d.Discreet) :
    Writing L D (D.acting app script) := by
  obtain ⟨-, offer, offer_tracked, offer_verdict, answered, answered_tracked, abort⟩ := id happ
  refine .intro (fun cb c i s => ?_) offer offer_tracked offer_verdict answered answered_tracked
    abort
  refine List.foldlRecOn (script cb c) _ (motive := Written L D (s.write (D.called c i)) [])
    (.refl _) fun t ht d hd => ?_
  show Written L D _ [] (if d.Own t then D.perform app d t else t)
  split
  · rename_i hown
    exact .deed ht happ (hscript cb c d hd).1 (hscript cb c d hd).2 hown
  · exact ht

/-- An application that writes down when it is called, and does nothing else. -/
def Logbook.silent (D : Logbook θ σ) : Application (θ × List σ) := D.acting .silent fun _ _ => []

theorem Writing.silent (hv : ∀ f, L.verdict f {}) : Writing L D D.silent :=
  .intro (fun _ _ _ _ => .refl _) (fun _ _ s => .refl s) (fun _ _ _ => rfl) (fun _ f _ => hv f)
    (fun _ _ s => .refl s) (fun _ _ _ => rfl) (fun _ _ s => .refl s)

/-- A run goes on with deeds that detach nobody. -/
theorem Written.deeds {s t : Session (θ × List σ)} {ws : List Wait}
    {app : Application (θ × List σ)} (h : Written L D s ws t) (happ : Writing L D app)
    {ds : List (Deed (θ × List σ))}
    (hds : ∀ d ∈ ds, L.Permits d ∧ d.Discreet ∧ ∀ u, d.Own u) :
    Written L D s ws (ds.foldl (fun u d => D.perform app d u) t) :=
  List.foldlRecOn ds _ (motive := Written L D s ws) h fun u hu d hd =>
    hu.deed happ (hds d hd).1 (hds d hd).2.1 ((hds d hd).2.2 u)

end Acting

/-! ## The induction over written runs -/

variable {L : Licence (θ × List σ)} {D : Logbook θ σ}

/-- The callbacks of `app` are in a relation between sessions before and after; a subscriber
that is called has already written that it is. -/
structure Application.Records (L : Licence (θ × List σ)) (D : Logbook θ σ)
    (R : Session (θ × List σ) → List Wait → Session (θ × List σ) → Prop)
    (app : Application (θ × List σ)) : Prop where
  hear : ∀ cb c i s, R (s.write (D.called c i)) [] (app.hear cb c i s)
  offer : ∀ cb f s, R s (app.offer cb f s).2.waits (app.offer cb f s).1
  offer_tracked : ∀ cb f s, (app.offer cb f s).2.tracked = []
  offer_verdict : ∀ cb f s, L.verdict f (app.offer cb f s).2.verdict
  answered : ∀ cb a s, R s (app.answered cb a s).2.waits (app.answered cb a s).1
  answered_tracked : ∀ cb a s, (app.answered cb a s).2.tracked = []
  abort : ∀ cb e s, R s [] (app.abort cb e s)

section Induction

variable {R : Session (θ × List σ) → List Wait → Session (θ × List σ) → Prop}

/-- If a relation that holds from the entry of a call holds from the call too, the callbacks
keep it. -/
theorem Application.Records.keeps {app : Application (θ × List σ)} (h : app.Records L D R)
    (hcalled : ∀ c i s t, R (s.write (D.called c i)) [] t → R s [] t) : app.Keeps L R :=
  { h with hear := fun cb c i s => hcalled c i s _ (h.hear cb c i s) }

/-- A relation holds of every written run if each deed keeps it, as long as the callbacks in the
deed keep it. -/
theorem Written.keeps (refl : ∀ s, R s [] s)
    (deed : ∀ {s t ws app d}, Written L D s ws t → R s ws t → Writing L D app →
      app.Records L D R → L.Permits d → d.Discreet → d.Own t → R s ws (D.perform app d t))
    (wait : ∀ {s t ws} (p : Pattern) (window : Option Nat), Written L D s ws t → R s ws t →
      L.pattern p → R s (ws ++ [⟨p, window, t.issue.1⟩]) t.issue.2)
    {s t : Session (θ × List σ)} {ws : List Wait} (h : Written L D s ws t) : R s ws t := by
  refine @Written.rec θ σ L D (fun app _ => app.Records L D R) (fun s ws t _ => R s ws t)
    ?_ refl ?_ ?_ _ _ _ h
  · intro app _ _ offer_tracked offer_verdict _ answered_tracked _ hear offer answered abort
    exact { hear, offer, offer_tracked, offer_verdict, answered, answered_tracked, abort }
  · intro s t ws app d hrun happ hd hdiscreet hown hst hrecords
    exact deed hrun hst happ hrecords hd hdiscreet hown
  · intro s t ws p window hrun hp hst
    exact wait p window hrun hst hp

theorem Writing.records
    (h : ∀ {s t : Session (θ × List σ)} {ws : List Wait}, Written L D s ws t → R s ws t)
    {app : Application (θ × List σ)} (happ : Writing L D app) : app.Records L D R := by
  obtain ⟨hear, offer, offer_tracked, offer_verdict, answered, answered_tracked, abort⟩ := happ
  exact {
    hear := fun cb c i s => h (hear cb c i s)
    offer := fun cb f s => h (offer cb f s)
    offer_tracked, offer_verdict
    answered := fun cb a s => h (answered cb a s)
    answered_tracked
    abort := fun cb e s => h (abort cb e s) }

end Induction

/-- To write is a deed of its own. -/
theorem Uses.write (hL : L.Open) {s t : Session (θ × List σ)} {ws : List Wait}
    (h : Uses L s ws t) {app : Application (θ × List σ)} (happ : Lawful L app)
    (entries : List σ) : Uses L s ws (t.write entries) := by
  have hwritten := h.deed happ (d := .think fun host => (host.1, host.2 ++ entries))
    ⟨hL.think _, trivial⟩ trivial
  rwa [hL.perform_eq] at hwritten

/-- A written run is a run. -/
theorem Written.uses (hL : L.Open) (hv : ∀ f, L.verdict f {}) {s t : Session (θ × List σ)}
    {ws : List Wait} (h : Written L D s ws t) : Uses L s ws t := by
  have hsilent : Lawful L (.silent : Application (θ × List σ)) := .silent hv
  refine h.keeps .refl ?_ fun p window _ hst hp => .wait p window hst hp
  intro s t ws app d _ hst _ hrecords hd _ hown
  have hkeeps : app.Keeps L fun s ws t => Uses L s ws t :=
    hrecords.keeps fun c i s t ht => ((Uses.refl s).write hL hsilent (D.called c i)).trans ht
  have hlaw := Lawful.iff_keeps.2 hkeeps
  have hperformed := (hst.write hL hlaw (D.before t d)).deed hlaw hd (by cases d <;> exact hown)
  rw [hL.perform_eq] at hperformed
  exact hperformed.write hL hlaw _

theorem Writing.lawful (hL : L.Open) (hv : ∀ f, L.verdict f {}) {app : Application (θ × List σ)}
    (happ : Writing L D app) : Lawful L app := by
  refine Lawful.iff_keeps.2 ((happ.records fun h => h.uses hL hv).keeps fun c i s t ht => ?_)
  exact ((Uses.refl s).write hL (.silent hv) (D.called c i)).trans ht

end ZigbeeHost
