import ZigbeeHost.Proofs.Session.History
/-!
# Chronicles

An application that keeps a chronicle notes there, at any depth of callbacks, which frames it
had delivered, when it let timers expire, the teardowns it asked for and the frames it took
to be sent. `Licence.chronicled` is the licence of such an application, which otherwise may
do whatever it likes.

While a frame is dispatched, a teardown that is asked for takes nothing away. `Defers` says
so of a run in terms of its moments : the first teardown among them is deferred, unless one
was before; frames leave the queue only to be sent; and no operation fails but by a frame
or its own timer. Every run inside a dispatch defers (`Uses.defers`), and so does a whole
dispatch until its end (`Session.dispatched_defers`).
-/

namespace ZigbeeHost

variable {η θ : Type}

/-! ## The chronicle -/

/-- Something that is worth a note. -/
inductive Moment where
  | delivered (f : Frame)
  | expired (now : Nat)
  | shutdown (e : Failure)
  | took (frames : List Frame)
  deriving DecidableEq

namespace Moment

/-- The failure of a teardown that was asked for. -/
def failure? : Moment → Option Failure
  | shutdown e => some e
  | _ => none

/-- The first failure among moments is that of a teardown. -/
theorem shutdown_mem_of_failure {new : List Moment} {e : Failure}
    (h : new.findSome? failure? = some e) : shutdown e ∈ new := by
  obtain ⟨m, hm, hfailure⟩ := List.exists_of_findSome?_eq_some h
  cases m with
  | shutdown e' =>
    cases hfailure
    exact hm
  | _ => cases hfailure

/-- The frames that were taken to be sent. -/
def taken : Moment → List Frame
  | took frames => frames
  | _ => []

end Moment

/-- What is noted about a deed. -/
def Deed.moments (s : Session η) : Deed η → List Moment
  | deliver f => [.delivered f]
  | expire => [.expired s.now]
  | shutdown e => [.shutdown e]
  | next => [.took (s.outbound.take 1)]
  | takeAll => [.took s.outbound]
  | _ => []

/-- The application keeps a chronicle. -/
def Licence.chronicled (θ : Type) : Licence (θ × List Moment) where
  deed
    | .think change => ∀ host, (change host).2 = host.2
    | _ => True
  note d s host := (host.1, host.2 ++ d.moments s)

namespace Session

/-- The application's chronicle. -/
def chronicle (s : Session (θ × List Moment)) : List Moment := s.host.2

/-! ## What a dispatch defers -/

/-- The moments `new` lead from `s` to `t` without a teardown. -/
structure Defers (new : List Moment) (s t : Session (θ × List Moment)) : Prop where
  chronicle : t.chronicle = s.chronicle ++ new
  deferred : t.deferred = s.deferred.or (new.findSome? Moment.failure?)
  /-- Frames are queued behind those that are there, and taken from the front. -/
  outbound : ∃ queued, new.flatMap Moment.taken ++ t.outbound = s.outbound ++ queued
  failed : ∀ op e, t.outcome? op = some (.error e) →
    s.outcome? op = some (.error e) ∨ e.single = true

/-- In a dispatch, some moments lead from `s` to `t` without a teardown. -/
def Suspends (s t : Session (θ × List Moment)) : Prop :=
  s.depth ≠ 0 → t.depth = s.depth ∧ ∃ new, Defers new s t

variable {s t u : Session (θ × List Moment)}

namespace Defers

/-- What touches neither the deferred teardown nor the queue defers nothing. -/
theorem of_eq (hhost : t.host.2 = s.host.2) (hdeferred : t.deferred = s.deferred)
    (houtbound : s.outbound <+: t.outbound) (hops : t.operations = s.operations) :
    Defers [] s t where
  chronicle := by rw [List.append_nil]; exact hhost
  deferred := by rw [hdeferred, List.findSome?_nil, Option.or_none]
  outbound := houtbound.imp fun queued hq => hq.symm
  failed op e ho := by
    rw [outcome?, hops] at ho
    exact Or.inl ho

/-- Parts of a run that come one after the other. -/
theorem trans {new new' : List Moment} (h : Defers new s t) (h' : Defers new' t u) :
    Defers (new ++ new') s u where
  chronicle := by rw [h'.chronicle, h.chronicle, List.append_assoc]
  deferred := by rw [h'.deferred, h.deferred, List.findSome?_append, Option.or_assoc]
  outbound := by
    obtain ⟨queued, hq⟩ := h.outbound
    obtain ⟨queued', hq'⟩ := h'.outbound
    refine ⟨queued ++ queued', ?_⟩
    rw [List.flatMap_append, List.append_assoc, hq', ← List.append_assoc, hq, List.append_assoc]
  failed op e ho := (h'.failed op e ho).elim (h.failed op e) Or.inr

/-- An operation that is completed by a handler has an outcome of its own. -/
theorem complete (s : Session (θ × List Moment)) (op : OperationId)
    {outcome : Except Failure Outcome} (hgiven : Given outcome) :
    Defers [] s (s.complete op outcome) where
  chronicle := by simp [Session.chronicle]
  deferred := by rw [complete_deferred, List.findSome?_nil, Option.or_none]
  outbound := ⟨[], by simp⟩
  failed i e ho := by
    rw [outcome?_eq_some_iff, operations_complete] at ho
    split at ho
    · simp only [Option.some.injEq] at ho
      exact Or.inr (hgiven e ho)
    · exact Or.inl (outcome?_eq_some_iff.2 ho)

/-- A note about a deed that asked for no teardown and took no frame. -/
theorem note (s : Session (θ × List Moment)) {m : Moment} (hfailure : m.failure? = none)
    (htaken : m.taken = []) :
    Defers [m] s { s with host := (s.host.1, s.host.2 ++ [m]) } where
  chronicle := rfl
  deferred := by simp [hfailure]
  outbound := ⟨[], by simp [htaken]⟩
  failed _ _ := Or.inl

theorem not_noted {new : List Moment} (h : Defers new s t) :
    Defers new s { t with host := (t.host.1, t.host.2 ++ []) } := by
  have hsame : Defers [] t { t with host := (t.host.1, t.host.2 ++ []) } :=
    .of_eq (List.append_nil _) rfl List.prefix_rfl rfl
  have hdone := h.trans hsame
  rwa [List.append_nil] at hdone

theorem issue (s : Session (θ × List Moment)) : Defers [] s s.issue.2 where
  chronicle := (List.append_nil _).symm
  deferred := (Option.or_none ..).symm
  outbound := ⟨[], by simp [Session.issue]⟩
  failed op e ho := by
    rw [outcome?_eq_some_iff, operations_issue] at ho
    split at ho
    · cases ho
    · exact Or.inl (outcome?_eq_some_iff.2 ho)

end Defers

namespace Suspends

theorem of_defers {new : List Moment} (hdepth : t.depth = s.depth) (h : Defers new s t) :
    Suspends s t := fun _ => ⟨hdepth, new, h⟩

theorem of_eq (hhost : t.host.2 = s.host.2) (hdeferred : t.deferred = s.deferred)
    (houtbound : s.outbound <+: t.outbound) (hops : t.operations = s.operations)
    (hdepth : t.depth = s.depth) : Suspends s t :=
  of_defers hdepth (.of_eq hhost hdeferred houtbound hops)

theorem trans (h : Suspends s t) (h' : Suspends t u) : Suspends s u := by
  intro hdepth
  obtain ⟨hd, new, hnew⟩ := h hdepth
  obtain ⟨hd', new', hnew'⟩ := h' (hd ▸ hdepth)
  exact ⟨hd'.trans hd, new ++ new', hnew.trans hnew'⟩

end Suspends

/-- Handlers and subscribers leave a teardown deferred. -/
theorem steady_suspends : Steady Given (Suspends (θ := θ)) where
  refl _ := .of_eq rfl rfl List.prefix_rfl rfl rfl
  trans := .trans
  complete s op _ hgiven := .of_defers (complete_depth ..) (.complete s op hgiven)
  subscribe _ _ _ := .of_eq rfl rfl List.prefix_rfl rfl rfl
  disconnect _ _ := .of_eq rfl rfl List.prefix_rfl rfl rfl
  retain _ _ := .of_eq rfl rfl List.prefix_rfl rfl rfl
  disarm _ _ := .of_eq rfl rfl List.prefix_rfl rfl rfl
  running _ _ := .of_eq rfl rfl List.prefix_rfl rfl rfl

/-! ## Deeds -/

/-- A call fails nothing and takes nothing from the queue. -/
theorem defers_call (c : Call) (s : Session (θ × List Moment)) : Defers [] s (s.call c).2 := by
  have hissued {t : Session (θ × List Moment)} (hhost : t.host.2 = s.host.2)
      (hdeferred : t.deferred = s.deferred) (houtbound : s.outbound <+: t.outbound)
      (hops : t.operations = s.issue.2.operations) : Defers [] s t :=
    (Defers.issue s).trans (.of_eq hhost hdeferred houtbound hops)
  have hsame : Defers [] s s := .of_eq rfl rfl List.prefix_rfl rfl
  cases c with
  | request r =>
    simp only [call, request]
    split
    · exact hsame
    · unfold exchange
      split
      · exact hsame
      · exact hissued rfl rfl (List.prefix_append ..) rfl
  | reset soft => exact hissued rfl rfl (List.prefix_append ..) rfl
  | reachState ends allowed => exact hissued rfl rfl (List.prefix_append ..) rfl
  | waitFor p window =>
    refine hissued ?_ (install_deferred ..) ?_ (install_operations ..)
    · exact congrArg Prod.snd (install_host ..)
    · exact ⟨[], (List.append_nil _).trans (install_outbound s.issue.2 _).symm⟩

/-- What a deed notes of itself, if it calls nobody back. -/
theorem defers_quiet {d : Deed (θ × List Moment)} (hd : (Licence.chronicled θ).Permits d)
    (hquiet : d.quiet = true) (app : Application (θ × List Moment))
    (s : Session (θ × List Moment)) :
    Defers (d.moments s) s ((Licence.chronicled θ).perform app d s) := by
  have hsame : Defers [] s s := .of_eq rfl rfl List.prefix_rfl rfl
  cases d with
  | call c => exact (defers_call c s).not_noted
  | ask x callback =>
    refine Defers.not_noted (t := (s.ask x callback).2) ?_
    unfold ask
    split
    · exact hsame
    · exact .of_eq rfl rfl (List.prefix_append ..) rfl
  | expire =>
    let fired := { s with timers := (s.timers.expire s.now).2 }
    have hfires : Defers [] s fired := .of_eq rfl rfl List.prefix_rfl rfl
    have hfails : Defers [] fired s.expireTimers :=
      List.foldlRecOn (s.timers.expire s.now).1 _ (motive := Defers [] fired)
        (.of_eq rfl rfl List.prefix_rfl rfl)
        fun t ht op _ => ht.trans (.complete t op (given_error rfl))
    exact ((hfires.trans hfails).trans (.note _ rfl rfl) : Defers [.expired s.now] _ _)
  | next =>
    have hnext : (s.nextOutbound.map Prod.snd).getD s =
        { s with outbound := s.outbound.drop 1 } := by
      unfold nextOutbound
      split
      · rename_i h
        have hdrop : s.outbound.drop 1 = s.outbound := by rw [h]; rfl
        rw [hdrop]
        rfl
      · rename_i f rest h
        have hdrop : s.outbound.drop 1 = rest := by rw [h]; rfl
        rw [hdrop]
        rfl
    simp only [Licence.perform, Deed.perform, hnext]
    refine ⟨rfl, (Option.or_none ..).symm, ⟨[], ?_⟩, fun _ _ => Or.inl⟩
    simp only [Deed.moments, Moment.taken, List.flatMap_cons, List.flatMap_nil, List.append_nil,
      List.take_append_drop]
  | takeAll =>
    refine ⟨rfl, (Option.or_none ..).symm, ⟨[], ?_⟩, fun _ _ => Or.inl⟩
    simp [Moment.taken, Deed.moments, Licence.perform, Deed.perform, takeOutbound]
  | think change =>
    exact Defers.not_noted (t := { s with host := change s.host })
      (.of_eq (hd.1 s.host) rfl List.prefix_rfl rfl)
  | send f => exact Defers.not_noted (t := s.send f) (.of_eq rfl rfl (List.prefix_append ..) rfl)
  | advance | subscribe | disconnect | addHandler =>
    exact Defers.not_noted (.of_eq rfl rfl List.prefix_rfl rfl)
  | deliver | shutdown | emit => cases hquiet

section Callbacks

variable {app : Application (θ × List Moment)}
  (happ : app.Keeps (.chronicled θ) fun s _ t => Suspends s t)
include happ

/-- A dispatch takes nothing away until its end, however many teardowns are asked for. -/
theorem dispatched_defers (f : Frame) (s : Session (θ × List Moment)) :
    (s.dispatched app f).depth = s.depth ∧ ∃ new, Defers new s (s.dispatched app f) := by
  have henter : Defers [] s s.enter := .of_eq rfl rfl List.prefix_rfl rfl
  obtain ⟨hdepth, new, hwalk⟩ :=
    steady_suspends.walk (fun _ h => h) happ f s.chain s.enter (Nat.succ_ne_zero _)
  have hleave (chain : List Handler) (waits : List Wait) (tracked : List Tracked)
      (t : Session (θ × List Moment)) : Defers [] t (t.leave chain waits tracked) := by
    rw [leave_eq]
    exact .of_eq rfl rfl List.prefix_rfl rfl
  refine ⟨?_, _, (henter.trans hwalk).trans (hleave _ _ _ _)⟩
  exact (congrArg Session.depth (leave_eq ..)).trans (congrArg (· - 1) hdepth)

/-- Each deed leaves a teardown deferred, as long as a dispatch is under way. -/
theorem suspends_perform (hlaw : Lawful (.chronicled θ) app) {d : Deed (θ × List Moment)}
    (hd : (Licence.chronicled θ).Permits d) (s : Session (θ × List Moment)) :
    Suspends s ((Licence.chronicled θ).perform app d s) := by
  intro hdepth
  refine ⟨(calm_perform hlaw.calm d s).1, ?_⟩
  cases hquiet : d.quiet with
  | true => exact ⟨_, defers_quiet hd hquiet app s⟩
  | false =>
    cases d with
    | deliver f =>
      obtain ⟨hsame, new, hnew⟩ := dispatched_defers happ f s
      have hdeliver : s.deliver app f = s.dispatched app f :=
        settleDeferred_of_depth (hsame ▸ hdepth) app
      rw [Licence.perform, Deed.perform, hdeliver]
      exact ⟨_, hnew.trans (.note (s.dispatched app f) (m := .delivered f) rfl rfl)⟩
    | shutdown e =>
      have hdeferred : s.shutdown app e = { s with deferred := s.deferred.or (some e) } := by
        rw [shutdown, if_neg hdepth]
        cases s.deferred <;> rfl
      rw [Licence.perform, Deed.perform, hdeferred]
      exact ⟨[.shutdown e], rfl, rfl, ⟨[], by simp [Moment.taken]⟩, fun _ _ => Or.inl⟩
    | emit i =>
      obtain ⟨-, new, hnew⟩ := steady_suspends.emit (fun _ h => h) happ i s hdepth
      exact ⟨new, Defers.not_noted (t := s.emit app i) hnew⟩
    | _ => cases hquiet

end Callbacks

/-- And so does every run. -/
theorem suspends_kept (θ : Type) : (Licence.chronicled θ).Kept fun s _ t => Suspends s t where
  refl _ := .of_eq rfl rfl List.prefix_rfl rfl rfl
  deed hst hlaw happ hd _ := hst.trans (suspends_perform happ hlaw hd _)
  wait _ _ hst _ := hst.trans (.of_defers rfl (.issue _))

end Session

/-! ## Every run in a dispatch -/

/-- In a dispatch no run tears anything down. -/
theorem Uses.suspends {s t : Session (θ × List Moment)} {ws : List Wait}
    (h : Uses (.chronicled θ) s ws t) : s.Suspends t :=
  h.keeps (Session.suspends_kept θ)

theorem Lawful.suspends {app : Application (θ × List Moment)} (happ : Lawful (.chronicled θ) app) :
    app.Keeps (.chronicled θ) fun s _ t => Session.Suspends s t :=
  happ.keeps (Session.suspends_kept θ)

end ZigbeeHost
