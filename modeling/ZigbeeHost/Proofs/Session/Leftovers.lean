import ZigbeeHost.Proofs.Session.Coherence
import ZigbeeHost.Proofs.Session.Listeners
/-!
# Waits that timed out

A wait that timed out stays in the chain until a frame gets to it, which may take any time : the
line may be silent, or frames be taken in front of it. Meanwhile it does no harm.

`Session.erase` drops the handlers whose timer is not armed any more. Sessions that differ in
such leftovers only are alike to whatever is done with them. While a chain is walked or torn
down it is out of the session, so whoever is called is called with the very same session, and a
leftover that has its turn goes without a trace (`Session.walk_erase`, `Session.drain_erase`).
What stands in the chain otherwise, nobody looks at : what is put back or installed goes in front
of it or behind it (`Deed.perform_restore`). And leftovers stay leftovers, since no timer is armed
again (`Session.Steps.ages`).

So a deed done with both of two such sessions shows the same and leaves them alike
(`Session.Alike.perform`), and by induction a sequence of deeds does (`Session.Alike.inert`).
-/

namespace ZigbeeHost

variable {η : Type} {L : Licence η}

/-! ## Handlers whose timer is gone -/

/-- The handler has no timer, or its timer is armed. -/
def Handler.live (timers : Timers OperationId) : Handler → Bool
  | timed timer _ => timers.active timer
  | _ => true

namespace Handler

variable {h : Handler} {s : Session η}

/-- A handler whose timer is gone is removed without a look at the frame. -/
theorem offer_of_not_live (hlive : h.live s.timers = false) (app : Application η) (f : Frame) :
    h.offer app f s = (s, { verdict := .evict }) := by
  cases h with
  | timed id inner => exact offer_timed_of_not_active hlive
  | _ => cases hlive

/-- A handler whose timer is gone is told nothing. -/
theorem abort_of_not_live (hlive : h.live s.timers = false) (app : Application η) (e : Failure) :
    h.abort app e s = s := by
  cases h with
  | timed id inner =>
    have hid : s.timers.active id = false := hlive
    simp [abort, hid]
  | _ => cases hlive

/-- A handler whose timer is gone emits nothing. -/
theorem emission?_of_not_live {timers : Timers OperationId} (hlive : h.live timers = false)
    (f : Frame) : h.emission? f = none := by
  cases h with
  | timed id inner => rfl
  | _ => cases hlive

end Handler

/-- The timers of the handlers were issued. -/
def Issued (timers : Timers OperationId) (hs : List Handler) : Prop :=
  ∀ h ∈ hs, ∀ id, h.timer? = some id → id < timers.fresh

namespace Issued

variable {timers timers' : Timers OperationId} {hs hs' : List Handler}

theorem append (h : Issued timers hs) (h' : Issued timers hs') : Issued timers (hs ++ hs') :=
  fun g hg => (List.mem_append.1 hg).elim (h g) (h' g)

theorem sublist (h : Issued timers hs) (hsub : hs'.Sublist hs) : Issued timers hs' :=
  fun g hg => h g (hsub.subset hg)

theorem mono (h : Issued timers hs) (hle : timers.fresh ≤ timers'.fresh) : Issued timers' hs :=
  fun g hg id hid => Nat.lt_of_lt_of_le (h g hg id hid) hle

/-- A handler whose timer is gone stays so. -/
theorem not_live (h : Issued timers hs) (hages : timers.Ages timers') {g : Handler} (hg : g ∈ hs)
    (hlive : g.live timers = false) : g.live timers' = false := by
  cases g with
  | timed id inner => exact hages.not_active (h _ hg id rfl) hlive
  | _ => cases hlive

/-- Whoever is dropped earlier would be dropped later. -/
theorem filter_filter (h : Issued timers hs) (hages : timers.Ages timers') :
    (hs.filter (Handler.live timers)).filter (Handler.live timers') =
      hs.filter (Handler.live timers') := by
  rw [List.filter_filter]
  refine List.filter_congr fun g hg => ?_
  cases hlive : g.live timers with
  | true => exact Bool.and_true _
  | false => simp [h.not_live hages hg hlive]

end Issued

namespace Session

/-! ## Sessions without leftovers -/

/-- The session without the handlers whose timer is gone. -/
def erase (s : Session η) : Session η :=
  { s with chain := s.chain.filter (Handler.live s.timers) }

/-- The timers in the chain were issued. -/
def Dated (s : Session η) : Prop := Issued s.timers s.chain

/-- A session without its leftovers is dated if the whole session is. -/
theorem Dated.erase {s : Session η} (hs : s.Dated) : s.erase.Dated :=
  Issued.sublist hs List.filter_sublist

/-- Nothing is left over in a session without its leftovers. -/
theorem erase_erase {s : Session η} (hs : s.Dated) : s.erase.erase = s.erase :=
  congrArg (fun chain => { s with chain }) (Issued.filter_filter hs (.refl _))

/-- Leftovers that are put back make no difference. -/
theorem erase_restore_filter {hs : List Handler} {timers : Timers OperationId} {t : Session η}
    (hissued : Issued timers hs) (hages : timers.Ages t.timers) :
    (t.restore (hs.filter (Handler.live timers))).erase = (t.restore hs).erase := by
  have hfilter := hissued.filter_filter hages
  simp only [erase, restore, List.filter_append, hfilter]

/-! ## Nobody looks at what stands in front -/

/-- A session whose handlers are out. -/
def bare (s : Session η) : Session η := { s with chain := [] }

theorem restore_bare (s : Session η) : s.bare.restore s.chain = s := by
  simp [bare, restore]

section Front

variable (c : List Handler) (s : Session η)

theorem complete_restore (op : OperationId) (outcome : Except Failure Outcome) :
    (s.restore c).complete op outcome = (s.complete op outcome).restore c := rfl

theorem addHandler_restore (h : Handler) :
    (s.restore c).addHandler h = (s.addHandler h).restore c := by
  simp only [addHandler, restore, List.append_assoc]

/-- A wait that is installed comes last, whatever stands in front. -/
theorem install_restore (w : Wait) : (s.restore c).install w = (s.install w).restore c := by
  unfold install
  split
  · exact addHandler_restore c s _
  · exact addHandler_restore c { s with timers := (s.timers.arm _ w.operation).2 } _

/-- An expiry looks at no handler. -/
theorem expireTimers_restore : (s.restore c).expireTimers = s.expireTimers.restore c := by
  let timeout (s : Session η) (op : OperationId) := s.complete op (.error .timeout)
  let fired := { s with timers := (s.timers.expire s.now).2 }
  have hfold : (s.timers.expire s.now).1.foldl timeout (fired.restore c) =
      ((s.timers.expire s.now).1.foldl timeout fired).restore c :=
    List.foldl_hom (restore c) fun s op => complete_restore c s op _
  exact hfold

/-- The chain goes back in front of what the callbacks and the waits have added. -/
theorem leave_restore (waits : List Wait) (tracked : List Tracked) :
    s.leave c waits tracked = (s.leave [] waits tracked).restore c := by
  let back := { s with depth := s.depth - 1 }
  have hinstalled : waits.foldl (fun s w => s.install w) (back.restore c) =
      (waits.foldl (fun s w => s.install w) back).restore c :=
    List.foldl_hom (restore c) fun s w => install_restore c s w
  have htrack (s : Session η) (t : Tracked) : (s.restore c).track t = (s.track t).restore c := rfl
  exact (congrArg (tracked.foldl fun s t => s.track t) hinstalled).trans
    (List.foldl_hom (restore c) htrack)

theorem exchange_restore (x : Exchange) :
    (s.restore c).exchange x = ((s.exchange x).1, (s.exchange x).2.restore c) := by
  unfold exchange
  split
  · rfl
  · exact congrArg (fun t => (_, t.send x.frame)) (addHandler_restore c s.issue.2 _)

theorem call_restore (x : Call) :
    (s.restore c).call x = ((s.call x).1, (s.call x).2.restore c) := by
  cases x with
  | request r =>
    have hconfig : (s.restore c).config = s.config := rfl
    simp only [call, request, hconfig]
    cases r.exchange s.config with
    | error e => rfl
    | ok x => exact exchange_restore c s x
  | reset soft => rfl
  | reachState ends allowed =>
    exact congrArg (fun t => (_, send _ t)) (addHandler_restore c s.issue.2 _)
  | waitFor p window => exact congrArg (Prod.mk _) (install_restore c s.issue.2 _)

theorem ask_restore (x : Exchange) (callback : CallbackId) :
    (s.restore c).ask x callback = ((s.ask x callback).1, (s.ask x callback).2.restore c) := by
  unfold ask
  split
  · rfl
  · exact congrArg (fun t => (_, t.send x.frame)) (addHandler_restore c s _)

end Front

end Session

/-- A deed that calls nobody back does not depend on what stands in front. -/
theorem Deed.perform_restore (c : List Handler) (s : Session η) {d : Deed η}
    (hd : d.quiet = true) (app : Application η) :
    d.perform app (s.restore c) = (d.perform app s).restore c := by
  cases d with
  | call x => exact congrArg Prod.snd (Session.call_restore c s x)
  | ask x callback => exact congrArg Prod.snd (Session.ask_restore c s x callback)
  | expire => exact Session.expireTimers_restore c s
  | next =>
    have houtbound : (s.restore c).outbound = s.outbound := rfl
    simp only [perform, Session.nextOutbound, houtbound]
    cases s.outbound <;> rfl
  | addHandler callback permanent => exact Session.addHandler_restore c s _
  | deliver | shutdown | emit => cases hd
  | advance | send | takeAll | subscribe | disconnect | think => rfl

namespace Session

/-! ## The timers in the chain were issued -/

namespace Dated

variable {s : Session η} (hs : s.Dated)
include hs

/-- Handlers that are put back bring timers that were issued. -/
theorem restore {c : List Handler} (hc : Issued s.timers c) : (s.restore c).Dated := hc.append hs

theorem addHandler {h : Handler} (hh : h.timer? = none) : (s.addHandler h).Dated := by
  refine Issued.append hs fun g hg id hid => ?_
  rw [List.mem_singleton.1 hg, hh] at hid
  cases hid

/-- A wait that is installed has a timer that was just issued. -/
theorem install (w : Wait) : (s.install w).Dated := by
  unfold Session.install
  split
  · exact hs.addHandler rfl
  · refine Issued.append (Issued.mono hs (Nat.le_succ _)) fun g hg id hid => ?_
    rw [List.mem_singleton.1 hg] at hid
    cases hid
    exact Nat.lt_succ_self _

end Dated

theorem stable_dated : Stable fun s t : Session η => s.Dated → t.Dated where
  refl _ := id
  trans h h' := h' ∘ h
  complete s op outcome h := by
    unfold Dated
    rwa [complete_chain, complete_timers]
  subscribe _ _ _ := id
  disconnect _ _ := id
  retain _ _ := id
  disarm _ _ := id
  running _ _ := id

namespace Dated

variable {s : Session η} (hs : s.Dated)
include hs

theorem leave {c : List Handler} (hc : Issued s.timers c) (waits : List Wait)
    (tracked : List Tracked) : (s.leave c waits tracked).Dated := by
  have hinstalled := stable_dated.foldl (fun s w (h : s.Dated) => h.install w) waits
    { s.restore c with depth := s.depth - 1 } (hs.restore hc)
  exact stable_dated.foldl (f := fun s t => s.track t) (fun _ _ => id) tracked _ hinstalled

theorem call (c : Call) : (s.call c).2.Dated := by
  have hissue : s.issue.2.Dated := hs
  cases c with
  | request r =>
    simp only [Session.call, request]
    split
    · exact hs
    · unfold Session.exchange
      split
      · exact hs
      · exact hissue.addHandler rfl
  | reset soft => exact hs
  | reachState ends allowed => exact hissue.addHandler rfl
  | waitFor p window => exact hissue.install _

section Callbacks

variable {app : Application η} (hlaw : Lawful L app)
  (happ : app.Keeps L fun s _ t => s.Dated → t.Dated)
include hlaw happ

theorem shutdown (e : Failure) : (s.shutdown app e).Dated := by
  unfold Session.shutdown
  split
  · let cleared : Session η := { s with chain := [], tracked := [], outbound := [] }
    have hcleared : cleared.Dated := nofun
    have hsteps : Steps cleared _ := (stable_steps.drain hlaw.steps e s.chain cleared).trans
      (stable_steps.abortTracked e s.tracked _)
    have hdrained := stable_dated.abortTracked e s.tracked _
      (stable_dated.drain happ e s.chain cleared hcleared)
    refine hdrained.restore ((Issued.sublist hs ?_).mono hsteps.ages.fresh_le)
    rw [Chain.drain_fst]
    exact List.filter_sublist
  · exact hs

theorem dispatched (f : Frame) : (s.dispatched app f).Dated := by
  have hentered : s.enter.Dated := nofun
  have hages := (stable_steps.walk hlaw.steps f s.chain s.enter).ages
  have hsub : (s.enter.walk app f s.chain).1.Sublist s.chain := Chain.dispatch_sublist ..
  have hkept := (Issued.sublist hs hsub).mono hages.fresh_le
  exact (stable_dated.walk happ f s.chain s.enter hentered).leave hkept _ _

theorem deliver (f : Frame) : (s.deliver app f).Dated := by
  have hleft := hs.dispatched hlaw happ f
  rw [deliver_eq, settleDeferred]
  split
  · exact shutdown (s := { s.dispatched app f with deferred := none }) hleft hlaw happ _
  · exact hleft

/-- Every deed leaves a dated session. -/
theorem perform (d : Deed η) : (d.perform app s).Dated := by
  cases d with
  | call c => exact hs.call c
  | ask x callback =>
    simp only [Deed.perform, ask]
    split
    · exact hs
    · exact hs.addHandler rfl
  | deliver f => exact hs.deliver hlaw happ f
  | expire =>
    rw [Deed.perform, expireTimers_eq]
    exact hs
  | shutdown e => exact hs.shutdown hlaw happ e
  | next =>
    simp only [Deed.perform, nextOutbound]
    split
    · exact hs
    · exact hs
  | addHandler callback permanent => exact hs.addHandler rfl
  | emit i => exact stable_dated.emit happ i s hs
  | advance | send | takeAll | subscribe | disconnect | think => exact hs

end Callbacks

end Dated

theorem dated_kept (L : Licence η) : L.Kept fun s _ t => s.Dated → t.Dated where
  refl _ := id
  deed hst hlaw happ _ _ hs := (hst hs).perform hlaw happ _
  wait _ _ hst _ := hst

end Session

theorem Lawful.dated {app : Application η} (happ : Lawful L app) :
    app.Keeps L fun s _ t => s.Dated → t.Dated :=
  happ.keeps (Session.dated_kept L)

/-- The timers in the chain of a session that an application reaches were issued. -/
theorem Reachable.dated {s : Session η} (hs : Reachable L s) : s.Dated :=
  fun h hh id hid => hs.sound.timers.timer_lt id (List.mem_filterMap.2 ⟨h, hh, hid⟩)

/-! ## Leftovers go without a trace -/

namespace Session

variable {app : Application η} {s : Session η}

/-- A handler whose timer is gone at the start of a walk leaves when it has its turn. -/
theorem turn_of_not_live {hs : List Handler} (hissued : Issued s.timers hs) (f : Frame)
    {h : Handler} (hh : h ∈ hs) (hlive : h.live s.timers = false)
    (st : Session η × List Wait × List Tracked) (hages : s.timers.Ages st.1.timers) :
    turn app f h st = (st, .evict) := by
  have hoffer := Handler.offer_of_not_live (hissued.not_live hages hh hlive) app f
  simp only [turn, hoffer, List.append_nil]

variable (hlaw : Lawful L app)
include hlaw

theorem ages_turn (f : Frame) (h : Handler) (st : Session η × List Wait × List Tracked)
    (hages : s.timers.Ages st.1.timers) : s.timers.Ages (turn app f h st).1.1.timers :=
  hages.trans (stable_steps.steady.offer (fun _ _ => trivial) hlaw.steps f h st.1).ages

variable (hs : s.Dated)
include hs

/-- A walk without the leftovers goes like one with them, and hands the same session on. -/
theorem walk_erase (f : Frame) : s.enter.walk app f s.erase.chain =
    ((s.enter.walk app f s.chain).1.filter (Handler.live s.timers),
      (s.enter.walk app f s.chain).2) :=
  Chain.dispatch_filter (ages_turn hlaw f) s.chain (s.enter, [], []) (.refl _)
    fun _ hh hlive => turn_of_not_live hs f hh hlive

/-- A frame makes the same handlers emit. -/
theorem emissions_erase (f : Frame) : s.erase.emissions app f = s.emissions app f := by
  have hoffered : s.erase.offered app f = (s.offered app f).filter (Handler.live s.timers) :=
    Chain.offered_filter (ages_turn hlaw f) s.chain (s.enter, [], []) (.refl _)
      fun _ hh hlive => turn_of_not_live hs f hh hlive
  rw [emissions, hoffered, List.filterMap_filter, emissions]
  refine List.filterMap_congr fun h _ => ?_
  cases hlive : h.live s.timers with
  | true => rfl
  | false => exact (Handler.emission?_of_not_live hlive f).symm

/-- A dispatch without the leftovers goes like one with them. -/
theorem dispatched_erase (f : Frame) :
    (s.erase.dispatched app f).erase = (s.dispatched app f).erase := by
  have hsub : (s.enter.walk app f s.chain).1.Sublist s.chain := Chain.dispatch_sublist ..
  have hwalked : Steps s.enter (s.enter.walk app f s.chain).2.1.1 :=
    stable_steps.walk hlaw.steps f s.chain s.enter
  have hwalk := walk_erase hlaw hs f
  rcases hw : s.enter.walk app f s.chain with ⟨kept, ⟨walked, waits, tracked⟩, stopped⟩
  rw [hw] at hsub hwalked hwalk
  have hdispatched : s.dispatched app f = (walked.leave [] waits tracked).restore kept := by
    rw [dispatched, hw]
    exact leave_restore ..
  have herase : s.erase.dispatched app f =
      (walked.leave [] waits tracked).restore (kept.filter (Handler.live s.timers)) := by
    rw [dispatched, show s.erase.enter = s.enter from rfl, hwalk]
    exact leave_restore ..
  have hsteps : Steps s.enter (walked.leave [] waits tracked) := hwalked.trans (steps_leave ..)
  rw [hdispatched, herase]
  exact erase_restore_filter (Issued.sublist hs hsub) hsteps.ages

/-- A chain without the leftovers is torn down like one with them. -/
theorem drain_erase (e : Failure) {t : Session η} (hages : s.timers.Ages t.timers) :
    Chain.drain Handler.permanent (Handler.abort app e) s.erase.chain t =
      ((Chain.drain Handler.permanent (Handler.abort app e) s.chain t).1.filter
          (Handler.live s.timers),
        (Chain.drain Handler.permanent (Handler.abort app e) s.chain t).2) :=
  Chain.drain_filter (I := fun t : Session η => s.timers.Ages t.timers)
    (fun h t hages => hages.trans (stable_steps.abort hlaw.steps e h t).ages) s.chain t hages
    fun _ hh hlive _ hages => Handler.abort_of_not_live (hs.not_live hages hh hlive) app e

/-- A teardown without the leftovers goes like one with them. -/
theorem tearDown_erase (e : Failure) :
    (s.erase.tearDown app e).erase = (s.tearDown app e).erase := by
  let cleared : Session η := { s with chain := [], tracked := [], outbound := [] }
  let drained := Chain.drain Handler.permanent (Handler.abort app e) s.chain cleared
  have hdrain : Chain.drain Handler.permanent (Handler.abort app e) s.erase.chain cleared =
      (drained.1.filter (Handler.live s.timers), drained.2) := drain_erase hlaw hs e (.refl _)
  let failed (t : Session η) : Session η := s.tracked.foldl (abortTracked e) t
  have herase : s.erase.tearDown app e =
      (failed drained.2).restore (drained.1.filter (Handler.live s.timers)) :=
    congrArg (fun d : List Handler × Session η => (failed d.2).restore d.1) hdrain
  have hsub : drained.1.Sublist s.chain :=
    (Chain.drain_fst Handler.permanent (Handler.abort app e) s.chain cleared).symm ▸
      List.filter_sublist
  have hsteps : Steps cleared (failed drained.2) :=
    (stable_steps.drain hlaw.steps e s.chain cleared).trans (stable_steps.abortTracked e _ _)
  rw [herase]
  exact erase_restore_filter (Issued.sublist hs hsub) hsteps.ages

theorem shutdown_erase (e : Failure) :
    (s.erase.shutdown app e).erase = (s.shutdown app e).erase := by
  have hdepth : s.erase.depth = s.depth := rfl
  unfold shutdown
  rw [hdepth]
  split
  · exact tearDown_erase hlaw hs e
  · exact erase_erase (s := { s with deferred := s.deferred <|> some e }) hs

theorem settleDeferred_erase :
    (s.erase.settleDeferred app).erase = (s.settleDeferred app).erase := by
  by_cases hdepth : s.depth = 0
  · cases hdeferred : s.deferred with
    | none =>
      rw [settleDeferred_of_none hdeferred, settleDeferred_of_none (s := s.erase) hdeferred]
      exact erase_erase hs
    | some e =>
      have hsettles (t : Session η) (hdepth : t.depth = 0) (hdeferred : t.deferred = some e) :
          t.settleDeferred app = { t with deferred := none }.shutdown app e := by
        simp only [settleDeferred, hdepth, hdeferred]
      rw [hsettles s hdepth hdeferred, hsettles s.erase hdepth hdeferred]
      exact shutdown_erase (s := { s with deferred := none }) hlaw hs e
  · rw [settleDeferred_of_depth hdepth, settleDeferred_of_depth (s := s.erase) hdepth]
    exact erase_erase hs

/-- A delivery without the leftovers goes like one with them. -/
theorem deliver_erase (f : Frame) : (s.erase.deliver app f).erase = (s.deliver app f).erase := by
  have hdated := hs.dispatched hlaw hlaw.dated f
  have hdated' := hs.erase.dispatched hlaw hlaw.dated f
  calc ((s.erase.dispatched app f).settleDeferred app).erase
    _ = ((s.erase.dispatched app f).erase.settleDeferred app).erase :=
        (settleDeferred_erase hlaw hdated').symm
    _ = ((s.dispatched app f).erase.settleDeferred app).erase := by
        rw [dispatched_erase hlaw hs f]
    _ = ((s.dispatched app f).settleDeferred app).erase := settleDeferred_erase hlaw hdated

/-- A deed does the same without the leftovers. An emission is no such deed, since it calls
subscribers while the chain is in. -/
theorem perform_erase {d : Deed η} (hemit : ∀ i, d ≠ .emit i) :
    (d.perform app s.erase).erase = (d.perform app s).erase := by
  cases hquiet : d.quiet with
  | true =>
    have hfront (c : List Handler) :
        d.perform app (s.bare.restore c) = (d.perform app s.bare).restore c :=
      Deed.perform_restore c s.bare hquiet app
    have hsteps : Steps s.bare (d.perform app s.bare) := steps_perform hlaw.steps d s.bare
    have hperform := hfront s.chain
    have herase := hfront s.erase.chain
    rw [restore_bare] at hperform
    rw [show s.bare.restore s.erase.chain = s.erase from restore_bare s.erase] at herase
    rw [hperform, herase]
    exact erase_restore_filter hs hsteps.ages
  | false =>
    cases d with
    | deliver f => exact deliver_erase hlaw hs f
    | shutdown e => exact shutdown_erase hlaw hs e
    | emit i => exact absurd rfl (hemit i)
    | _ => cases hquiet

end Session

/-! ## Sequences of deeds -/

/-- What shows of a deed while it is done. -/
inductive Deed.Sight (η : Type) where
  /-- A call starts an operation, or is refused. -/
  | started (operation : Except Failure OperationId)
  /-- A question is refused, or not. -/
  | asked (refusal : Option Failure)
  /-- A frame makes handlers emit, they make something of the session, and one stops the frame
  or none does. -/
  | dispatched (emitted : List Indication) (walked : Session η) (stopped : Bool)
  /-- Frames are taken from the queue. -/
  | taken (frames : List Frame)
  | connected (connection : Connection)
  | nothing

/-- What shows of a deed of a session that calls `app` back. -/
def Deed.sight (app : Application η) (s : Session η) : Deed η → Deed.Sight η
  | call c => .started (s.call c).1
  | ask x callback => .asked (s.ask x callback).1
  | deliver f =>
    let walk := s.enter.walk app f s.chain
    .dispatched (s.emissions app f) walk.2.1.1 walk.2.2
  | next => .taken (s.nextOutbound.map Prod.fst).toList
  | takeAll => .taken s.takeOutbound.1
  | subscribe event callback => .connected (s.subscribe event (.application callback)).1
  | _ => .nothing

namespace Session

/-- The session after deeds, each with the application that it calls back. -/
def after (s : Session η) (ds : List (Application η × Deed η)) : Session η :=
  ds.foldl (fun s d => d.2.perform d.1 s) s

/-- What shows of deeds. -/
def sights : Session η → List (Application η × Deed η) → List (Deed.Sight η)
  | _, [] => []
  | s, d :: ds => d.2.sight d.1 s :: sights (d.2.perform d.1 s) ds

/-- What a client sees of a deed does not depend on the leftovers. -/
theorem sight_erase {app : Application η} (hlaw : Lawful L app) {s : Session η} (hs : s.Dated)
    (d : Deed η) : d.sight app s.erase = d.sight app s := by
  have hin : s.bare.restore s.chain = s := restore_bare s
  have hin' : s.bare.restore s.erase.chain = s.erase := restore_bare s.erase
  cases d with
  | call c =>
    have hcall := call_restore s.chain s.bare c
    have hcall' := call_restore s.erase.chain s.bare c
    rw [hin] at hcall
    rw [hin'] at hcall'
    simp only [Deed.sight, hcall, hcall']
  | ask x callback =>
    have hask := ask_restore s.chain s.bare x callback
    have hask' := ask_restore s.erase.chain s.bare x callback
    rw [hin] at hask
    rw [hin'] at hask'
    simp only [Deed.sight, hask, hask']
  | deliver f =>
    have henter : s.erase.enter = s.enter := rfl
    simp only [Deed.sight, henter, walk_erase hlaw hs f, emissions_erase hlaw hs f]
  | next =>
    have houtbound : s.erase.outbound = s.outbound := rfl
    simp only [Deed.sight, nextOutbound, houtbound]
    cases s.outbound <;> rfl
  | _ => rfl

/-- Sessions that differ in leftovers only. -/
structure Alike (s s' : Session η) : Prop where
  dated : s.Dated
  dated' : s'.Dated
  erase_eq : s.erase = s'.erase

namespace Alike

variable {s s' : Session η} (h : s.Alike s') {app : Application η} (hlaw : Lawful L app)
include h

section Deed

include hlaw

/-- A deed done with sessions that differ in leftovers shows the same. -/
theorem sight (d : Deed η) : d.sight app s = d.sight app s' := by
  rw [← sight_erase hlaw h.dated d, ← sight_erase hlaw h.dated' d, h.erase_eq]

/-- A deed leads from sessions that differ in leftovers to such sessions. -/
theorem perform {d : Deed η} (hemit : ∀ i, d ≠ .emit i) :
    (d.perform app s).Alike (d.perform app s') where
  dated := h.dated.perform hlaw hlaw.dated d
  dated' := h.dated'.perform hlaw hlaw.dated d
  erase_eq := by
    rw [← perform_erase hlaw h.dated hemit, ← perform_erase hlaw h.dated' hemit, h.erase_eq]

end Deed

/-- A run of deeds leads from sessions that differ in leftovers to such sessions, and all that
shows of it is the same. -/
theorem run {ds : List (Application η × Deed η)}
    (hds : ∀ d ∈ ds, Lawful L d.1 ∧ ∀ i, d.2 ≠ .emit i) :
    s.sights ds = s'.sights ds ∧ (s.after ds).Alike (s'.after ds) := by
  induction ds generalizing s s' with
  | nil => exact ⟨rfl, h⟩
  | cons d ds ih =>
    obtain ⟨hlaw, hemit⟩ := hds d List.mem_cons_self
    obtain ⟨hsights, hafter⟩ := ih (h.perform hlaw hemit)
      fun d hd => hds d (List.mem_cons_of_mem _ hd)
    exact ⟨congrArg₂ List.cons (h.sight hlaw d.2) hsights, hafter⟩

end Alike

/-- **Waits that timed out are inert.** Do anything with sessions that differ in leftovers only :
have frames delivered, make calls, move the clock and let timers expire, tear the session down.
Calls start the same operations; frames make the handlers emit the same indications and do the
same with the session, dispatches inside of dispatches included, and are stopped or not;
operations have the same outcomes, the same frames are queued and the same timers armed, and the
application ends in the same state. And again the sessions differ in leftovers only. -/
theorem leftovers_inert {s s' : Session η} (hs : s.Dated) (hs' : s'.Dated)
    (h : s.erase = s'.erase) {ds : List (Application η × Deed η)}
    (hds : ∀ d ∈ ds, Lawful L d.1 ∧ ∀ i, d.2 ≠ .emit i) :
    s.sights ds = s'.sights ds ∧
      (s.after ds).operations = (s'.after ds).operations ∧
      (s.after ds).outbound = (s'.after ds).outbound ∧
      (s.after ds).timers = (s'.after ds).timers ∧
      (s.after ds).host = (s'.after ds).host ∧
      (s.after ds).erase = (s'.after ds).erase := by
  have halike : s.Alike s' := ⟨hs, hs', h⟩
  obtain ⟨hsights, hafter⟩ := halike.run hds
  have hview {α : Type} (view : Session η → α) (hview : ∀ t, view t.erase = view t) :
      view (s.after ds) = view (s'.after ds) := by
    rw [← hview, hafter.erase_eq, hview]
  exact ⟨hsights, hview operations fun _ => rfl, hview outbound fun _ => rfl,
    hview timers fun _ => rfl, hview host fun _ => rfl, hafter.erase_eq⟩

/-- A wait that timed out stands in front of another for the same frame, which takes it. -/
theorem overdue_inert :
    let s := Session.overdue.expireTimers
    let ds : List (Application Unit × Deed Unit) :=
      [(.silent, .call (.waitFor ⟨.srsp, ⟨.sys, 0x01⟩, []⟩ none)), (.silent, .deliver pong)]
    s.erase.chain.length < s.chain.length ∧
      (s.after ds).operations[1]? = some (some (.ok (.payload [0x59, 0x01]))) := by
  intro s ds
  have hexpire : Session.overdue.timers.expire Session.overdue.now = ([0], ⟨[], 1⟩) := by
    simp [overdue, waitFor, issue, install, addHandler, advance, start, Timers.arm, Timers.expire,
      Timers.due]
  have hs : s = { Session.overdue with
      timers := ⟨[], 1⟩, operations := #[some (.error .timeout)] } := by
    simp only [s, expireTimers, hexpire]
    rfl
  have hreachable : Reachable .facade s :=
    ⟨{}, (), Uses.overdue.deed (.silent fun _ => trivial) (d := .expire) ⟨trivial, trivial⟩ trivial⟩
  have hdated := hreachable.dated
  have hds : ∀ d ∈ ds, Lawful (.facade (η := Unit)) d.1 ∧ ∀ i, d.2 ≠ .emit i := by
    simp [ds, Lawful.silent, Licence.facade]
  obtain ⟨-, hoperations, -⟩ := leftovers_inert hdated hdated.erase (erase_erase hdated).symm hds
  rw [hoperations, hs]
  exact ⟨by decide, rfl⟩

end Session

end ZigbeeHost
