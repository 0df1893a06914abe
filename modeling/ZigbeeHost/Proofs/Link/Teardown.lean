import Mathlib.Control.Monad.Basic
import ZigbeeHost.Proofs.Link.Writing
import ZigbeeHost.Proofs.Session.Stable
/-!
# What is written after a teardown

A teardown empties the queue of a session, so what a link takes from the queue later was
queued later. To say so without counting frames, some frames are marked. If neither the
application nor its callbacks queue a marked frame any more, then after a teardown none is
taken, and what is written is the rest of the frame in transit and unmarked frames
(`Journal.written_since_teardown`). It does not matter who tore the session down : the
application, a dispatch that was asked to, or the link when its line failed.

The frame in transit belongs to the link and not to the session. A teardown leaves it there
even if none of it was written yet (`Journal.written_though_failed`).
-/

namespace ZigbeeHost

variable {η : Type} {marked : Frame → Prop}

namespace Session

/-! ## Queueing no marked frame -/

/-- From `s` to `t` no marked frame was queued. The dispatches under way are the same. -/
structure Spares (marked : Frame → Prop) (s t : Session η) : Prop where
  depth : t.depth = s.depth
  outbound : ∀ f ∈ t.outbound, marked f → f ∈ s.outbound

/-- No marked frame is queued. -/
def Spared (marked : Frame → Prop) (s : Session η) : Prop := ∀ f ∈ s.outbound, ¬marked f

variable {s t u : Session η}

/-- What leaves the depth and the queue alone queues nothing that is marked. -/
theorem Spares.of_eq (hdepth : t.depth = s.depth) (houtbound : t.outbound = s.outbound) :
    Spares marked s t :=
  ⟨hdepth, fun _ hf _ => houtbound ▸ hf⟩

theorem Spares.refl (s : Session η) : Spares marked s s := .of_eq rfl rfl

theorem Spares.trans (h : Spares marked s t) (h' : Spares marked t u) : Spares marked s u :=
  ⟨h'.depth.trans h.depth, fun f hf hm => h.outbound f (h'.outbound f hf hm) hm⟩

/-- A queue that has nothing marked stays so. -/
theorem Spared.of_spares (h : s.Spared marked) (hst : Spares marked s t) : t.Spared marked :=
  fun f hf hm => h f (hst.outbound f hf hm) hm

theorem stable_spares : Stable (Spares (η := η) marked) where
  refl := Spares.refl
  trans := Spares.trans
  complete _ _ _ := .of_eq (complete_depth ..) (complete_outbound ..)
  subscribe _ _ _ := .of_eq rfl rfl
  disconnect _ _ := .of_eq rfl rfl
  retain _ _ := .of_eq rfl rfl
  disarm _ _ := .of_eq rfl rfl
  running _ _ := .of_eq rfl rfl

theorem spares_install (s : Session η) (w : Wait) : Spares marked s (s.install w) :=
  .of_eq (install_depth ..) (install_outbound ..)

/-- At the end of a dispatch nothing is queued. -/
theorem spares_leave (chain : List Handler) (waits : List Wait) (tracked : List Tracked)
    (s : Session η) :
    Spares marked { s with depth := s.depth - 1 } (s.leave chain waits tracked) := by
  have hback : Spares marked { s with depth := s.depth - 1 }
      { s.restore chain with depth := s.depth - 1 } := .of_eq rfl rfl
  have htrack (s : Session η) (t : Tracked) : Spares marked s (s.track t) := .of_eq rfl rfl
  exact hback.trans ((stable_spares.foldl spares_install waits _).trans
    (stable_spares.foldl htrack tracked _))

theorem spares_expireTimers (s : Session η) : Spares marked s s.expireTimers := by
  rw [expireTimers_eq]
  exact .of_eq rfl rfl

/-- An application that does nothing queues nothing. -/
theorem silent_spares : (Application.silent : Application η).Keeps {}
    fun s _ t => Spares marked s t where
  hear _ _ _ := .refl
  offer _ _ := .refl
  offer_tracked _ _ _ := rfl
  offer_verdict _ _ _ := trivial
  answered _ _ := .refl
  answered_tracked _ _ _ := rfl
  abort _ _ := .refl

/-! ## Teardowns -/

variable {app : Application η} (happ : app.Keeps {} fun s _ t => Spares marked s t)
include happ

/-- A teardown empties the queue, and its callbacks queue no marked frame. -/
theorem spared_tearDown (e : Failure) (s : Session η) :
    (s.tearDown app e).Spared marked ∧ (s.tearDown app e).depth = s.depth := by
  let cleared := { s with chain := [], tracked := [], outbound := [] }
  have hcleared : cleared.Spared marked := nofun
  have hrest : Spares marked cleared (s.tearDown app e) :=
    (stable_spares.drain happ e s.chain cleared).trans
      ((stable_spares.abortTracked e s.tracked _).trans (.of_eq rfl rfl))
  exact ⟨hcleared.of_spares hrest, hrest.depth⟩

/-- After a teardown nothing marked is queued. -/
theorem spared_shutdown (e : Failure) (hdepth : s.depth = 0) :
    (s.shutdown app e).Spared marked := by
  rw [shutdown, if_pos hdepth]
  exact (spared_tearDown happ e s).1

/-- A teardown queues nothing that is marked. -/
theorem spares_shutdown (e : Failure) (s : Session η) : Spares marked s (s.shutdown app e) := by
  unfold shutdown
  split
  · obtain ⟨hspared, hdepth⟩ := spared_tearDown happ e s
    exact ⟨hdepth, fun f hf hm => absurd hm (hspared f hf)⟩
  · exact .of_eq rfl rfl

/-- A dispatch queues nothing that is marked, if callbacks do not. -/
theorem spares_dispatched (f : Frame) (s : Session η) : Spares marked s (s.dispatched app f) := by
  have hwalk := stable_spares.walk happ f s.chain s.enter
  unfold dispatched
  generalize walk app f s.chain s.enter = w at hwalk
  obtain ⟨chain, ⟨walked, waits, tracked⟩, stopped⟩ := w
  have hback : Spares marked s { walked with depth := walked.depth - 1 } :=
    ⟨congrArg (· - 1) hwalk.depth, hwalk.outbound⟩
  exact hback.trans (spares_leave chain waits tracked walked)

/-- And so it is with a delivery. -/
theorem spares_deliver (f : Frame) (s : Session η) : Spares marked s (s.deliver app f) := by
  rw [deliver_eq]
  refine (spares_dispatched happ f s).trans ?_
  unfold settleDeferred
  split
  · have hcleared : Spares marked (s.dispatched app f)
        { s.dispatched app f with deferred := none } := .of_eq rfl rfl
    exact hcleared.trans (spares_shutdown happ _ _)
  · exact .refl _

/-- A dispatch that was asked for a teardown ends with it. -/
theorem spared_deliver {f : Frame} (hdepth : s.depth = 0)
    (hdeferred : (s.dispatched app f).deferred ≠ none) : (s.deliver app f).Spared marked := by
  have hdone : (s.dispatched app f).depth = 0 := (spares_dispatched happ f s).depth.trans hdepth
  rw [deliver_eq]
  unfold settleDeferred
  split
  · exact spared_shutdown happ _ hdone
  · rename_i hneither
    obtain ⟨e, he⟩ := Option.ne_none_iff_exists'.1 hdeferred
    exact absurd he (hneither e hdone)

end Session

/-! ## Rounds -/

namespace Link

variable {app : Application η} (happ : app.Keeps {} fun s _ t => Session.Spares marked s t)
include happ

/-- To receive queues nothing that is marked. -/
theorem spares_receive (link : Link) (s : Session η) :
    Session.Spares marked s (link.receive app s).2.2 := by
  unfold receive
  simp only
  split
  · exact Session.spares_deliver happ _ s
  · exact .refl s
  · exact .refl s

omit happ in
/-- To send takes from the queue only. -/
theorem spares_send (link : Link) (busy : Bool) (s : Session η) :
    Session.Spares marked s { s.expireTimers with
      outbound := (link.send busy s.expireTimers.outbound).queue } := by
  have hqueue := (link.send_balances busy s.expireTimers.outbound).queue
  refine (Session.spares_expireTimers s).trans ⟨rfl, fun f hf _ => ?_⟩
  rw [hqueue]
  exact List.mem_append_right _ hf

/-- The second half of a round queues no marked frame, and if it fails, none is left. -/
theorem spares_finish (link : Link) (busy : Bool) (s : Session η) :
    Session.Spares marked s (link.finish app busy s).2.2 ∧
      ∀ e, s.depth = 0 → (link.finish app busy s).1 = .error e →
        (link.finish app busy s).2.2.Spared marked := by
  have hsent := @spares_send _ marked link busy s
  unfold finish
  simp only
  split
  · exact ⟨hsent, nofun⟩
  · refine ⟨hsent.trans (Session.spares_shutdown happ _ _), fun e hdepth _ => ?_⟩
    exact Session.spared_shutdown happ _ (hsent.depth.trans hdepth)

/-- A round queues nothing that is marked, and one that fails tears the session down. -/
theorem spares_runOnce (link : Link) (s : Session η) :
    Session.Spares marked s (link.runOnce app s).2.2 ∧
      ∀ e, s.depth = 0 → (link.runOnce app s).1 = .error e →
        (link.runOnce app s).2.2.Spared marked := by
  have hreceive := spares_receive happ link s
  unfold runOnce
  split
  · rename_i busy link' s' hanswer
    rw [hanswer] at hreceive
    obtain ⟨hfinish, hfails⟩ := spares_finish happ link' busy s'
    exact ⟨hreceive.trans hfinish, fun e hdepth => hfails e (hreceive.depth.trans hdepth)⟩
  · rename_i e link' s' hanswer
    rw [hanswer] at hreceive
    refine ⟨hreceive.trans (Session.spares_shutdown happ _ _), fun _ hdepth _ => ?_⟩
    exact Session.spared_shutdown happ _ (hreceive.depth.trans hdepth)

end Link

/-- A session right after a teardown : the application asked for it, or a dispatch was asked
for it and is done, or a round failed. -/
inductive Session.AfterTeardown (app : Application η) : Session η → Prop
  | shutdown {s : Session η} (e : Failure) : s.depth = 0 → AfterTeardown app (s.shutdown app e)
  | deferred {s : Session η} {f : Frame} : s.depth = 0 →
      (s.dispatched app f).deferred ≠ none → AfterTeardown app (s.deliver app f)
  | failed {link : Link} {s : Session η} {e : Failure} : s.depth = 0 →
      (link.runOnce app s).1 = .error e → AfterTeardown app (link.runOnce app s).2.2

/-- After a teardown the queue has nothing that is marked. -/
theorem Session.AfterTeardown.spared {app : Application η} {s : Session η} (h : AfterTeardown app s)
    (happ : app.Keeps {} fun s _ t => Session.Spares marked s t) : s.Spared marked := by
  cases h with
  | shutdown e hdepth => exact spared_shutdown happ e hdepth
  | deferred hdepth hdeferred => exact spared_deliver happ hdepth hdeferred
  | failed hdepth he => exact (Link.spares_runOnce happ _ _).2 _ hdepth he

/-! ## Runs -/

/-- Nobody queues a marked frame in the step. -/
def LinkStep.Spares (marked : Frame → Prop) : LinkStep η → Prop
  | .line _ => True
  | .use change => ∀ s, Session.Spares marked s (change s)
  | .round app | .finish app _ => app.Keeps {} fun s _ t => Session.Spares marked s t

namespace Journal

/-- No marked frame is taken by the second half of a round, if none is queued. -/
theorem not_marked_of_finish {j : Journal η} (hj : j.session.Spared marked) (busy : Bool) :
    ∀ push ∈ (j.link.send busy j.session.expireTimers.outbound).pushed, ¬marked push.1 := by
  have hqueue := (j.link.send_balances busy j.session.expireTimers.outbound).queue
  intro push hp
  refine hj.of_spares (Session.spares_expireTimers j.session) push.1 ?_
  rw [hqueue]
  exact List.mem_append_left _ (List.mem_map_of_mem hp)

/-- A step takes no marked frame, and leaves none queued. -/
theorem step_spares {j : Journal η} (hj : j.session.Spared marked) {step : LinkStep η}
    (hstep : step.Spares marked) :
    (j.step step).session.Spared marked ∧
      ∃ new, Extends new j (j.step step) ∧ ∀ push ∈ new, ¬marked push.1 := by
  cases step with
  | line step =>
    obtain ⟨new, hnew⟩ := step_extends j (.line step)
    have hnone : new = [] := List.self_eq_append_right.1 hnew.pushed
    exact ⟨hj, new, hnew, hnone ▸ nofun⟩
  | use change =>
    exact ⟨hj.of_spares (hstep j.session), [], .of_eq rfl rfl, nofun⟩
  | round app =>
    have hspared := hj.of_spares (Link.spares_runOnce hstep j.link j.session).1
    refine ⟨hspared, ?_⟩
    rcases hreceive : j.link.receive app j.session with ⟨answer, link, s⟩
    match answer with
    | .ok busy =>
      have hs := hj.of_spares (Link.spares_receive hstep j.link j.session)
      rw [hreceive] at hs
      rw [step_round_of_ok hreceive]
      exact ⟨_, .of_receive hreceive (finish_extends _ app busy), not_marked_of_finish hs busy⟩
    | .error e =>
      rw [step_round_of_error hreceive]
      exact ⟨[], .of_receive hreceive (.refl _), nofun⟩
  | finish app busy =>
    have hspared := hj.of_spares (Link.spares_finish hstep j.link busy j.session).1
    exact ⟨hspared, _, finish_extends j app busy, not_marked_of_finish hj busy⟩

/-- From then on nothing marked is pushed to the buffer. -/
theorem run_spares {j : Journal η} (hj : j.session.Spared marked) {steps : List (LinkStep η)}
    (hsteps : ∀ step ∈ steps, step.Spares marked) :
    ∃ new, Extends new j (j.run steps) ∧ ∀ push ∈ new, ¬marked push.1 := by
  induction steps generalizing j with
  | nil => exact ⟨[], .refl j, nofun⟩
  | cons step steps ih =>
    obtain ⟨hstep, hrest⟩ := List.forall_mem_cons.1 hsteps
    obtain ⟨hspared, new, hnew, hmarked⟩ := step_spares hj hstep
    obtain ⟨new', hnew', hmarked'⟩ := ih hspared hrest
    refine ⟨new ++ new', hnew.trans hnew', fun push hp => ?_⟩
    exact (List.mem_append.1 hp).elim (hmarked push) (hmarked' push)

/-- After a teardown, with nobody queueing a marked frame any more, no marked frame is taken from
the queue, though any were queued before. What is written is the rest of the frame in transit
and then frames that are not marked. -/
theorem written_since_teardown {app : Application η}
    (happ : app.Keeps {} fun s _ t => Session.Spares marked s t) {j : Journal η}
    (htorn : Session.AfterTeardown app j.session) {steps : List (LinkStep η)}
    (hsteps : ∀ step ∈ steps, step.Spares marked) :
    ∃ new, (j.run steps).pushed = j.pushed ++ new ∧ (∀ push ∈ new, ¬marked push.1) ∧
      (j.run steps).written ++ (j.run steps).link.outbound.unsent =
        (j.written ++ j.link.outbound.unsent) ++ wires (new.map Prod.fst) := by
  obtain ⟨new, hnew, hmarked⟩ := run_spares (htorn.spared happ) hsteps
  exact ⟨new, hnew.pushed, hmarked, hnew.balance⟩

/-- The request frame of a ping. -/
def ping : Frame := ⟨.sreq, ⟨.sys, 0x01⟩, []⟩

/-- The session of a ping was torn down before a round, with the ping in its queue. -/
def tornDown : Journal Unit := start (Session.pinged.shutdown .silent .timeout)

/-- Two rounds, and what may happen between them. -/
def rounds : List (LinkStep Unit) :=
  [.line (.feed [0xFE]), .round .silent, .use (·.advance 5), .round .silent]

/-- The ping is not written, whatever happens then. -/
theorem queued_ping_not_written :
    Session.pinged.outbound = [ping] ∧
      ∃ new, (tornDown.run rounds).pushed = tornDown.pushed ++ new ∧
        (∀ push ∈ new, ¬push.1 = ping) ∧
        (tornDown.run rounds).written ++ (tornDown.run rounds).link.outbound.unsent =
          (tornDown.written ++ tornDown.link.outbound.unsent) ++ wires (new.map Prod.fst) := by
  have hqueued : Session.pinged.outbound = [ping] := by decide +kernel
  have htorn : Session.AfterTeardown .silent (Session.pinged.shutdown .silent .timeout) :=
    .shutdown .timeout rfl
  have hrounds : ∀ step ∈ rounds, step.Spares (· = ping) := by
    simp only [rounds, List.forall_mem_cons, LinkStep.Spares]
    exact ⟨trivial, Session.silent_spares, fun s => .of_eq rfl rfl, Session.silent_spares, nofun⟩
  exact ⟨hqueued, written_since_teardown (j := tornDown) Session.silent_spares htorn hrounds⟩

/-! ## The frame in transit -/

/-- The line takes nothing when a ping is to be sent. -/
def stalled : Journal Unit :=
  (start (.start {} ())).run
    [.line (.scriptWrites [.atMost 0]), .use fun s => (s.call (.request (.system .ping))).2,
      .round .silent]

/-- The ping failed. -/
def failedPing : Journal Unit :=
  stalled.step (.use (·.shutdown .silent (.shutdown "closing")))

theorem written_though_failed :
    failedPing.written = [] ∧
      failedPing.session.outcome? 0 = some (.error (.shutdown "closing")) ∧
      (failedPing.step (.round .silent)).written = [0xFE, 0x00, 0x21, 0x01, 0x20] := by
  decide +kernel

end Journal

end ZigbeeHost
