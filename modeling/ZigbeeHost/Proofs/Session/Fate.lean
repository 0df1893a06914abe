import ZigbeeHost.Proofs.Session.Answers
import ZigbeeHost.Proofs.Session.Biding
/-!
# What becomes of a handler

A handler of the chain that holds an operation comes to one of four fates in a run
(`Handler.Fate`) : it still holds the operation; its timer expired when the deadline was
over; a frame was delivered that it took; or the session was torn down. Nothing else that
the application or other handlers do makes a difference to it (`Uses.fated`).

While a frame is walked, the handler is out but for its own turn. So a dispatch is a walk of
those in front, during which it bides, its turn, and a walk of those behind.
-/

namespace ZigbeeHost

variable {θ : Type}

/-! ## Decisions -/

/-- The outcome that a handler decides on by what it gets, if it does. -/
def Handler.decides? (answer : Except Failure Bytes) : Handler → Option (Except Failure Outcome)
  | response _ (.settle _) | wait _ _ => some (answer.map .payload)
  | response _ (.confirm ..) =>
    match answer.bind checkOnlyStatus with
    | .ok () => none
    | .error e => some (.error e)
  | timed _ inner => inner.decides? answer
  | _ => none

/-- A handler carries on by deciding its operation, or asks for what will. -/
theorem Handler.outcome?_of_decides {η : Type} {L : Licence η} {h : Handler} {op : OperationId}
    (hf : h.Formed L) (hop : h.operation? = some op) {answer : Except Failure Bytes}
    {outcome : Except Failure Outcome} (hdecides : h.decides? answer = some outcome)
    (app : Application η) {s : Session η} (hp : s.pending op = true) :
    (h.carryOn app answer s).1.outcome? op = some outcome := by
  have hcomplete (o : Except Failure Outcome) := s.outcome?_complete op o hp
  cases h with
  | indication | custom => cases hop
  | response commands a =>
    cases a with
    | settle =>
      cases hop
      cases hdecides
      exact hcomplete _
    | confirm c =>
      cases hop
      cases hverdict : answer.bind checkOnlyStatus with
      | ok =>
        simp only [decides?, hverdict] at hdecides
        cases hdecides
      | error e =>
        simp only [decides?, hverdict, Option.some.injEq] at hdecides
        simp only [carryOn, Aftermath.resume, hverdict, ← hdecides]
        exact hcomplete _
    | follow | application => cases hdecides
  | wait p =>
    cases hop
    cases hdecides
    exact hcomplete _
  | timed id inner =>
    cases inner with
    | wait p =>
      cases hop
      cases hdecides
      exact hcomplete _
    | _ => exact hf.elim

/-- A handler that holds an operation lets a frame pass that it does not accept. -/
theorem Handler.Holds.offer_of_not_accepts {η : Type} {L : Licence η} {h : Handler}
    {op : OperationId} {due : Option Nat} {f : Frame} {s : Session η} (hf : h.Formed L)
    (hh : h.Holds s.timers op due) (hno : ¬h.Accepts s.timers f) (app : Application η) :
    h.offer app f s = (s, {}) := by
  cases h with
  | indication | custom => cases hh.1
  | response => exact offer_response_of_not_accepts hno app
  | wait => exact offer_wait_of_not_accepts hno app
  | timed id inner =>
    cases inner with
    | wait p op' =>
      obtain ⟨-, deadline, -, harmed⟩ := hh
      have hid : s.timers.active id = true := Timers.active_iff.2 ⟨_, harmed, rfl⟩
      rw [offer_timed_of_active hid, offer_wait_of_not_accepts (fun hyes => hno ⟨hid, hyes⟩)]
      rfl
    | _ => exact hf.elim

/-- To abort a handler fails the operation that it holds. -/
theorem Handler.Holds.outcome?_abort {η : Type} {L : Licence η} {h : Handler} {op : OperationId}
    {due : Option Nat} {s : Session η} (hf : h.Formed L) (hh : h.Holds s.timers op due)
    (hp : s.pending op = true) (app : Application η) (e : Failure) :
    (h.abort app e s).outcome? op = some (.error e) := by
  have hcomplete := s.outcome?_complete op (.error e) hp
  cases h with
  | indication | custom => cases hh.1
  | response commands a =>
    cases a with
    | application => cases hh.1
    | _ =>
      cases hh.1
      exact hcomplete
  | wait p =>
    cases hh.1
    exact hcomplete
  | timed id inner =>
    cases inner with
    | wait p =>
      obtain ⟨hop, deadline, -, harmed⟩ := hh
      cases hop
      rw [Handler.abort, if_pos (Timers.active_iff.2 ⟨_, harmed, rfl⟩)]
      exact (s.disarm id).outcome?_complete op (.error e) hp
    | _ => exact hf.elim

/-! ## Fates -/

/-- What became of a handler of the chain of `s`, which held an operation, when the moments
`new` led to `t`. -/
inductive Handler.Fate (new : List Moment) (op : OperationId) (due : Option Nat)
    (s t : Session (θ × List Moment)) (h : Handler) : Prop
  | held (hmem : h ∈ t.chain) (hholds : h.Holds t.timers op due) (hdue : ¬Overdue new due)
  | expired (hdue : Overdue new due) (hout : t.outcome? op = some (.error .timeout))
  | served {f : Frame} {timers : Timers OperationId} {answer : Except Failure Bytes}
      (hf : .delivered f ∈ new) (haccepts : h.Accepts timers f) (hgets : h.Gets f answer)
      (hout : ∀ outcome, h.decides? answer = some outcome → t.outcome? op = some outcome)
  | torn {e : Failure} (hdepth : s.depth = 0) (he : .shutdown e ∈ new)
      (hout : t.outcome? op = some (.error e))

/-- The fate of a handler, with the moments that the chronicle has. -/
def Session.Fated (h : Handler) (op : OperationId) (due : Option Nat)
    (s t : Session (θ × List Moment)) : Prop :=
  ∃ new, t.chronicle = s.chronicle ++ new ∧ h.Fate new op due s t

namespace Handler.Fate

variable {new new' : List Moment} {op : OperationId} {due : Option Nat}
  {s t u : Session (θ × List Moment)} {h : Handler}

/-- A handler that bides, and is in the chain in the end. -/
theorem of_bides (hbides : h.Bides new op due t) (hmem : h ∈ t.chain) : h.Fate new op due s t := by
  rcases hbides with ⟨hholds, hdue⟩ | ⟨hdue, hout⟩
  · exact .held hmem hholds hdue
  · exact .expired hdue hout

/-- A fate that was met is final. -/
theorem mono (hfate : h.Fate new op due s t) (houtlives : t.Outlives u)
    (hheld : h ∈ t.chain → h.Holds t.timers op due → ¬Overdue new due →
      h.Fate (new ++ new') op due s u) : h.Fate (new ++ new') op due s u := by
  cases hfate with
  | held hmem hholds hdue => exact hheld hmem hholds hdue
  | expired hdue hout => exact .expired (overdue_append.2 (Or.inl hdue)) (houtlives op _ hout)
  | served hf haccepts hgets hout =>
    exact .served (List.mem_append_left _ hf) haccepts hgets
      fun outcome ho => houtlives op _ (hout outcome ho)
  | torn hdepth he hout =>
    exact .torn hdepth (List.mem_append_left _ he) (houtlives op _ hout)

theorem trans (hfate : h.Fate new op due s t) (hdepth : t.depth = s.depth)
    (houtlives : t.Outlives u)
    (hheld : h ∈ t.chain → h.Holds t.timers op due → h.Fate new' op due t u) :
    h.Fate (new ++ new') op due s u := by
  refine hfate.mono houtlives fun hmem hholds hdue => ?_
  cases hheld hmem hholds with
  | held hmem' hholds' hdue' =>
    exact .held hmem' hholds' fun hover => (overdue_append.1 hover).elim hdue hdue'
  | expired hdue' hout => exact .expired (overdue_append.2 (Or.inr hdue')) hout
  | served hf haccepts hgets hout => exact .served (List.mem_append_right _ hf) haccepts hgets hout
  | torn hdepth' he hout => exact .torn (hdepth ▸ hdepth') (List.mem_append_right _ he) hout

/-- The order of the moments is of no account. -/
theorem congr (hfate : h.Fate new op due s t) (hsame : ∀ m, m ∈ new ↔ m ∈ new') :
    h.Fate new' op due s t := by
  have hover : Overdue new due ↔ Overdue new' due := by simp only [Overdue, hsame]
  cases hfate with
  | held hmem hholds hdue => exact .held hmem hholds (hover.not.1 hdue)
  | expired hdue hout => exact .expired (hover.1 hdue) hout
  | served hf haccepts hgets hout => exact .served ((hsame _).1 hf) haccepts hgets hout
  | torn hdepth he hout => exact .torn hdepth ((hsame _).1 he) hout

/-- Other notes make no difference. -/
theorem noted (hfate : h.Fate new op due s t) {ms : List Moment}
    (hnone : ∀ now, .expired now ∉ ms) : h.Fate (new ++ ms) op due s t :=
  hfate.mono (fun _ _ ho => ho) fun hmem hholds hdue =>
    .held hmem hholds fun hover => (overdue_append.1 hover).elim hdue (not_overdue hnone due)

end Handler.Fate

namespace Session.Fated

variable {op : OperationId} {due : Option Nat} {s t u : Session (θ × List Moment)} {h : Handler}

theorem trans {away : List Handler} (hfate : Fated h op due s t) (hdepth : t.depth = s.depth)
    (hbides : Bides away t u)
    (hheld : h ∈ t.chain → h.Holds t.timers op due → Fated h op due t u) :
    Fated h op due s u := by
  obtain ⟨new, hnew, hfate⟩ := hfate
  obtain ⟨houtlives, new', hnew', -⟩ := hbides
  refine ⟨new ++ new', by rw [hnew', hnew, List.append_assoc], ?_⟩
  refine hfate.trans hdepth houtlives fun hmem hholds => ?_
  obtain ⟨new'', hnew'', hfate'⟩ := hheld hmem hholds
  rwa [List.append_cancel_left (hnew'.symm.trans hnew'')]

/-- The handler stays in the chain, and its timer is not touched. -/
theorem of_armed (new : List Moment) (hmem : h ∈ t.chain)
    (hchronicle : t.chronicle = s.chronicle ++ new) (hnone : ∀ now, .expired now ∉ new)
    (harmed : ∀ e ∈ s.timers.armed, e ∈ t.timers.armed) (hholds : h.Holds s.timers op due) :
    Fated h op due s t :=
  ⟨new, hchronicle, .held hmem (hholds.mono fun e he _ => harmed e he) (not_overdue hnone due)⟩

theorem of_eq (hmem : h ∈ t.chain) (hhost : t.host.2 = s.host.2) (htimers : t.timers = s.timers)
    (hholds : h.Holds s.timers op due) : Fated h op due s t :=
  of_armed [] hmem (hhost.trans (List.append_nil _).symm) nofun (by rw [htimers]; exact fun _ => id)
    hholds

/-- A deed may decide the fate, and take note of it. -/
theorem of_noted {new ms : List Moment} (hnew : t.chronicle = s.chronicle ++ new)
    (hfate : h.Fate (new ++ ms) op due s t) :
    Fated h op due s { t with host := (t.host.1, t.host.2 ++ ms) } := by
  have hchronicle : t.host.2 ++ ms = s.chronicle ++ (new ++ ms) := by
    rw [← List.append_assoc, ← hnew]
    rfl
  refine ⟨new ++ ms, hchronicle, ?_⟩
  cases hfate with
  | held hmem hholds hdue => exact .held hmem hholds hdue
  | expired hdue hout => exact .expired hdue hout
  | served hf haccepts hgets hout => exact .served hf haccepts hgets hout
  | torn hdepth he hout => exact .torn hdepth he hout

end Session.Fated

/-- Between dispatches nothing is deferred. -/
def Session.Settled {η : Type} (s : Session η) : Prop := s.depth = 0 → s.deferred = none

theorem Session.Calm.settled {η : Type} {s t : Session η} (h : s.Calm t) (hs : s.Settled) :
    t.Settled := fun hdepth => h.2 (h.1 ▸ hdepth) (hs (h.1 ▸ hdepth))

/-- Every handler of the chain that holds an operation meets a fate. -/
def Session.AllFated (s : Session (θ × List Moment)) (_ : List Wait)
    (t : Session (θ × List Moment)) : Prop :=
  s.Settled → ∀ away owed, Sound (.chronicled θ) away owed s → ∀ h ∈ s.chain, ∀ op due,
    h.Holds s.timers op due → Session.Fated h op due s t

namespace Sound

variable {away : List Handler} {owed : List Tracked} {s : Session (θ × List Moment)}
  {app : Application (θ × List Moment)} (hlaw : Lawful (.chronicled θ) app) {h : Handler}
  {op : OperationId} {due : Option Nat}
include hlaw

/-! ## Teardowns -/

/-- In a teardown the handler is aborted, unless it timed out before. -/
theorem drain_fate (chain : List Handler) (hs : Sound (.chronicled θ) (chain ++ away) owed s)
    (hh : h ∈ chain) (hholds : h.Holds s.timers op due) (e : Failure) :
    let t := (Chain.drain Handler.permanent (Handler.abort app e) chain s).2
    ∃ new, t.chronicle = s.chronicle ++ new ∧
      (Overdue new due ∧ t.outcome? op = some (.error .timeout) ∨
        t.outcome? op = some (.error e)) := by
  induction chain generalizing s away with
  | nil => cases hh
  | cons x behind ih =>
    cases hperm : x.permanent with
    | true =>
      have hx := (hs.formed x List.mem_cons_self).operation?_of_permanent hperm
      have hbehind : h ∈ behind := by
        rcases List.mem_cons.1 hh with rfl | hh
        · rw [hholds.operation?] at hx
          cases hx
        · exact hh
      rw [Chain.drain_cons_of_permanent behind s hperm]
      exact ih (hs.perm List.perm_middle.symm (List.Perm.refl _)) hbehind hholds
    | false =>
      have haborted : Sound (.chronicled θ) (behind ++ away) owed (x.abort app e s) :=
        Sound.abort hlaw.upholds hs e
      obtain ⟨-, new, hnew, hbides⟩ := abort_bides hlaw.bides hs e
      obtain ⟨houtlives, new', hnew', -⟩ :=
        drain_bides hlaw hlaw.bides behind haborted e
      have hall : (Chain.drain Handler.permanent (Handler.abort app e) behind
          (x.abort app e s)).2.chronicle = s.chronicle ++ (new ++ new') := by
        rw [hnew', hnew, List.append_assoc]
      rw [Chain.drain_cons_of_not_permanent behind s hperm]
      rcases List.mem_cons.1 hh with rfl | hbehind
      · have hp := Accounts.pending_of_handler hs List.mem_cons_self hholds.carried?
        have hout := hholds.outcome?_abort (hs.formed h List.mem_cons_self) hp app e
        exact ⟨_, hall, Or.inr (houtlives op _ hout)⟩
      · rcases hbides h (List.mem_append_left _ hbehind) op due hholds with
          ⟨hheld, -⟩ | ⟨hdue, hout⟩
        · obtain ⟨new'', hnew'', hend⟩ := ih haborted hbehind hheld
          refine ⟨_, by rw [hnew'', hnew, List.append_assoc], ?_⟩
          exact hend.imp_left fun h => ⟨overdue_append.2 (Or.inr h.1), h.2⟩
        · exact ⟨_, hall, Or.inl ⟨overdue_append.2 (Or.inl hdue), houtlives op _ hout⟩⟩

theorem tearDown_fate (hs : Sound (.chronicled θ) away owed s) (hh : h ∈ s.chain)
    (hholds : h.Holds s.timers op due) (e : Failure) :
    ∃ new, (s.tearDown app e).chronicle = s.chronicle ++ new ∧
      (Overdue new due ∧ (s.tearDown app e).outcome? op = some (.error .timeout) ∨
        (s.tearDown app e).outcome? op = some (.error e)) := by
  let drained := (Chain.drain Handler.permanent (Handler.abort app e) s.chain
    { s with chain := [], tracked := [], outbound := [] }).2
  have htracked : Session.Bides away drained (s.tracked.foldl (Session.abortTracked e) drained) :=
    .abortTracked e s.tracked drained
  obtain ⟨new, hnew, hend⟩ := drain_fate hlaw s.chain hs.cleared hh hholds e
  obtain ⟨houtlives, new', hnew', -⟩ := htracked
  refine ⟨new ++ new', hnew'.trans (by rw [hnew, List.append_assoc]; rfl), ?_⟩
  exact hend.imp (fun h => ⟨overdue_append.2 (Or.inl h.1), houtlives op _ h.2⟩)
    fun h => houtlives op _ h

/-! ## Dispatch -/

/-- The rest of a walk from the turn of a handler on, which holds an operation : either it
accepts the frame, or it bides and stays where it is. -/
theorem turn_fate {behind : List Handler} {waits : List Wait} {tracked : List Tracked}
    (hs : Sound (.chronicled θ) (h :: behind ++ (waits.map Wait.handler ++ away))
      (tracked ++ owed) s) (hholds : h.Holds s.timers op due) (f : Frame) :
    let w := Chain.dispatch (Session.turn app f) (h :: behind) (s, waits, tracked)
    h ∈ w.1 ∧ Session.Bides [h] s w.2.1.1 ∨
      h.Accepts s.timers f ∧ ∃ answer, h.Gets f answer ∧
        ∀ outcome, h.decides? answer = some outcome → w.2.1.1.outcome? op = some outcome := by
  intro w
  have hf := hs.formed h List.mem_cons_self
  by_cases hyes : h.Accepts s.timers f
  · obtain ⟨answer, hgets, hoffer⟩ := Handler.offer_of_accepts hyes app
    have hstop : (Session.turn app f h (s, waits, tracked)).2.stop = true := by
      simp only [Session.turn, hoffer]
      rfl
    have hw : w.2.1.1 = (h.carryOn app answer s).1 := by
      simp only [w, Chain.dispatch_cons_of_stop behind hstop, Session.turn, hoffer]
    have hp := Accounts.pending_of_handler hs List.mem_cons_self hholds.carried?
    refine Or.inr ⟨hyes, answer, hgets, fun outcome ho => ?_⟩
    rw [hw]
    exact Handler.outcome?_of_decides hf hholds.operation? ho app hp
  · have hoffer := hholds.offer_of_not_accepts hf hyes app
    have hturn : Session.turn app f h (s, waits, tracked) = ((s, waits, tracked), .pass) := by
      simp [Session.turn, hoffer]
    have hstop : (Session.turn app f h (s, waits, tracked)).2.stop = false := by
      rw [hturn]
      rfl
    have hrest : Sound (.chronicled θ) (behind ++ (waits.map Wait.handler ++ (h :: away)))
        (tracked ++ owed) s := by
      refine hs.perm (List.perm_iff_count.2 fun x => ?_) (List.Perm.refl _)
      simp only [List.count_append, List.count_cons]
      omega
    have hw : w = (h :: (Chain.dispatch (Session.turn app f) behind (s, waits, tracked)).1,
        (Chain.dispatch (Session.turn app f) behind (s, waits, tracked)).2) := by
      simp only [w, Chain.dispatch_cons_of_not_stop behind hstop, hturn]
      rfl
    rw [hw]
    exact Or.inl ⟨List.mem_cons_self,
      (dispatch_bides hlaw hlaw.bides behind hrest f).mono (by simp)⟩

/-- While the frame passes those in front of it, a handler bides. -/
theorem front_bides (hs : Sound (.chronicled θ) away owed s) {f : Frame}
    {before behind left : List Handler} {u : Session (θ × List Moment)} {waits : List Wait}
    {tracked : List Tracked} {stopped : Bool} (hchain : s.chain = before ++ h :: behind)
    (hpassed : Chain.dispatch (Session.turn app f) before (s.enter, [], []) =
      (left, (u, waits, tracked), stopped)) : Session.Bides [h] s u := by
  have hstart : Session.Bides [h] s s.enter := .of_eq rfl rfl rfl
  have hentered : Sound (.chronicled θ) (before ++ (h :: behind ++ away)) owed s.enter := by
    rw [← List.append_assoc, ← hchain]
    exact hs.enter
  have hwalked := walk_bides hlaw hlaw.bides before hentered f
  rw [Session.walk_eq, hpassed] at hwalked
  exact hstart.trans (hwalked.mono (by simp))

omit hlaw in
/-- A dispatch from the turn of a handler on. -/
theorem dispatched_of_passed {f : Frame} {before behind left : List Handler}
    {u : Session (θ × List Moment)} {waits : List Wait} {tracked : List Tracked}
    (hchain : s.chain = before ++ h :: behind)
    (hpassed : Chain.dispatch (Session.turn app f) before (s.enter, [], []) =
      (left, (u, waits, tracked), false)) :
    let w := Chain.dispatch (Session.turn app f) (h :: behind) (u, waits, tracked)
    s.dispatched app f = w.2.1.1.leave (left ++ w.1) w.2.1.2.1 w.2.1.2.2 := by
  intro w
  have hwalk : s.enter.walk app f s.chain = (left ++ w.1, w.2) := by
    rw [Session.walk_eq, hchain, Chain.dispatch_append _ _ _ (by rw [hpassed]), hpassed]
  simp only [Session.dispatched, hwalk]

/-- What the rest of a dispatch leaves as it is, from the turn of a handler on. -/
theorem rest_bides (hs : Sound (.chronicled θ) away owed s) {f : Frame}
    {before behind left : List Handler} {u : Session (θ × List Moment)} {waits : List Wait}
    {tracked : List Tracked} (hchain : s.chain = before ++ h :: behind)
    (hpassed : Chain.dispatch (Session.turn app f) before (s.enter, [], []) =
      (left, (u, waits, tracked), false)) : Session.Bides [] u (s.dispatched app f) := by
  have hwalked :=
    dispatch_bides hlaw hlaw.bides (h :: behind) (hs.reached hlaw hchain hpassed) f
  rw [dispatched_of_passed hchain hpassed]
  exact (hwalked.mono (by simp)).trans (.leave ..)

omit hlaw in
/-- A handler that bides to the end of a walk is put back into the chain. -/
theorem leave_fate {t : Session (θ × List Moment)} (ht : Session.Bides [h] s t)
    (hholds : h.Holds s.timers op due) {chain : List Handler} (hmem : h ∈ chain)
    (waits : List Wait) (tracked : List Tracked) (f : Frame) :
    ∃ new, (t.leave chain waits tracked).chronicle = s.chronicle ++ new ∧
      h.Fate (new ++ [.delivered f]) op due s (t.leave chain waits tracked) := by
  obtain ⟨-, new, hnew, hbides⟩ := ht.trans (.leave chain waits tracked t)
  obtain ⟨installed, hleft, -⟩ := Session.leave_chain chain waits tracked t
  have hkept : h ∈ (t.leave chain waits tracked).chain := by simp [hleft, hmem]
  have hfate := Handler.Fate.of_bides (s := s)
    (hbides h (List.mem_singleton.2 rfl) op due hholds) hkept
  exact ⟨new, hnew, hfate.noted (by simp)⟩

/-- What becomes of a handler in the walk of a dispatch. If it takes the frame, the frame
is yet to be noted. -/
theorem dispatched_fate (hs : Sound (.chronicled θ) away owed s) (hh : h ∈ s.chain)
    (hholds : h.Holds s.timers op due) (f : Frame) :
    ∃ new, (s.dispatched app f).chronicle = s.chronicle ++ new ∧
      h.Fate (new ++ [.delivered f]) op due s (s.dispatched app f) := by
  obtain ⟨before, behind, hchain⟩ := List.append_of_mem hh
  rcases hpassed : Chain.dispatch (Session.turn app f) before (s.enter, [], []) with
    ⟨left, ⟨u, waits, tracked⟩, stopped⟩
  have hfront := front_bides hlaw hs hchain hpassed
  cases stopped with
  | true =>
    have hwalk : s.enter.walk app f s.chain = (left ++ h :: behind, (u, waits, tracked), true) := by
      rw [Session.walk_eq, hchain, Chain.dispatch_append_of_stop _ _ _ (by rw [hpassed]), hpassed]
    simp only [Session.dispatched, hwalk]
    exact leave_fate hfront hholds (by simp) waits tracked f
  | false =>
    have hdispatched := dispatched_of_passed hchain hpassed
    obtain ⟨-, new, hnew, hbides⟩ := id hfront
    obtain ⟨houtlives, new', hnew', -⟩ := rest_bides hlaw hs hchain hpassed
    have hgrown : (s.dispatched app f).chronicle = s.chronicle ++ (new ++ new') := by
      rw [hnew', hnew, List.append_assoc]
    -- Its timer may have expired before its turn came.
    rcases hbides h (List.mem_singleton.2 rfl) op due hholds with ⟨hheld, -⟩ | ⟨hdue, hout⟩
    · have hreached := hs.reached hlaw hchain hpassed
      rcases turn_fate hlaw hreached hheld f with ⟨hmem, hstays⟩ | ⟨hyes, answer, hgets, hout⟩
      · rw [hdispatched]
        exact leave_fate (hfront.trans hstays) hholds (List.mem_append_right _ hmem) _ _ f
      · refine ⟨_, hgrown, .served (by simp) hyes hgets fun outcome ho => ?_⟩
        rw [hdispatched]
        exact Session.narrow_outlives.leave _ _ _ _ op _ (hout outcome ho)
    · refine ⟨_, hgrown, .expired ?_ (houtlives op _ hout)⟩
      exact overdue_append.2 (Or.inl (overdue_append.2 (Or.inl hdue)))

/-! ## Deeds -/

theorem shutdown_fate (hs : Sound (.chronicled θ) away owed s) (hh : h ∈ s.chain)
    (hholds : h.Holds s.timers op due) (e : Failure) :
    Session.Fated h op due s ((Licence.chronicled θ).perform app (.shutdown e) s) := by
  by_cases hdepth : s.depth = 0
  · obtain ⟨new, hnew, hend⟩ := tearDown_fate hlaw hs hh hholds e
    have hshutdown : s.shutdown app e = s.tearDown app e := if_pos hdepth
    rw [Licence.perform, Deed.perform, hshutdown]
    refine .of_noted hnew ?_
    rcases hend with ⟨hdue, hout⟩ | hout
    · exact .expired (overdue_append.2 (Or.inl hdue)) hout
    · exact .torn hdepth (List.mem_append_right _ (List.mem_singleton.2 rfl)) hout
  · have hshutdown : s.shutdown app e = { s with deferred := s.deferred <|> some e } :=
      if_neg hdepth
    have hheld : h.Fate ([] ++ [.shutdown e]) op due s (s.shutdown app e) := by
      rw [hshutdown]
      exact .held hh hholds (not_overdue (by simp) due)
    have hchronicle : (s.shutdown app e).chronicle = s.chronicle ++ [] := by
      rw [hshutdown]
      exact (List.append_nil _).symm
    exact .of_noted hchronicle hheld

/-- At the end of a dispatch a teardown may take effect that was asked for in it. -/
theorem deliver_fate (hsettled : s.Settled) (hs : Sound (.chronicled θ) away owed s)
    (hh : h ∈ s.chain) (hholds : h.Holds s.timers op due) (f : Frame) :
    Session.Fated h op due s ((Licence.chronicled θ).perform app (.deliver f) s) := by
  obtain ⟨new, hnew, hfate⟩ := dispatched_fate hlaw hs hh hholds f
  obtain ⟨hdepth, new', hdefers⟩ := Session.dispatched_defers hlaw.suspends f s
  obtain rfl := List.append_cancel_left (hnew.symm.trans hdefers.chronicle)
  rw [Licence.perform, Deed.perform, Session.deliver_eq]
  unfold Session.settleDeferred
  split
  · rename_i e hd he
    have hasked : .shutdown e ∈ new := by
      have hfirst := hdefers.deferred
      rw [he, hsettled (hdepth ▸ hd), Option.none_or] at hfirst
      exact Moment.shutdown_mem_of_failure hfirst.symm
    let u := { s.dispatched app f with deferred := none }
    have hu : Sound (.chronicled θ) away owed u :=
      Accounts.congr (hs.dispatched hlaw f) rfl rfl rfl rfl
    have hshutdown : u.shutdown app e = u.tearDown app e := if_pos hd
    obtain ⟨houtlives, newer, hnewer, -⟩ := shutdown_bides hlaw hlaw.bides hu e
    have hall : (u.shutdown app e).chronicle = s.chronicle ++ (new ++ newer) := by
      rw [hnewer, ← List.append_assoc, ← hnew]
      rfl
    refine .of_noted hall ?_
    -- The frame is noted when the teardown is over, though it was taken before.
    have hend : h.Fate (new ++ [.delivered f] ++ newer) op due s (u.shutdown app e) := by
      refine hfate.mono houtlives fun hmem hheld _ => ?_
      obtain ⟨newer', hnewer', hend⟩ := tearDown_fate hlaw hu hmem hheld e
      rw [← hshutdown] at hnewer' hend
      obtain rfl := List.append_cancel_left (hnewer.symm.trans hnewer')
      rcases hend with ⟨hdue, hout⟩ | hout
      · exact .expired (overdue_append.2 (Or.inr hdue)) hout
      · exact .torn (hdepth ▸ hd) (by simp [hasked]) hout
    exact hend.congr fun m => by simp [Deed.moments, or_comm]
  · exact .of_noted hnew hfate

omit hlaw in
/-- The turn of a subscriber, when the application emits an event. -/
theorem notify_fate (happ : app.Keeps (.chronicled θ) Session.AllFated) (hsettled : s.Settled)
    (hs : Sound (.chronicled θ) away owed s) (hh : h ∈ s.chain)
    (hholds : h.Holds s.timers op due) (i : Indication) (slot : Slot) :
    Session.Fated h op due s (s.notify app i slot) := by
  rcases Session.notify_cases app i s slot with
    heq | ⟨watch, op', outcome, -, -, -, heq⟩ | ⟨callback, -, heq⟩ <;> rw [heq]
  · exact .of_eq hh rfl rfl hholds
  · refine .of_eq (t := (s.disconnect slot.connection).complete op' outcome) ?_ ?_ ?_ hholds
    · rwa [Session.complete_chain]
    · rw [Session.complete_host]
      rfl
    · rw [Session.complete_timers]
      rfl
  · let calling := { s with running := slot.connection :: s.running }
    have hcalling : Sound (.chronicled θ) away owed calling := Accounts.congr hs rfl rfl rfl rfl
    obtain ⟨new, hnew, hfate⟩ := happ.hear callback slot.connection i calling hsettled away owed
      hcalling h hh op due hholds
    refine ⟨new, hnew, ?_⟩
    cases hfate with
    | held hmem hholds hdue => exact .held hmem hholds hdue
    | expired hdue hout => exact .expired hdue hout
    | served hf haccepts hgets hout => exact .served hf haccepts hgets hout
    | torn hdepth he hout => exact .torn hdepth he hout

theorem emit_fate (happ : app.Keeps (.chronicled θ) Session.AllFated) (hsettled : s.Settled)
    (hs : Sound (.chronicled θ) away owed s) (hh : h ∈ s.chain)
    (hholds : h.Holds s.timers op due) (i : Indication) :
    Session.Fated h op due s (s.emit app i) := by
  have hcalm := Session.stable_calm.notify hlaw.calm i
  refine (hs.emit_induct hlaw.upholds hlaw.connects
    (Q := fun t => s.Calm t ∧ Session.Fated h op due s t)
    ⟨.refl s, .of_eq hh rfl rfl hholds⟩ ?_ ?_).2
  · intro t slot _ _ ht ⟨hcalmed, hfated⟩
    refine ⟨hcalmed.trans (hcalm t slot), ?_⟩
    exact hfated.trans hcalmed.1 (notify_bides hlaw.bides ht i slot) fun hmem hheld =>
      notify_fate happ (hcalmed.settled hsettled) ht hmem hheld i slot
  · intro t _ ⟨hcalmed, hfated⟩
    refine ⟨hcalmed.trans (Session.stable_calm.retain t i.event), ?_⟩
    have hbides : Session.Bides away t (t.retain i.event) := .of_eq rfl rfl rfl
    exact hfated.trans hcalmed.1 hbides fun hmem hheld => .of_eq hmem rfl rfl hheld

theorem perform_fate (happ : app.Keeps (.chronicled θ) Session.AllFated) (hsettled : s.Settled)
    (hs : Sound (.chronicled θ) away owed s) (hh : h ∈ s.chain)
    (hholds : h.Holds s.timers op due) {d : Deed (θ × List Moment)}
    (hd : (Licence.chronicled θ).Permits d) :
    Session.Fated h op due s ((Licence.chronicled θ).perform app d s) := by
  cases hquiet : d.quiet with
  | true =>
    have hdefers := Session.defers_quiet hd hquiet app s
    have hmem : h ∈ ((Licence.chronicled θ).perform app d s).chain :=
      (Deed.prefix_perform hquiet app s).mem hh
    cases d with
    | expire =>
      exact ⟨_, hdefers.chronicle, .of_bides
        (hs.bides_expire (List.mem_append_right _ hh) hholds) hmem⟩
    | _ =>
      refine .of_armed _ hmem hdefers.chronicle (by simp [Deed.moments]) ?_ hholds
      exact fun _ he => (Deed.armed_perform hquiet (by rintro ⟨⟩) app s).mem he
  | false =>
    cases d with
    | deliver f => exact deliver_fate hlaw hsettled hs hh hholds f
    | shutdown e => exact shutdown_fate hlaw hs hh hholds e
    | emit i =>
      obtain ⟨new, hnew, hfate⟩ := emit_fate hlaw happ hsettled hs hh hholds i
      have hdone : h.Fate (new ++ []) op due s (s.emit app i) := hfate.noted (by simp)
      exact .of_noted hnew hdone
    | _ => cases hquiet

end Sound

/-! ## Every run -/

theorem Session.fated_kept (θ : Type) :
    (Licence.chronicled θ).Kept fun s ws t => Uses (.chronicled θ) s ws t ∧ AllFated s ws t := by
  refine Licence.kept_along (fun s _ _ _ _ h hh op due hholds => .of_eq hh rfl rfl hholds) ?_ ?_
  · intro s t ws app d hrun hst hlaw happ hd _ hsettled away owed hs h hh op due hholds
    have ht := hrun.keeps (upholds_kept _) away owed hs
    refine (hst hsettled away owed hs h hh op due hholds).trans hrun.calm.1
      (Sound.perform_bides hlaw hlaw.bides ht hd) fun hmem hheld => ?_
    exact Sound.perform_fate hlaw happ (hrun.calm.settled hsettled) ht hmem hheld hd
  · intro s t ws p window hrun hst _ hsettled away owed hs h hh op due hholds
    have hissue : Session.Bides [] t t.issue.2 :=
      .of_armed [] (outlives_issue t) (List.append_nil _).symm nofun fun _ _ _ he _ => he
    exact (hst hsettled away owed hs h hh op due hholds).trans hrun.calm.1 hissue
      fun hmem hheld => .of_eq hmem rfl rfl hheld

/-- Whatever the application does, a handler that holds an operation meets one of its fates. -/
theorem Uses.fated {s t : Session (θ × List Moment)} {ws : List Wait}
    (hrun : Uses (.chronicled θ) s ws t) (hsettled : s.Settled) {away : List Handler}
    {owed : List Tracked} (hs : Sound (.chronicled θ) away owed s) {h : Handler} (hh : h ∈ s.chain)
    {op : OperationId} {due : Option Nat} (hholds : h.Holds s.timers op due) :
    Session.Fated h op due s t :=
  (hrun.keeps (Session.fated_kept θ)).2 hsettled away owed hs h hh op due hholds

end ZigbeeHost
