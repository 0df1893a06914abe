import ZigbeeHost.Proofs.Session.Deferral
import ZigbeeHost.Proofs.Session.Fate
/-!
# Confirmed requests

A confirmed request goes through two stages. First a handler asks, for the answer of the
co-processor (`Handler.asking`). What the answer says of the request is the end of it,
unless it is success (`Acknowledges`). Then a wait for the confirmation goes into the chain,
and its window opens when the answer is taken, not when the request is made
(`Session.leave_installs`).

`ConfirmedRequest` has the laws of both stages. A frame that comes to the handler whose turn
it is decides what becomes of the operation, and nothing else does but a teardown, or an
expiry of timers after the window has closed. The laws hold in every session that callbacks
are given, so they hold for requests that are made, answered and confirmed in a dispatch.
-/

namespace ZigbeeHost

variable {η θ : Type} {L : Licence η}

/-! ## The stages -/

/-- Awaits the answer to a request, which is to be confirmed after it. -/
def Handler.asking (command : Command) (c : Confirmation) (op : OperationId) : Handler :=
  .response [command] (.confirm c op)

/-- What a handler waits for. -/
def Handler.awaits? : Handler → Option Pattern
  | wait p _ => some p
  | timed _ inner => inner.awaits?
  | _ => none

/-- What the frames look like that confirm a request. -/
def Confirmation.pattern (c : Confirmation) : Pattern := ⟨.areq, c.command, c.opening⟩

/-- What a frame says of a request : the co-processor rejects it, or the frame answers it and
has a status, which should stand alone. -/
inductive Acknowledges (command : Command) (f : Frame) : Except Failure Unit → Prop
  | rejected {code : UInt8} (hcommand : f.command ≠ command) (hrejects : Rejects f code [command]) :
      Acknowledges command f (.error (.rpc code))
  | empty (hcommand : f.command = command) (hpayload : f.payload = []) :
      Acknowledges command f (.error .emptyResponse)
  | status {status : UInt8} {rest : Bytes} (hcommand : f.command = command)
      (hpayload : f.payload = status :: rest) (hstatus : status ≠ 0) :
      Acknowledges command f (.error (.status status))
  | surplus {b : UInt8} {rest : Bytes} (hcommand : f.command = command)
      (hpayload : f.payload = 0 :: b :: rest) :
      Acknowledges command f (.error (.unexpectedData (b :: rest).length))
  | success (hcommand : f.command = command) (hpayload : f.payload = [0]) :
      Acknowledges command f (.ok ())

section Asking

variable {command : Command} {c : Confirmation} {op : OperationId} {f : Frame}
  {verdict : Except Failure Unit}

/-- The handler that asks takes the frames that acknowledge the request. -/
theorem Handler.accepts_asking_iff {timers : Timers OperationId} :
    (asking command c op).Accepts timers f ↔
      f.kind = .srsp ∧ ∃ verdict, Acknowledges command f verdict := by
  refine and_congr_right fun _ => ?_
  constructor
  · rintro hanswer
    by_cases hcommand : f.command = command
    · rcases hpayload : f.payload with _ | ⟨status, _ | ⟨b, rest⟩⟩
      · exact ⟨_, .empty hcommand hpayload⟩
      all_goals
        by_cases hstatus : status = 0
        · subst hstatus
          first
            | exact ⟨_, .success hcommand hpayload⟩
            | exact ⟨_, .surplus hcommand hpayload⟩
        · exact ⟨_, .status hcommand hpayload hstatus⟩
    · obtain ⟨code, hrejects⟩ :=
        hanswer.resolve_left fun hmem => hcommand (List.mem_singleton.1 hmem)
      exact ⟨_, .rejected hcommand hrejects⟩
  · rintro ⟨verdict, hack⟩
    cases hack with
    | rejected _ hrejects => exact Or.inr ⟨_, hrejects⟩
    | empty hcommand | status hcommand | surplus hcommand | success hcommand =>
      exact Or.inl (List.mem_singleton.2 hcommand)

/-- What the handler makes of the frame that it gets. -/
theorem Acknowledges.checks (hack : Acknowledges command f verdict) {answer : Except Failure Bytes}
    (hgets : (Handler.asking command c op).Gets f answer) :
    answer.bind checkOnlyStatus = verdict := by
  cases hgets with
  | rejection hmem hrejects =>
    cases hack with
    | rejected _ hrejects' =>
      obtain ⟨-, packed, id, hpayload, -⟩ := hrejects
      obtain ⟨-, packed', id', hpayload', -⟩ := hrejects'
      rw [hpayload] at hpayload'
      cases hpayload'
      rfl
    | empty hcommand | status hcommand | surplus hcommand | success hcommand =>
      exact absurd (List.mem_singleton.2 hcommand) hmem
  | answer hmem =>
    cases hack with
    | rejected hcommand => exact absurd (List.mem_singleton.1 hmem) hcommand
    | empty _ hpayload => rw [hpayload]; rfl
    | status _ hpayload hstatus =>
      rw [hpayload]
      exact congrArg (· >>= _) (if_neg hstatus)
    | surplus _ hpayload => rw [hpayload]; rfl
    | success _ hpayload => rw [hpayload]; rfl

end Asking

/-! ## Waits -/

namespace Handler

variable {h : Handler} {p : Pattern} {op : OperationId} {f : Frame}

/-- A handler that awaits a frame settles its operation with it. -/
theorem settles?_of_awaits (hp : h.awaits? = some p) (hop : h.operation? = some op) :
    h.settles? = some op := by
  induction h with
  | wait => exact hop
  | timed id inner ih => exact ih hp hop
  | _ => cases hp

/-- A wait that has an operation accepts what it waits for, whatever the clock says. -/
theorem Holds.accepts {due : Option Nat} {timers : Timers OperationId} (hf : h.Formed L)
    (hh : h.Holds timers op due) (hp : h.awaits? = some p) (hkind : f.kind = p.kind)
    (hcommand : f.command = p.command) (hopening : p.opening <+: f.payload) :
    h.Accepts timers f := by
  cases h with
  | wait =>
    cases hp
    exact ⟨hkind, hcommand, hopening⟩
  | timed id inner =>
    obtain ⟨-, deadline, -, harmed⟩ := hh
    cases inner with
    | wait =>
      cases hp
      exact ⟨Timers.active_iff.2 ⟨_, harmed, rfl⟩, hkind, hcommand, hopening⟩
    | _ => exact hf.elim
  | _ => cases hp

/-- What a wait gets is what follows the opening. -/
theorem Gets.eq_of_awaits {answer : Except Failure Bytes} {rest : Bytes} (hgets : h.Gets f answer)
    (hp : h.awaits? = some p) (hpayload : f.payload = p.opening ++ rest) : answer = .ok rest := by
  induction hgets with
  | answer | rejection => cases hp
  | rest hrest =>
    cases hp
    rw [List.append_cancel_left (hrest.symm.trans hpayload)]
  | timed _ ih => exact ih hp

/-- A wait whose operation is decided takes no frame any more, and leaves the chain. -/
theorem offer_of_decided {away : List Handler} {owed : List Tracked} {s : Session η}
    (hs : Sound L away owed s) (hh : h ∈ away ++ s.chain) (hp : h.awaits? = some p)
    (hop : h.operation? = some op) (hdecided : (s.outcome? op).isSome = true)
    (app : Application η) (f : Frame) :
    ¬h.Accepts s.timers f ∧ h.offer app f s = (s, { verdict := .evict }) := by
  -- Whoever carries an operation carries a pending one, so the timer must be gone.
  have hnot : h.carried? s.timers ≠ some op := fun hcarried => by
    have hpending := Accounts.pending_of_handler hs hh hcarried
    rw [(Session.isSome_outcome?_iff.1 hdecided).2] at hpending
    cases hpending
  have hf := hs.formed h hh
  cases h with
  | wait => exact absurd hop hnot
  | timed id inner =>
    have hid : s.timers.active id = false :=
      Bool.eq_false_iff.2 fun hid => hnot ((if_pos hid).trans hop)
    exact ⟨fun hyes => Bool.false_ne_true (hid.symm.trans hyes.1), offer_timed_of_not_active hid⟩
  | _ => cases hp

end Handler

namespace Session

/-- A wait goes to the end of the chain, with a deadline if it has a window. -/
theorem install_holds (s : Session η) (w : Wait) : ∃ h ∈ (s.install w).chain,
    h.awaits? = some w.pattern ∧
      h.Holds (s.install w).timers w.operation (w.window.map (s.now + ·)) := by
  unfold install
  split
  · rename_i hwindow
    rw [hwindow]
    exact ⟨_, List.mem_append_right _ (List.mem_singleton.2 rfl), rfl, rfl, rfl⟩
  · rename_i window hwindow
    rw [hwindow]
    exact ⟨_, List.mem_append_right _ (List.mem_singleton.2 rfl), rfl, rfl, _, rfl,
      List.mem_append_right _ (List.mem_singleton.2 rfl)⟩

/-- At the end of a dispatch every wait that was asked for is installed, and its window
opens. -/
theorem leave_installs (chain : List Handler) {waits : List Wait} (tracked : List Tracked)
    (s : Session η) {w : Wait} (hw : w ∈ waits) :
    ∃ h ∈ (s.leave chain waits tracked).chain, h.awaits? = some w.pattern ∧
      h.Holds (s.leave chain waits tracked).timers w.operation (w.window.map (s.now + ·)) := by
  obtain ⟨earlier, later, rfl⟩ := List.append_of_mem hw
  let back := { s.restore chain with depth := s.depth - 1 }
  let t := earlier.foldl (fun t w => t.install w) back
  have hnow : t.now = s.now := by
    refine List.foldlRecOn earlier _ (motive := fun t : Session η => t.now = s.now) rfl ?_
    intro t ht w _
    rw [install_eq]
    exact ht
  have hleave : s.leave chain (earlier ++ w :: later) tracked =
      tracked.foldl (fun t x => t.track x)
        (later.foldl (fun t w => t.install w) (t.install w)) := by
    simp only [leave, List.foldl_append, List.foldl_cons, t, back]
  have hrest := extends_installed later tracked (t.install w)
  obtain ⟨h, hh, hp, hholds⟩ := install_holds t w
  rw [hleave, ← hnow]
  exact ⟨h, hrest.chain.mem hh, hp, hholds.mono fun e he _ => hrest.armed.mem he⟩

/-- The frame comes to the handler `h` of `s` : those in front of it let it pass. They ask
for the waits, and lead to `u`. -/
def Reaches (app : Application η) (f : Frame) (s : Session η) (h : Handler) (waits : List Wait)
    (u : Session η) : Prop :=
  ∃ before behind left tracked, s.chain = before ++ h :: behind ∧
    Chain.dispatch (turn app f) before (s.enter, [], []) = (left, (u, waits, tracked), false)

/-- What a dispatch decided stays, also when a teardown takes effect at its end. -/
theorem outlives_dispatched {app : Application η} (happ : Lawful L app) (f : Frame)
    (s : Session η) : (s.dispatched app f).Outlives (s.deliver app f) := by
  rw [deliver_eq]
  exact narrow_outlives.settleDeferred happ.outlives _

/-- A dispatch at whose end no teardown takes effect. -/
theorem Settled.deliver_eq {app : Application η} {f : Frame} {s : Session η}
    (hsettled : (s.dispatched app f).Settled) : s.deliver app f = s.dispatched app f := by
  rw [Session.deliver_eq]
  by_cases hdepth : (s.dispatched app f).depth = 0
  · exact settleDeferred_of_none (hsettled hdepth) app
  · exact settleDeferred_of_depth hdepth app

end Session

/-! ## Frames that acknowledge a request -/

section Answered

variable {app : Application η} {command : Command} {c : Confirmation} {s u : Session η}
  {away : List Handler} {owed : List Tracked} {op : OperationId} {waits : List Wait} {f : Frame}
  {e : Failure}

/-- The walk of a frame that acknowledges a request. -/
theorem Session.Reaches.walk_eq (hreaches : s.Reaches app f (.asking command c op) waits u)
    (hkind : f.kind = .srsp) {verdict : Except Failure Unit}
    (hack : Acknowledges command f verdict) :
    ∃ answer left behind tracked, answer.bind checkOnlyStatus = verdict ∧
      s.enter.walk app f s.chain =
        (left ++ behind, (((Aftermath.confirm c op).resume app answer u).1,
          waits ++ ((Aftermath.confirm c op).resume app answer u).2.waits,
          tracked ++ ((Aftermath.confirm c op).resume app answer u).2.tracked), true) := by
  obtain ⟨before, behind, left, tracked, hchain, hpassed⟩ := hreaches
  have hyes : (Handler.asking command c op).Accepts u.timers f :=
    Handler.accepts_asking_iff.2 ⟨hkind, verdict, hack⟩
  obtain ⟨-, answer, hgets, hwalk⟩ := Session.walk_of_accepts hchain hpassed hyes
  exact ⟨answer, left, behind, tracked, hack.checks hgets, hwalk⟩

variable (happ : Lawful L app)
include happ

/-- If the co-processor refuses, the operation fails with its status. -/
theorem Sound.fails_asking (hs : Sound L away owed s)
    (hreaches : s.Reaches app f (.asking command c op) waits u) (hkind : f.kind = .srsp)
    (hack : Acknowledges command f (.error e)) :
    (s.deliver app f).outcome? op = some (.error e) ∧
      (s.enter.walk app f s.chain).2.1.2.1 = waits := by
  obtain ⟨answer, left, behind, tracked, hverdict, hwalk⟩ := hreaches.walk_eq hkind hack
  have hpending : u.pending op = true := by
    obtain ⟨before, behind, left, tracked, hchain, hpassed⟩ := hreaches
    exact Accounts.pending_of_handler (hs.reached happ hchain hpassed) List.mem_cons_self rfl
  have hresumed : (Aftermath.confirm c op).resume app answer u =
      (u.complete op (.error e), {}) := by
    simp only [Aftermath.resume, hverdict]
  rw [hresumed] at hwalk
  refine ⟨Session.outlives_dispatched happ f s op _ ?_, ?_⟩
  · simp only [Session.dispatched, hwalk]
    exact Session.narrow_outlives.leave _ _ _ _ op _ (u.outcome?_complete op _ hpending)
  · rw [hwalk, List.append_nil]

/-- If the co-processor accepts, the wait for the confirmation is installed. -/
theorem Sound.installs_wait (hs : Sound L away owed s)
    (hreaches : s.Reaches app f (.asking command c op) waits u) (hkind : f.kind = .srsp)
    (hack : Acknowledges command f (.ok ())) :
    (s.dispatched app f).pending op = true ∧
      (∃ h ∈ (s.dispatched app f).chain, h.awaits? = some c.pattern ∧
        h.Holds (s.dispatched app f).timers op (c.window.map (u.now + ·))) ∧
      ((s.dispatched app f).Settled → s.deliver app f = s.dispatched app f) := by
  obtain ⟨answer, left, behind, tracked, hverdict, hwalk⟩ := hreaches.walk_eq hkind hack
  have hresumed : (Aftermath.confirm c op).resume app answer u =
      (u, { waits := [⟨c.pattern, c.window, op⟩] }) := by
    simp only [Aftermath.resume, hverdict]
    rfl
  rw [hresumed] at hwalk
  have hinstalled : ∃ h ∈ (s.dispatched app f).chain, h.awaits? = some c.pattern ∧
      h.Holds (s.dispatched app f).timers op (c.window.map (u.now + ·)) := by
    simp only [Session.dispatched, hwalk]
    exact Session.leave_installs (w := ⟨c.pattern, c.window, op⟩) _ _ u (by simp)
  obtain ⟨h, hh, hp, hholds⟩ := id hinstalled
  exact ⟨Accounts.pending_of_handler (hs.dispatched happ f) (List.mem_append_right _ hh)
    hholds.carried?, hinstalled, Session.Settled.deliver_eq⟩

end Answered

/-! ## The laws -/

/-- How a request goes that is to be confirmed, in any session whose application keeps a
chronicle, between its deeds or in the midst of them. -/
structure ConfirmedRequest (app : Application (θ × List Moment)) (command : Command)
    (payload : Bytes) (c : Confirmation) : Prop where
  /-- The handler that asks goes behind all others, and the frame behind all frames. -/
  issued : payload.length ≤ maxPayloadLength → ∀ s : Session (θ × List Moment),
    s.call (.request (.bare (.confirmed command payload c))) =
      (.ok s.issue.1, { s.issue.2 with
        chain := s.chain ++ [.asking command c s.issue.1]
        outbound := s.outbound ++ [⟨.sreq, command, payload⟩] })
  /-- In a run, the handler of either stage keeps the operation, or it took a frame, or timers
  expired when its window had closed, or the session was torn down. -/
  fated : ∀ {s t ws away owed h op due}, Uses (.chronicled θ) s ws t → s.Settled →
    Sound (.chronicled θ) away owed s → h ∈ s.chain → h.Holds s.timers op due →
    Session.Fated h op due s t
  /-- Until it is answered or torn down the request awaits its answer, whatever else is
  delivered, and however late it is. In a dispatch nothing is torn down. -/
  asked : ∀ {s t ws away owed op new}, Uses (.chronicled θ) s ws t → s.Settled →
    Sound (.chronicled θ) away owed s → .asking command c op ∈ s.chain →
    t.chronicle = s.chronicle ++ new →
    (∀ f verdict, .delivered f ∈ new → f.kind = .srsp → ¬Acknowledges command f verdict) →
    (s.depth = 0 → ∀ e, .shutdown e ∉ new) → .asking command c op ∈ t.chain ∧ t.pending op = true
  /-- A frame that comes to the handler and says that the request failed is the end of it.
  The walk asks for no wait but those that the handlers in front asked for. -/
  failed : ∀ {s u away owed op waits f e}, Sound (.chronicled θ) away owed s →
    s.Reaches app f (.asking command c op) waits u → f.kind = .srsp →
    Acknowledges command f (.error e) →
    (s.deliver app f).outcome? op = some (.error e) ∧
      (s.enter.walk app f s.chain).2.1.2.1 = waits
  /-- If the frame says that the request succeeded, a wait for the confirmation is there when
  the dispatch is done, unless a teardown takes effect then. Its window opened when the frame
  was taken. -/
  installed : ∀ {s u away owed op waits f}, Sound (.chronicled θ) away owed s →
    s.Reaches app f (.asking command c op) waits u → f.kind = .srsp →
    Acknowledges command f (.ok ()) →
    (s.dispatched app f).pending op = true ∧
      (∃ h ∈ (s.dispatched app f).chain, h.awaits? = some c.pattern ∧
        h.Holds (s.dispatched app f).timers op (c.window.map (u.now + ·))) ∧
      ((s.dispatched app f).Settled → s.deliver app f = s.dispatched app f)
  /-- The first frame that comes to the wait and confirms the request is its outcome, whatever
  the clock says, unless a handler in front has the timers expire first. -/
  confirmed : ∀ {s u away owed h op due waits f rest}, Sound (.chronicled θ) away owed s →
    s.Reaches app f h waits u → h.awaits? = some c.pattern → h.Holds s.timers op due →
    f.kind = .areq → f.command = c.command → f.payload = c.opening ++ rest →
    ∃ new, u.chronicle = s.chronicle ++ new ∧
      (¬Overdue new due ∧ (s.deliver app f).outcome? op = some (.ok (.payload rest)) ∨
        Overdue new due ∧ (s.deliver app f).outcome? op = some (.error .timeout))
  /-- Timers that expire fail the operation if its window has closed, and only then. -/
  expired : ∀ {s away owed h op due}, Sound (.chronicled θ) away owed s →
    h ∈ away ++ s.chain → h.Holds s.timers op due →
    h.Bides [.expired s.now] op due s.expireTimers
  /-- A teardown fails the operation, at either stage, unless a handler that is aborted has the
  timers expire first. -/
  torn : ∀ {s away owed h op due}, Sound (.chronicled θ) away owed s → h ∈ s.chain →
    h.Holds s.timers op due → ∀ e, ∃ new, (s.tearDown app e).chronicle = s.chronicle ++ new ∧
      (Overdue new due ∧ (s.tearDown app e).outcome? op = some (.error .timeout) ∨
        (s.tearDown app e).outcome? op = some (.error e))
  /-- A wait whose operation is decided lets every frame pass, and leaves the chain. -/
  passed : ∀ {s away owed h op}, Sound (.chronicled θ) away owed s →
    h ∈ away ++ s.chain → h.awaits? = some c.pattern → h.operation? = some op →
    (s.outcome? op).isSome = true → ∀ f,
      ¬h.Accepts s.timers f ∧ h.offer app f s = (s, { verdict := .evict })

section Laws

variable {app : Application (θ × List Moment)} {command : Command} {c : Confirmation}
  {s t u : Session (θ × List Moment)} {away : List Handler} {owed : List Tracked}
  {op : OperationId} {waits : List Wait} {f : Frame} {e : Failure}

/-- No run brings a request further that is neither answered nor torn down. -/
theorem Uses.asked {ws : List Wait} {new : List Moment} (hrun : Uses (.chronicled θ) s ws t)
    (hsettled : s.Settled) (hs : Sound (.chronicled θ) away owed s)
    (hh : .asking command c op ∈ s.chain) (hnew : t.chronicle = s.chronicle ++ new)
    (hunanswered : ∀ f verdict, .delivered f ∈ new → f.kind = .srsp →
      ¬Acknowledges command f verdict)
    (huntorn : s.depth = 0 → ∀ e, .shutdown e ∉ new) :
    .asking command c op ∈ t.chain ∧ t.pending op = true := by
  have hholds : (Handler.asking command c op).Holds s.timers op none := ⟨rfl, rfl⟩
  obtain ⟨new', hnew', hfate⟩ := hrun.fated hsettled hs hh hholds
  obtain rfl := List.append_cancel_left (hnew.symm.trans hnew')
  cases hfate with
  | held hmem hheld =>
    have ht := hrun.keeps (Session.upholds_kept _) away owed hs
    exact ⟨hmem, Accounts.pending_of_handler ht (List.mem_append_right _ hmem) hheld.carried?⟩
  | expired hdue => exact absurd hdue (not_overdue_none _)
  | served hf haccepts =>
    obtain ⟨hkind, verdict, hack⟩ := Handler.accepts_asking_iff.1 haccepts
    exact absurd hack (hunanswered _ verdict hf hkind)
  | torn hdepth he => exact absurd he (huntorn hdepth _)

variable (happ : Lawful (.chronicled θ) app)
include happ

/-- The confirmation is the outcome, without what it opens with. -/
theorem Sound.confirms {h : Handler} {due : Option Nat} {rest : Bytes}
    (hs : Sound (.chronicled θ) away owed s) (hreaches : s.Reaches app f h waits u)
    (hp : h.awaits? = some c.pattern) (hholds : h.Holds s.timers op due) (hkind : f.kind = .areq)
    (hcommand : f.command = c.command) (hpayload : f.payload = c.opening ++ rest) :
    ∃ new, u.chronicle = s.chronicle ++ new ∧
      (¬Overdue new due ∧ (s.deliver app f).outcome? op = some (.ok (.payload rest)) ∨
        Overdue new due ∧ (s.deliver app f).outcome? op = some (.error .timeout)) := by
  obtain ⟨before, behind, left, tracked, hchain, hpassed⟩ := hreaches
  have hstays := Session.outlives_dispatched happ f s op
  obtain ⟨-, new, hnew, hbides⟩ := front_bides happ hs hchain hpassed
  refine ⟨new, hnew, ?_⟩
  rcases hbides h (List.mem_singleton.2 rfl) op due hholds with ⟨hheld, hdue⟩ | ⟨hdue, hout⟩
  · have hf := (hs.reached happ hchain hpassed).formed h List.mem_cons_self
    have hyes : h.Accepts u.timers f := hheld.accepts hf hp hkind hcommand ⟨rest, hpayload.symm⟩
    obtain ⟨answer, hgets, hout⟩ := hs.completes happ hchain hpassed hyes
      (Handler.settles?_of_awaits hp hheld.operation?)
    obtain rfl := hgets.eq_of_awaits hp hpayload
    exact Or.inl ⟨hdue, hstays _ hout⟩
  · exact Or.inr ⟨hdue, hstays _ ((rest_bides happ hs hchain hpassed).outlives op _ hout)⟩

/-- Every confirmed request goes by these laws. -/
theorem Lawful.confirmedRequest (command : Command) (payload : Bytes) (c : Confirmation) :
    ConfirmedRequest app command payload c where
  issued hlen s := by
    have hfits : (Exchange.confirmed command payload c).refusal? = none := by
      simp [Exchange.refusal?, Exchange.confirmed, Nat.not_lt.2 hlen]
    simp only [Session.call, Session.request, Request.exchange, Session.exchange, hfits]
    rfl
  fated hrun hsettled hs hh hholds := hrun.fated hsettled hs hh hholds
  asked := Uses.asked
  failed := Sound.fails_asking happ
  installed := Sound.installs_wait happ
  confirmed := Sound.confirms happ
  expired hs hh hholds := hs.bides_expire hh hholds
  torn hs hh hholds e := Sound.tearDown_fate happ hs hh hholds e
  passed hs hh hp hop hdecided f := Handler.offer_of_decided hs hh hp hop hdecided app f

end Laws

/-! ## A binding -/

/-- A request for a binding, which is to be confirmed in the window if there is one. -/
def bindRequest (window : Option Nat) : Exchange :=
  .confirmed ⟨.zdo, 0x21⟩ [] ⟨⟨.zdo, 0xA1⟩, window, [0x34, 0x12]⟩

/-- The co-processor accepts the request. -/
def bindAccepted : Frame := ⟨.srsp, ⟨.zdo, 0x21⟩, [0]⟩

/-- The device confirms the binding. -/
def bindConfirmed : Frame := ⟨.areq, ⟨.zdo, 0xA1⟩, [0x34, 0x12, 0]⟩

/-- A session with a subscriber of the application that asked for a binding. -/
def Session.binding (window : Option Nat) : Session (Unit × List Moment) :=
  [.subscribe .permitJoin 0, .call (.request (.bare (bindRequest window)))].foldl
    (fun s d => (Licence.chronicled Unit).perform .silent d s) (.start {} ((), []))

/-- The session after the request was accepted. -/
def Session.bindingAccepted (window : Option Nat) : Session (Unit × List Moment) :=
  (Licence.chronicled Unit).perform .silent (.deliver bindAccepted) (.binding window)

/-- The request to bind was made. -/
theorem Reachable.binding (window : Option Nat) :
    Reachable (.chronicled Unit) (.binding window) := by
  have hsilent : Lawful (.chronicled Unit) .silent := .silent fun _ => trivial
  have hheard := (Reachable.start (.chronicled Unit) {} ((), [])).deed hsilent
    (d := .subscribe .permitJoin 0) ⟨trivial, trivial⟩ trivial
  exact hheard.deed hsilent (d := .call (.request (.bare (bindRequest window))))
    ⟨trivial, trivial⟩ trivial

/-- And it was accepted. -/
theorem Reachable.bindingAccepted (window : Option Nat) :
    Reachable (.chronicled Unit) (.bindingAccepted window) :=
  (Reachable.binding window).deed (.silent fun _ => trivial) (d := .deliver bindAccepted)
    ⟨trivial, trivial⟩ trivial

/-- A confirmation that comes before the answer is not taken, and a rejection ends the
request. When it is accepted, the confirmation is taken after the window has closed, as long
as no timers expired; and if they did, it timed out. -/
theorem binding_confirmed :
    let late := (Session.bindingAccepted (some 5000)).advance 5000
    ((Licence.chronicled Unit).perform .silent (.deliver bindConfirmed)
      (.binding (some 5000))).pending 0 = true ∧
    ((Session.binding (some 5000)).deliver .silent ⟨.srsp, .rpcError, [2, 0x25, 0x21]⟩).outcome? 0 =
      some (.error (.rpc 2)) ∧
    (Session.bindingAccepted (some 5000)).pending 0 = true ∧
    (late.deliver .silent bindConfirmed).outcome? 0 = some (.ok (.payload [0])) ∧
    late.expireTimers.outcome? 0 = some (.error .timeout) := by
  intro late
  have hsilent : Lawful (.chronicled Unit) .silent := .silent fun _ => trivial
  have laws := hsilent.confirmedRequest ⟨.zdo, 0x21⟩ [] ⟨⟨.zdo, 0xA1⟩, some 5000, [0x34, 0x12]⟩
  have hbinding := (Reachable.binding (some 5000)).sound
  have hlate : Sound (.chronicled Unit) [] [] late :=
    Accounts.congr (Reachable.bindingAccepted (some 5000)).sound rfl rfl rfl rfl
  let waiting : Handler := .timed 0 (.wait ⟨.areq, ⟨.zdo, 0xA1⟩, [0x34, 0x12]⟩ 0)
  have hwaits : waiting.Holds late.timers 0 (some 5000) :=
    ⟨rfl, 5000, rfl, List.mem_singleton.2 rfl⟩
  refine ⟨?_, ?_, ?_, ?_, ?_⟩
  · have hrun := (Uses.refl (Session.binding (some 5000))).deed hsilent
      (d := .deliver bindConfirmed) ⟨trivial, trivial⟩ trivial
    have hnew : ((Licence.chronicled Unit).perform .silent (.deliver bindConfirmed)
        (.binding (some 5000))).chronicle = [] ++ [.delivered bindConfirmed] := rfl
    refine (laws.asked hrun (fun _ => rfl) hbinding
      (List.mem_append_right _ (List.mem_singleton.2 rfl)) hnew ?_ fun _ => by simp).2
    intro f verdict hf hkind
    cases List.mem_singleton.1 hf
    cases hkind
  · refine (laws.failed hbinding ⟨(Session.start {} ()).chain, [], _, [], rfl, rfl⟩ rfl ?_).1
    exact .rejected (by decide) ⟨rfl, 0x25, 0x21, rfl, by decide, by decide⟩
  · exact (laws.installed (f := bindAccepted) hbinding
      ⟨(Session.start {} ()).chain, [], _, [], rfl, rfl⟩ rfl (.success rfl rfl)).1
  · obtain ⟨new, hnew, hout⟩ := laws.confirmed (f := bindConfirmed) hlate
      ⟨(Session.start {} ()).chain, [], _, [], rfl, rfl⟩ (h := waiting) rfl hwaits rfl rfl rfl
    obtain rfl : new = [] := List.self_eq_append_right.1 hnew
    refine (hout.resolve_right ?_).2
    rintro ⟨⟨_, _, _, hnone, _⟩, _⟩
    cases hnone
  · have hbides := laws.expired hlate (List.mem_append_right _ ?_) (h := waiting) hwaits
    · refine (hbides.resolve_left fun hheld => hheld.2 ?_).2
      exact ⟨5000, late.now, rfl, List.mem_singleton.2 rfl, Nat.le_refl _⟩
    · exact List.mem_append_right _ (List.mem_singleton.2 rfl)

/-- An application whose subscribers have the confirmation of the binding delivered. -/
def Application.overhearing : Application (Unit × List Moment) :=
  .acting (.chronicled Unit) .silent fun _ => [.deliver bindConfirmed]

/-- A subscriber that delivers a frame from within an emission keeps to the licence. -/
theorem Lawful.overhearing : Lawful (.chronicled Unit) .overhearing := by
  refine .acting (.silent fun _ => trivial) (fun _ d hd => ?_) fun _ d hd s => ?_
  all_goals cases List.mem_singleton.1 hd
  · exact ⟨trivial, trivial⟩
  · trivial

/-- A request that was accepted is not confirmed by the first frame that would, if the session
is torn down before, or if the frame is delivered in a dispatch, where the wait is out. -/
theorem binding_unconfirmed :
    let s := Session.bindingAccepted none
    Reachable (.chronicled Unit) s ∧ Lawful (.chronicled Unit) .overhearing ∧
    s.pending 0 = true ∧
    ((s.shutdown .silent (.shutdown "closing")).deliver .silent bindConfirmed).outcome? 0 =
      some (.error (.shutdown "closing")) ∧
    (s.deliver .overhearing permitJoin).chronicle =
      s.chronicle ++ [.delivered bindConfirmed] ∧
    (s.deliver .overhearing permitJoin).pending 0 = true :=
  ⟨.bindingAccepted none, .overhearing, rfl, rfl, rfl, rfl⟩

end ZigbeeHost
