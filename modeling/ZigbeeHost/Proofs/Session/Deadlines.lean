import ZigbeeHost.Config.Load
import ZigbeeHost.Link
import ZigbeeHost.Proofs.Session.Nesting
/-!
# Deadlines that a clock can show

A window of a configuration may have any number of seconds that fits 64 bits, but a clock
cannot show every instant that is so far away (`Instant.remaining`). A deadline is worked out
when a wait is installed, at the end of the dispatch of the frame that answers a request
(`Session.overrun_dispatched`). So it depends on the time at which the answer comes whether a
configured window is too long (`Session.Held.confirmation_in_range_iff`), and the longest ones
always are (`Session.longest_window_overruns`).
-/

namespace ZigbeeHost

variable {η : Type} {L : Licence η} {origin : Instant}

/-! ## Waits that are installed too late -/

theorem Timers.overrun_eq {α : Type} (origin : Instant) (t : Timers α) :
    t.overrun origin = (t.armed.map Timer.deadline).any fun d => (origin.after? d).isNone := by
  rw [List.any_map]
  rfl

/-- The window of the wait, opened at the time `now`, closes at no time that a clock can show
that showed `origin` at time zero. -/
def Wait.late (origin : Instant) (now : Nat) (w : Wait) : Bool :=
  w.window.any fun window => (origin.after? (now + window)).isNone

namespace Session

/-- To install a wait adds its deadline to those that may be too late. -/
theorem overrun_install (origin : Instant) (s : Session η) (w : Wait) :
    (s.install w).timers.overrun origin = (s.timers.overrun origin || w.late origin s.now) := by
  unfold install Wait.late
  split
  · rename_i hwindow
    simp [hwindow, addHandler]
  · rename_i window hwindow
    simp [hwindow, addHandler, Timers.arm, Timers.overrun]

/-- To install waits adds the deadlines of all of them. -/
theorem overrun_installed (origin : Instant) (waits : List Wait) (s : Session η) :
    (waits.foldl (fun s w => s.install w) s).timers.overrun origin =
      (s.timers.overrun origin || waits.any (Wait.late origin s.now)) := by
  induction waits generalizing s with
  | nil => simp
  | cons w waits ih =>
    have hnow : (s.install w).now = s.now := by rw [install_eq]
    rw [List.foldl_cons, ih, overrun_install, hnow, List.any_cons, Bool.or_assoc]

/-- The waits that a walk asked for are installed at the time of its end. -/
theorem overrun_leave (origin : Instant) (chain : List Handler) (waits : List Wait)
    (tracked : List Tracked) (s : Session η) :
    (s.leave chain waits tracked).timers.overrun origin =
      (s.timers.overrun origin || waits.any (Wait.late origin s.now)) := by
  have htrack : ∀ u : Session η, (tracked.foldl (fun u x => u.track x) u).timers = u.timers := by
    intro u
    refine List.foldlRecOn tracked _ (motive := fun v : Session η => v.timers = u.timers) rfl ?_
    exact fun v hv x _ => hv
  unfold leave
  dsimp only
  rw [htrack, overrun_installed]
  rfl

/-- A dispatch overruns the clock by the waits that it installs. -/
theorem overrun_dispatched {app : Application η} {f : Frame} {s u : Session η}
    {chain : List Handler} {waits : List Wait} {tracked : List Tracked} {stopped : Bool}
    (hwalk : s.enter.walk app f s.chain = (chain, (u, waits, tracked), stopped)) :
    (s.dispatched app f).timers.overrun origin =
      (u.timers.overrun origin || waits.any (Wait.late origin u.now)) := by
  unfold dispatched
  rw [hwalk]
  exact overrun_leave origin chain waits tracked u

end Session

/-- With `t` on the clock, a window is too long if the clock cannot go on for so long. -/
theorem Wait.late_iff {t : Instant} {now : Nat} (hclock : origin.after? now = some t)
    {w : Wait} :
    w.late origin now = true ↔ ∃ window, w.window = some window ∧ t.remaining ≤ window := by
  unfold Wait.late
  rw [Option.any_eq_true]
  refine exists_congr fun window => and_congr_right fun _ => ?_
  rw [Instant.after?_of_after? hclock, Option.isNone_iff_eq_none, ← Option.not_isSome_iff_eq_none,
    Instant.isSome_after?_iff, Int.not_lt]

/-! ## Configured windows -/

/-- The seconds for which a request that is confirmed in a configured window waits, none for a
request that is not. Zero seconds never end. -/
def Request.windowSecs? (config : SessionConfig) : Request → Option UInt64
  | .network (.bind _) | .network (.unbind _) | .network (.bindTable ..) =>
    some config.zdoTimeoutSecs
  | .endpoint (.sendData _) => some (config.dataConfirmTimeoutSecs.getD 0)
  | _ => none

/-- The answer that a request was accepted. -/
def Exchange.accepted (x : Exchange) : Frame := ⟨.srsp, x.command, [0]⟩

/-- Such a request is answered by a frame of its own command, and then confirmed. -/
theorem Request.exchange_of_windowSecs? {config : SessionConfig} {r : Request} {secs : UInt64}
    (hr : r.windowSecs? config = some secs) :
    ∃ x c, r.exchange config = .ok x ∧ x.responses = [x.command] ∧ x.confirmation = some c ∧
      c.window = SessionConfig.window? secs := by
  cases r with
  | network r =>
    cases r <;> cases hr <;> exact ⟨_, _, rfl, rfl, rfl, rfl⟩
  | endpoint r =>
    cases r <;> cases hr
    refine ⟨_, _, rfl, rfl, rfl, ?_⟩
    change config.dataConfirmTimeout? = _
    unfold SessionConfig.dataConfirmTimeout?
    cases config.dataConfirmTimeoutSecs <;> rfl
  | system | configuration | lookup | commissioning | bare => cases hr

/-- A wait for a number of seconds is too late if the clock cannot go on for so long. No clock
stops at once. -/
theorem Wait.late_eq_false_iff {t : Instant} {now : Nat} (hclock : origin.after? now = some t)
    {w : Wait} {secs : UInt64} (hw : w.window = SessionConfig.window? secs) :
    w.late origin now = false ↔ 1000 * (secs.toNat : Int) < t.remaining := by
  rw [← Bool.not_eq_true, Wait.late_iff hclock, hw]
  have hremaining := t.remaining_pos
  unfold SessionConfig.window?
  split
  · rename_i hzero
    simp [hzero, hremaining]
  · simp

namespace Session

/-- What the answer does that a request was accepted whose window has `secs` seconds. It comes to
its handler in `u`, behind handlers that asked for the waits. -/
structure OpensWindow (app : Application η) (origin : Instant) (s : Session η) (x : Exchange)
    (op : OperationId) (secs : UInt64) (waits : List Wait) (u : Session η) : Prop where
  /-- A wait for the confirmation is installed, and its window opens then. -/
  installed : ∃ h ∈ (s.dispatched app x.accepted).chain,
    h.Holds (s.dispatched app x.accepted).timers op
      ((SessionConfig.window? secs).map (u.now + ·))
  /-- Of the deadlines that it leaves, those that were there and those of the waits must be in
  range for a clock that shows `t`, and the clock must be able to go on for longer than the
  window. -/
  inRange_iff : ∀ t, origin.after? u.now = some t →
    ((s.dispatched app x.accepted).timers.overrun origin = false ↔
      u.timers.overrun origin = false ∧ (∀ w ∈ waits, w.late origin u.now = false) ∧
        1000 * (secs.toNat : Int) < t.remaining)
  /-- Otherwise the link does not survive the round in which the answer comes. -/
  overrun : ∀ t (link : Link), origin.after? u.now = some t →
    t.remaining ≤ 1000 * (secs.toNat : Int) →
    (link.inbound.readFrame link.line).1 = .ok (some x.accepted) →
    link.overrun app origin 1 s = true

variable (origin) in
/-- **Confirmations in range.** Whenever a request is accepted that is confirmed in a configured
window, the deadline of its confirmation is in range if and only if the clock can go on for longer
than the window from then on. -/
theorem Held.confirmation_in_range_iff {app : Application η} (happ : Lawful L app)
    {s : Session η} (hs : s.Held L) {config : SessionConfig} {r : Request} {secs : UInt64}
    (hr : r.windowSecs? config = some secs) :
    ∃ x, r.exchange config = .ok x ∧ ∀ op waits u,
      s.Reaches app x.accepted (.response x.responses (x.aftermath op)) waits u →
        s.OpensWindow app origin x op secs waits u := by
  obtain ⟨x, c, hx, hresponses, hconfirmed, hwindow⟩ := Request.exchange_of_windowSecs? hr
  refine ⟨x, hx, fun op waits u hreaches => ?_⟩
  have hasking : Handler.response x.responses (x.aftermath op) = .asking x.command c op := by
    simp only [Handler.asking, Exchange.aftermath, hresponses, hconfirmed]
  rw [hasking] at hreaches
  have hack : Acknowledges x.command x.accepted (.ok ()) := .success rfl rfl
  let w : Wait := ⟨c.pattern, c.window, op⟩
  obtain ⟨away, owed, hsound⟩ := hs.sound
  obtain ⟨-, ⟨h, hh, -, hholds⟩, -⟩ := hsound.installs_wait happ hreaches rfl hack
  have hdispatched : (s.dispatched app x.accepted).timers.overrun origin =
      (u.timers.overrun origin ||
        (waits ++ [w]).any (Wait.late origin u.now)) := by
    obtain ⟨answer, left, behind, tracked, hverdict, hwalk⟩ := hreaches.walk_eq rfl hack
    have hresumed : (Aftermath.confirm c op).resume app answer u = (u, { waits := [w] }) := by
      simp only [Aftermath.resume, hverdict]
      rfl
    rw [hresumed] at hwalk
    exact overrun_dispatched hwalk
  have hlate (t : Instant) (hclock : origin.after? u.now = some t) :
      w.late origin u.now = false ↔ 1000 * (secs.toNat : Int) < t.remaining :=
    Wait.late_eq_false_iff hclock hwindow
  refine ⟨⟨h, hh, hwindow ▸ hholds⟩, fun t hclock => ?_, fun t link hclock hlong hread => ?_⟩
  · rw [hdispatched, ← hlate t hclock]
    simp
  · have hoverrun : (s.dispatched app x.accepted).timers.overrun origin = true := by
      have hwaits : w.late origin u.now = true := by
        rw [← Bool.not_eq_false, hlate t hclock]
        exact Int.not_lt.2 hlong
      rw [hdispatched]
      simp [hwaits]
    unfold Link.overrun Link.dispatching?
    simp [hread, hoverrun]

/-! ## A binding -/

/-- A device is to be bound to a group. -/
def groupBinding : Request :=
  .network (.bind ⟨0x1234, 0x00124B0001020304, 1, 6, .group 0xFFFF⟩)

/-- A session that asked for the binding. -/
def bindingToGroup (config : SessionConfig) : Session Unit :=
  ((Session.start config ()).call (.request groupBinding)).2

/-- A session in which a binding to a group is under way. -/
theorem bindingToGroup_reachable (config : SessionConfig) :
    Reachable .facade (bindingToGroup config) :=
  (Reachable.start .facade config ()).deed (.silent fun _ => trivial)
    (d := .call (.request groupBinding)) ⟨trivial, trivial⟩ trivial

/-- With the default window of 15 seconds, a clock that was started at zero can show the
deadline. -/
theorem default_window_in_range :
    let s := (bindingToGroup {}).dispatched .silent bindAccepted
    s.timers.nextDeadline? = some 15000 ∧ s.timers.overrun (.ofNanos 0) = false := by
  have hsilent : Lawful .facade (.silent : Application Unit) := .silent fun _ => trivial
  have hseconds : groupBinding.windowSecs? {} = some 15 := rfl
  obtain ⟨x, hx, hopens⟩ := Held.confirmation_in_range_iff (.ofNanos 0) hsilent
    (bindingToGroup_reachable {}).held hseconds
  cases hx
  have hopened := hopens 0 [] _ ⟨_, [], _, _, rfl, rfl⟩
  exact ⟨rfl, (hopened.inRange_iff (.ofNanos 0) rfl).2 ⟨rfl, nofun, by decide⟩⟩

/-- The co-processor sends the frame that accepts the binding. -/
def acceptingLink : Link := { line := { incoming := [0xFE, 1, 0x65, 0x21, 0, 0x45] } }

/-- The acceptance is on the line. -/
theorem readFrame_acceptingLink :
    (acceptingLink.inbound.readFrame acceptingLink.line).1 = .ok (some bindAccepted) := by
  -- The header comes first, and then what it announces.
  unfold Inbound.readFrame
  change (Inbound.readFrame ⟨[0xFE, 1], 0⟩ { incoming := [0x65, 0x21, 0, 0x45] }).1 = _
  unfold Inbound.readFrame
  change (Inbound.readFrame ⟨[0xFE, 1, 0x65, 0x21, 0, 0x45], 0⟩ {}).1 = _
  unfold Inbound.readFrame
  rfl

/-- A text may ask for a window of as many seconds as 64 bits can hold. The frame that accepts a
binding then leaves a deadline that no clock can show, unless it is still within the first of all
seconds, and the link does not survive it. -/
theorem longest_window_overruns :
    ∃ config, (SessionConfig.load "\x7b\"zdo_timeout_secs\":18446744073709551615\x7d").toOption =
        some config ∧
      Reachable .facade (bindingToGroup config) ∧
      ∀ origin : Instant, -0x8000000000000000 < origin.secs →
        ((bindingToGroup config).dispatched .silent bindAccepted).timers.overrun origin = true ∧
          acceptingLink.overrun .silent origin 1 (bindingToGroup config) = true := by
  let config : SessionConfig := { zdoTimeoutSecs := 18446744073709551615 }
  have harmed : ((bindingToGroup config).dispatched .silent bindAccepted).timers.armed.map
      Timer.deadline = [1000 * 0xFFFFFFFFFFFFFFFF] := by
    decide +kernel
  refine ⟨config, by decide +kernel, bindingToGroup_reachable config, fun origin horigin => ?_⟩
  have hlate : (origin.after? (1000 * 0xFFFFFFFFFFFFFFFF)).isNone = true := by
    rw [← Option.not_isSome, Bool.not_eq_true', ← Bool.not_eq_true, Instant.isSome_after?_iff]
    unfold Instant.remaining Instant.millis
    omega
  have hoverrun : ((bindingToGroup config).dispatched .silent bindAccepted).timers.overrun origin =
      true := by
    rw [Timers.overrun_eq, harmed, List.any_cons, hlate, Bool.true_or]
  refine ⟨hoverrun, ?_⟩
  unfold Link.overrun Link.dispatching?
  simp [readFrame_acceptingLink, hoverrun]

end Session

end ZigbeeHost
