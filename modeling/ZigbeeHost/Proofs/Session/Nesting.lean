import ZigbeeHost.Proofs.Session.Confirmation
import ZigbeeHost.Proofs.Session.Newcomers
/-!
# Frames that come in the midst of a dispatch

A deed calls the application back, which may do anything with the session that it is given, have
another frame delivered for example. `Deed.Calls` says with which sessions a deed calls the
application, `Session.Held` are the sessions that it ever has in hand, and `Session.Amid s` those
that it has while a dispatch that began in `s` is the innermost one (`Session.Amid.calls`).

The chain of `s` is out by then. What is in the chain instead came since : it emits nothing, and
its operations were issued since (`Session.Amid.recent`). So a frame that is delivered in the
midst of a dispatch goes to these newcomers, in order, and to nobody else
(`Session.Amid.interjected`).
-/

namespace ZigbeeHost

variable {η : Type} {L : Licence η} {app : Application η}

/-! ## Whom a deed calls -/

namespace Session

/-- An emission calls the application with `v` : a subscriber has its turn. -/
def Hears (app : Application η) (i : Indication) (s v : Session η) : Prop :=
  ∃ before slot behind callback t, s.stored i.event = before ++ slot :: behind ∧
    t = before.foldl (notify app i) s ∧ slot.subscriber = .application callback ∧
    t.isConnected slot.connection = true ∧ slot.connection ∉ t.running ∧
    v = { t with running := slot.connection :: t.running }

end Session

/-- A handler that is offered a frame calls the application with `v`. -/
inductive Handler.Calls (app : Application η) (f : Frame) (s : Session η) :
    Handler → Session η → Prop
  | heard {kind : FrameKind} {command : Command} {event : Event} {lenient : Bool} {i : Indication}
      {v : Session η} : f.kind = kind → f.command = command →
      event.read lenient f.payload = .ok i → s.Hears app i v →
      Calls app f s (.indication kind command event lenient) v
  | answered {accepted : List Command} {callback : CallbackId} {answer : Except Failure Bytes} :
      answer? accepted f = some answer →
      Calls app f s (.response accepted (.application callback)) s
  | timed {timer : TimerId} {inner : Handler} {v : Session η} : s.timers.active timer = true →
      Calls app f s inner v → Calls app f s (.timed timer inner) v
  | custom {callback : CallbackId} {permanent : Bool} : Calls app f s (.custom callback permanent) s

/-- A handler that is aborted calls the application with `v`. -/
inductive Handler.CallsAborted : Handler → Session η → Session η → Prop
  | answered {accepted : List Command} {callback : CallbackId} {s : Session η} :
      CallsAborted (.response accepted (.application callback)) s s
  | timed {timer : TimerId} {inner : Handler} {s v : Session η} : s.timers.active timer = true →
      CallsAborted inner (s.disarm timer) v → CallsAborted (.timed timer inner) s v
  | custom {callback : CallbackId} {permanent : Bool} {s : Session η} :
      CallsAborted (.custom callback permanent) s s

namespace Session

/-- A teardown calls the application with `v` : a handler is aborted, and those in front of it
were. -/
def Aborts (app : Application η) (e : Failure) (s v : Session η) : Prop :=
  ∃ before h behind, s.chain = before ++ h :: behind ∧ h.permanent = false ∧
    h.CallsAborted (Chain.drain Handler.permanent (Handler.abort app e) before
      { s with chain := [], tracked := [], outbound := [] }).2 v

end Session

/-- A deed calls the application with `v`. -/
inductive Deed.Calls (app : Application η) (s : Session η) : Deed η → Session η → Prop
  | walking {f : Frame} {h : Handler} {waits : List Wait} {u v : Session η} :
      s.Reaches app f h waits u → h.Calls app f u v → Calls app s (.deliver f) v
  | settling {f : Frame} {e : Failure} {v : Session η} : (s.dispatched app f).due? = some e →
      Session.Aborts app e { s.dispatched app f with deferred := none } v →
      Calls app s (.deliver f) v
  | emitting {i : Indication} {v : Session η} : s.Hears app i v → Calls app s (.emit i) v
  | aborting {e : Failure} {v : Session η} : s.depth = 0 → s.Aborts app e v →
      Calls app s (.shutdown e) v

namespace Session

/-! ## Sessions in hand -/

/-- The sessions that an application ever has in hand : those that it reaches, and those that it
is called with, at any depth. -/
inductive Held (L : Licence η) : Session η → Prop
  | start (config : SessionConfig) (host : η) : Held L (.start config host)
  | uses {s t : Session η} {ws : List Wait} : Held L s → Uses L s ws t → Held L t
  | called {s v : Session η} {app : Application η} {d : Deed η} : Held L s → Lawful L app →
      d.Calls app s v → Held L v

/-- The sessions that an application has in hand while a dispatch that began in `s` is the
innermost one. -/
inductive Amid (L : Licence η) (s : Session η) : Session η → Prop
  | called {app : Application η} {f : Frame} {h : Handler} {waits : List Wait} {u v : Session η} :
      Lawful L app → s.Reaches app f h waits u → h.Calls app f u v → Amid L s v
  | uses {u v : Session η} {ws : List Wait} : Amid L s u → Uses L u ws v → Amid L s v
  | heard {app : Application η} {i : Indication} {u v : Session η} : Amid L s u → Lawful L app →
      u.Hears app i v → Amid L s v

end Session

theorem Reachable.held {s : Session η} (hs : Reachable L s) : s.Held L :=
  let ⟨config, host, h⟩ := hs
  .uses (.start config host) h

namespace Session

variable {s u v : Session η}

/-- A dispatch in a session in hand calls with sessions in hand, so dispatches may nest. -/
theorem Amid.held (hs : Held L s) (h : Amid L s v) : Held L v := by
  induction h with
  | called happ hreaches hcalls => exact hs.called happ (.walking hreaches hcalls)
  | uses _ hrun ih => exact ih.uses hrun
  | heard _ happ hhears ih => exact ih.called happ (.emitting hhears)

/-! ## All that is in hand is sound -/

section Sound

variable {away : List Handler} {owed : List Tracked} (happ : Lawful L app)
include happ

theorem sound_of_hears {i : Indication} (hs : Sound L away owed s) (h : s.Hears app i v) :
    Sound L away owed v := by
  obtain ⟨before, slot, behind, callback, t, hstored, rfl, -, -, -, rfl⟩ := h
  have hbefore : ∀ other ∈ before, other ∈ s.subscribers.stored := fun other hother =>
    (List.mem_filter.1 (hstored ▸ List.mem_append_left _ hother)).1
  have hconnects := narrow_connects.stable.notify happ.connects i
  -- Of those in front only the connected ones have a turn.
  rw [foldl_notify_filter happ.connects i hbefore (narrow_connects.stable.refl s)]
  have hfold := List.foldlRecOn (before.filter fun other => s.isConnected other.connection)
    (Session.notify app i) (motive := fun t => s.Connects t ∧ Sound L away owed t)
    ⟨narrow_connects.stable.refl s, hs⟩ fun t ⟨hst, ht⟩ other hother => by
      obtain ⟨hmem, hconnected⟩ := List.mem_filter.1 hother
      exact ⟨narrow_connects.trans hst (hconnects t other), ht.notify happ.upholds i hst
        (Roster.mem_live.2 ⟨hbefore other hmem, hconnected⟩)⟩
  exact Accounts.congr hfold.2 rfl rfl rfl rfl

theorem sound_of_calls {f : Frame} {h : Handler} (hs : Sound L (h :: away) owed s)
    (hcalls : h.Calls app f s v) : ∃ away owed, Sound L away owed v := by
  cases hcalls with
  | heard _ _ _ hhears => exact ⟨_, _, sound_of_hears happ hs hhears⟩
  | answered | custom => exact ⟨_, _, hs⟩
  | timed _ hinner =>
    obtain ⟨p, op, rfl⟩ := hs.inner_eq
    cases hinner

theorem sound_of_aborts {e : Failure} (hs : Sound L away owed s) (h : s.Aborts app e v) :
    ∃ away owed, Sound L away owed v := by
  obtain ⟨before, h, behind, hchain, -, hcalls⟩ := h
  have hcleared := hs.cleared
  rw [hchain, List.append_assoc] at hcleared
  have hdrained := hcleared.drain happ.upholds before e
  cases hcalls with
  | answered | custom => exact ⟨_, _, hdrained⟩
  | timed _ hinner =>
    obtain ⟨p, op, rfl⟩ := Sound.inner_eq (hdrained.perm List.perm_middle (List.Perm.refl _))
    cases hinner

theorem sound_of_reaches {f : Frame} {h : Handler} {waits : List Wait} (hs : Sound L away owed s)
    (hreaches : s.Reaches app f h waits u) (hcalls : h.Calls app f u v) :
    ∃ away owed, Sound L away owed v := by
  obtain ⟨before, behind, left, tracked, hchain, hpassed⟩ := hreaches
  exact sound_of_calls happ (hs.reached happ hchain hpassed) hcalls

end Sound

/-- The operations of a session in hand are accounted for, with handlers and tracked operations
that are out of it. -/
theorem Held.sound (h : Held L s) : ∃ away owed, Sound L away owed s := by
  induction h with
  | start config host => exact ⟨_, _, Sound.start L config host⟩
  | uses _ hrun ih =>
    obtain ⟨away, owed, hs⟩ := ih
    exact ⟨_, _, hrun.keeps (upholds_kept L) away owed hs⟩
  | called _ happ hcalls ih =>
    obtain ⟨away, owed, hs⟩ := ih
    cases hcalls with
    | walking hreaches hcalls => exact sound_of_reaches happ hs hreaches hcalls
    | @settling f _ _ _ haborts =>
      have hsettled : Sound L away owed { Session.dispatched _ f _ with deferred := none } :=
        Accounts.congr (hs.dispatched happ f) rfl rfl rfl rfl
      exact sound_of_aborts happ hsettled haborts
    | emitting hhears => exact ⟨_, _, sound_of_hears happ hs hhears⟩
    | aborting _ haborts => exact sound_of_aborts happ hs haborts

/-! ## What is there in the midst of a dispatch -/

/-- What callbacks keep holds from the moment that the chain is out. -/
theorem Amid.keeps {R : Session η → Session η → Prop} (hR : Stable R)
    (hruns : ∀ {u v : Session η} {ws : List Wait}, Uses L u ws v → R u v) (h : Amid L s v) :
    R s.enter v := by
  have hlawful {app : Application η} (happ : Lawful L app) : app.Keeps L fun s _ t => R s t :=
    (Lawful.iff_keeps.1 happ).mono fun _ _ _ => hruns
  have hhears {app : Application η} (happ : Lawful L app) {i : Indication} {u v : Session η}
      (h : u.Hears app i v) : R u v := by
    obtain ⟨before, slot, behind, callback, t, -, rfl, -, -, -, rfl⟩ := h
    exact hR.trans (hR.foldl (hR.notify (hlawful happ) i) before u) (hR.running ..)
  induction h with
  | @called app f h waits u v happ hreaches hcalls =>
    obtain ⟨before, behind, left, tracked, -, hpassed⟩ := hreaches
    have hwalked : R s.enter u := by
      have hwalk := hR.walk (hlawful happ) f before s.enter
      rwa [walk_eq, hpassed] at hwalk
    refine hR.trans hwalked ?_
    clear hpassed
    induction hcalls with
    | heard _ _ _ hheard => exact hhears happ hheard
    | answered | custom => exact hR.refl u
    | timed _ _ ih => exact ih
  | uses _ hrun ih => exact hR.trans ih (hruns hrun)
  | heard _ happ hheard ih => exact hR.trans ih (hhears happ hheard)

theorem Amid.depth (h : Amid L s v) : v.depth ≠ 0 := by
  have hcalm := h.keeps stable_calm fun hrun => hrun.calm
  exact hcalm.1 ▸ Nat.succ_ne_zero _

/-- Whom a deed calls in the midst of a dispatch, it calls in the midst of it or of a dispatch that
it began there : teardowns are put off. -/
theorem Amid.calls {d : Deed η} (h : Amid L s u) (happ : Lawful L app) (hcalls : d.Calls app u v) :
    Amid L s v ∨ Amid L u v := by
  cases hcalls with
  | walking hreaches hcalls => exact .inr (.called happ hreaches hcalls)
  | @settling f _ _ hdue =>
    have houtermost : (u.dispatched app f).depth = 0 := (Option.ite_none_right_eq_some.1 hdue).1
    exact absurd (dispatched_depth happ f u ▸ houtermost) h.depth
  | emitting hhears => exact .inl (.heard h happ hhears)
  | aborting houtermost => exact absurd houtermost h.depth

theorem Amid.recent (h : Amid L s v) : Recent s.operations.size v :=
  h.keeps stable_recent (fun hrun n hu => (hrun.renews n hu).1) _ ⟨Nat.le_refl _, nofun⟩

theorem Amid.mute (h : Amid L s v) : ∀ g ∈ v.chain, g.mute = true := fun g hg =>
  (((h.keeps stable_gains Uses.gains).handler g hg).resolve_left List.not_mem_nil).1

/-! ## Frames that are delivered there -/

/-- What becomes of a frame that is delivered in `v`, when the operations from `n` on are those
that were issued since the innermost dispatch began. -/
structure Interjected (app : Application η) (n : Nat) (g : Frame) (v : Session η) : Prop where
  /-- Who is in the chain emits nothing, and its operation, should it have one, was issued
  since. -/
  newcomer : ∀ h ∈ v.chain, h.mute = true ∧ ∀ op, h.operation? = some op → n ≤ op
  /-- The frame is offered to them, in order. -/
  offered : v.offered app g <+: v.chain
  /-- No event is emitted. -/
  silent : v.emissions app g = []
  /-- Whoever accepts the frame when it comes takes it, and gets the outcome of its operation if
  it waited for nothing else. -/
  taken : ∀ h waits u, v.Reaches app g h waits u → h.Accepts u.timers g →
    v.taker? app g = some h ∧
      ∀ op, h.settles? = some op → ∃ answer, h.Gets g answer ∧
        (v.deliver app g).outcome? op = some (answer.map .payload)
  /-- The first that does not ignore the frame takes it, if it accepts it for an operation, and
  carries on. Nothing else happens. -/
  first : ∀ before h behind op, v.chain = before ++ h :: behind →
    (∀ x ∈ before, x.Ignores v.timers g) → h.Accepts v.timers g → h.operation? = some op →
    v.taker? app g = some h ∧ ∃ answer, h.Gets g answer ∧
      v.deliver app g = carryOn app h answer
        { v with chain := before.filter (Handler.awake v.timers) ++ behind }
  /-- A frame that all of them ignore is dropped, and those whose timer is gone leave. -/
  dropped : (∀ x ∈ v.chain, x.Ignores v.timers g) → v.taker? app g = none ∧
    v.deliver app g = { v with chain := v.chain.filter (Handler.awake v.timers) }

/-- **Frames in the midst of a dispatch.** A frame that a callback has delivered goes to the
handlers that were added since the innermost dispatch began, as a frame in a session that holds
no others. Who was there before is out, and so are those who emit. -/
theorem Amid.interjected (hs : Held L s) (h : Amid L s v) (happ : Lawful L app) (g : Frame) :
    v.Interjected app s.operations.size g := by
  obtain ⟨away, owed, hsound⟩ := (h.held hs).sound
  have hformed : ∀ x ∈ v.chain, x.Formed L := fun x hx =>
    hsound.formed x (List.mem_append_right _ hx)
  have hoffered : v.offered app g <+: v.chain := Chain.prefix_offered ..
  exact {
    newcomer := fun x hx => ⟨h.mute x hx, h.recent.operation x hx⟩
    offered := hoffered
    silent := List.filterMap_eq_nil_iff.2 fun x hx =>
      Handler.emission?_of_mute (h.mute x (hoffered.subset hx)) g
    taken := by
      rintro x waits u ⟨before, behind, left, tracked, hchain, hpassed⟩ hyes
      refine ⟨(walk_of_accepts hchain hpassed hyes).1, fun op hop => ?_⟩
      obtain ⟨answer, hgets, houtcome⟩ := hsound.completes happ hchain hpassed hyes hop
      exact ⟨answer, hgets, outlives_dispatched happ g v op _ houtcome⟩
    first := fun before x behind op hchain hno hyes hop =>
      deliver_of_first hformed (.inr h.depth) hchain hno hyes hop app
    dropped := fun hno => deliver_of_ignores hformed (.inr h.depth) hno app }

/-- A new session that pinged the co-processor, with a subscriber. -/
def interruptible : Session Unit := (pinged.subscribe .permitJoin (.application 0)).2

end Session

theorem Reachable.interruptible : Reachable {} Session.interruptible :=
  ((Reachable.start {} {} ()).deed (.silent fun _ => trivial)
    (d := .call (.request (.system .ping))) ⟨trivial, trivial⟩ trivial).deed
      (.silent fun _ => trivial) (d := .subscribe .permitJoin 0) ⟨trivial, trivial⟩ trivial

namespace Session

/-- The subscriber of `interruptible` has its turn, and pings too. -/
def interrupting : Session Unit :=
  (({ interruptible.enter with running := [0] } : Session Unit).call (.request (.system .ping))).2

/-- A subscriber that pings while a frame is dispatched, and has the answer delivered, gets it. The
ping that was sent before is not concerned. -/
theorem answered_amid :
    let t := interrupting.deliver .silent pong
    t.outcome? 1 = some (.ok (.payload pong.payload)) ∧ t.pending 0 = true := by
  have hsilent : Lawful {} (.silent : Application Unit) := .silent fun _ => trivial
  have hcalled : Amid {} interruptible { interruptible.enter with running := [0] } :=
    .called hsilent (f := permitJoin)
      ⟨interruptible.chain.take 4, interruptible.chain.drop 5, _, _, rfl, rfl⟩
      (.heard rfl rfl rfl ⟨[], _, [], 0, _, rfl, rfl, rfl, rfl, nofun, rfl⟩)
  have hamid : Amid {} interruptible interrupting :=
    hcalled.uses ((Uses.refl _).deed hsilent (d := .call (.request (.system .ping)))
      ⟨trivial, trivial⟩ trivial)
  have hanswers : pong.command ∈ [pong.command] := List.mem_singleton.2 rfl
  obtain ⟨-, answer, hgets, hdelivered⟩ :=
    (Amid.interjected Reachable.interruptible.held hamid hsilent pong).first [] _ [] 1 rfl nofun
      ⟨rfl, .inl hanswers⟩ rfl
  cases hgets with
  | answer => rw [hdelivered]; exact ⟨rfl, rfl⟩
  | rejection hother => exact absurd hanswers hother

/-- The answer to a ping is lost when a subscriber has it delivered while another frame is
dispatched. It would be taken right after. -/
theorem answer_lost :
    let app : Application Unit := .acting {} .silent fun _ => [.deliver pong]
    Reachable {} interruptible ∧ Lawful {} app ∧
    (interruptible.deliver app permitJoin).pending 0 = true ∧
    ((interruptible.deliver .silent permitJoin).deliver .silent pong).outcome? 0 =
      some (.ok (.payload pong.payload)) := by
  intro app
  have happ : Lawful {} app := by
    refine .acting (.silent fun _ => trivial) (fun _ d hd => ?_) fun _ d hd _ => ?_
    all_goals cases List.mem_singleton.1 hd
    · exact ⟨trivial, trivial⟩
    · trivial
  exact ⟨.interruptible, happ, rfl, rfl⟩

end Session

end ZigbeeHost
