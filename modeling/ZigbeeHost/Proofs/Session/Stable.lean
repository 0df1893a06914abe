import ZigbeeHost.Proofs.Chain
import ZigbeeHost.Proofs.Session.Ledger
/-!
# Relations that handlers keep

A relation between sessions before and after is `Stable` if it is reflexive, transitive and kept
by the few changes that handlers, subscribers and emissions make by themselves: to complete an
operation, to attach or detach a subscriber, to take detached ones off the list, to disarm a timer.
If the callbacks of the application keep such a relation too, an emission keeps it, a handler that
is offered a frame or aborted keeps it, and so do a walk of the chain and its tearing down. What a
subscriber makes of its turn, and what becomes of an answer, is said here once
(`Session.notify_cases`, `Aftermath.resume_cases`).

A `Narrow` relation is one that, besides, looks at no more than the ledger and the
subscribers and holds across the issue of an operation. Every deed keeps it, so it holds
of every run under any licence (`Narrow.kept`).
-/

namespace ZigbeeHost

variable {η : Type}

/-- The turn of one handler in a walk, which collects what the handlers ask for. -/
def Session.turn (app : Application η) (f : Frame) (h : Handler)
    (st : Session η × List Wait × List Tracked) :
    (Session η × List Wait × List Tracked) × Verdict :=
  let (s, reply) := h.offer app f st.1
  ((s, st.2.1 ++ reply.waits, st.2.2 ++ reply.tracked), reply.verdict)

theorem Session.walk_eq (app : Application η) (f : Frame) (chain : List Handler)
    (s : Session η) : s.walk app f chain = Chain.dispatch (turn app f) chain (s, [], []) := rfl

theorem Session.deliver_eq {app : Application η} (f : Frame) (s : Session η) :
    s.deliver app f = (s.dispatched app f).settleDeferred app := rfl

theorem Session.settleDeferred_of_none {s : Session η} (h : s.deferred = none)
    (app : Application η) : s.settleDeferred app = s := by
  unfold Session.settleDeferred
  rw [h]
  cases s.depth <;> rfl

theorem Session.settleDeferred_of_depth {s : Session η} (h : s.depth ≠ 0) (app : Application η) :
    s.settleDeferred app = s := by
  unfold Session.settleDeferred
  split
  · rename_i hd _
    exact absurd hd h
  · rfl

theorem Session.settleDeferred_of_undue {s : Session η} (h : s.deferred = none ∨ s.depth ≠ 0)
    (app : Application η) : s.settleDeferred app = s :=
  h.elim (settleDeferred_of_none · app) (settleDeferred_of_depth · app)

/-- The teardown that is due when a dispatch is done. -/
def Session.due? (s : Session η) : Option Failure := if s.depth = 0 then s.deferred else none

theorem Session.settleDeferred_eq (app : Application η) (s : Session η) :
    s.settleDeferred app = match s.due? with
      | none => s
      | some e => ({ s with deferred := none } : Session η).tearDown app e := by
  unfold settleDeferred due?
  by_cases houtermost : s.depth = 0
  · cases hdeferred : s.deferred <;> simp [houtermost, shutdown]
  · simp [houtermost]

/-- In its turn a subscriber is passed over, or it decides its operation, or the application
hears of the indication. -/
theorem Session.notify_cases (app : Application η) (i : Indication) (s : Session η) (slot : Slot) :
    s.notify app i slot = s ∨
    (∃ watch op outcome, s.isConnected slot.connection = true ∧
      slot.subscriber = .watcher watch op ∧ watch.verdict? i = some outcome ∧
      s.notify app i slot = (s.disconnect slot.connection).complete op outcome) ∨
    ∃ callback, slot.subscriber = .application callback ∧
      s.notify app i slot =
        { app.hear callback slot.connection i
            { s with running := slot.connection :: s.running } with running := s.running } := by
  unfold notify
  split
  · rename_i hconnected
    split
    · rename_i watch op hsub
      split
      · rename_i outcome hverdict
        exact Or.inr (Or.inl ⟨watch, op, outcome, hconnected, hsub, hverdict, rfl⟩)
      · exact Or.inl rfl
    · rename_i callback hsub
      split
      · exact Or.inl rfl
      · exact Or.inr (Or.inr ⟨callback, hsub, rfl⟩)
  · exact Or.inl rfl

/-- A handler whose timer is armed takes its timer along when it is done. -/
theorem Handler.offer_timed_of_active {app : Application η} {f : Frame} {id : TimerId}
    {inner : Handler} {s : Session η} (hid : s.timers.active id = true) :
    (timed id inner).offer app f s =
      (if (inner.offer app f s).2.verdict.remove then (inner.offer app f s).1.disarm id
        else (inner.offer app f s).1, (inner.offer app f s).2) := by
  simp [offer, hid]

/-- A handler whose timer is not armed any more leaves, whatever it is offered. -/
theorem Handler.offer_timed_of_not_active {app : Application η} {f : Frame} {id : TimerId}
    {inner : Handler} {s : Session η} (hid : s.timers.active id = false) :
    (timed id inner).offer app f s = (s, { verdict := .evict }) := by
  simp [offer, hid]

/-- The deed calls nobody back. -/
def Deed.quiet : Deed η → Bool
  | deliver _ | shutdown _ | emit _ => false
  | _ => true

theorem Session.prefix_install (w : Wait) (s : Session η) : s.chain <+: (s.install w).chain := by
  unfold Session.install
  split <;> exact List.prefix_append ..

theorem Session.prefix_call (c : Call) (s : Session η) : s.chain <+: (s.call c).2.chain := by
  cases c with
  | request r =>
    simp only [Session.call, Session.request]
    split
    · exact List.prefix_rfl
    · unfold Session.exchange
      split
      · exact List.prefix_rfl
      · exact List.prefix_append ..
  | reset soft => exact List.prefix_rfl
  | reachState ends allowed => exact List.prefix_append ..
  | waitFor p window => exact Session.prefix_install _ s.issue.2

/-- If nobody is called back, handlers are added only. -/
theorem Deed.prefix_perform {d : Deed η} (hd : d.quiet = true) (app : Application η)
    (s : Session η) : s.chain <+: (d.perform app s).chain := by
  cases d with
  | call c => exact Session.prefix_call c s
  | ask x callback =>
    simp only [Deed.perform, Session.ask]
    split
    · exact List.prefix_rfl
    · exact List.prefix_append ..
  | expire => exact ⟨[], by rw [Deed.perform, Session.expireTimers_eq, List.append_nil]⟩
  | next =>
    simp only [Deed.perform, Session.nextOutbound]
    split <;> exact List.prefix_rfl
  | addHandler callback permanent => exact List.prefix_append ..
  | deliver | shutdown | emit => cases hd
  | advance | send | takeAll | subscribe | disconnect | think => exact List.prefix_rfl

/-- If nobody is called back, timers are armed only, but by expiry. -/
theorem Deed.armed_perform {d : Deed η} (hd : d.quiet = true) (hexpire : d ≠ .expire)
    (app : Application η) (s : Session η) :
    s.timers.armed <+: (d.perform app s).timers.armed := by
  cases d with
  | call c =>
    cases c with
    | request r =>
      simp only [Deed.perform, Session.call, Session.request]
      split
      · exact List.prefix_rfl
      · unfold Session.exchange
        split <;> exact List.prefix_rfl
    | reset | reachState => exact List.prefix_rfl
    | waitFor p window =>
      simp only [Deed.perform, Session.call, Session.waitFor, Session.install]
      split
      · exact List.prefix_rfl
      · exact List.prefix_append ..
  | ask x callback =>
    simp only [Deed.perform, Session.ask]
    split <;> exact List.prefix_rfl
  | expire => exact absurd rfl hexpire
  | next =>
    simp only [Deed.perform, Session.nextOutbound]
    split <;> exact List.prefix_rfl
  | deliver | shutdown | emit => cases hd
  | advance | send | takeAll | subscribe | disconnect | addHandler | think => exact List.prefix_rfl

/-! ## Relations that hold across what handlers do with a frame -/

/-- The failure of one operation, which a frame or the operation's timer gives it. The other
failures come with a teardown, or refuse a request. -/
def Failure.single : Failure → Bool
  | rpc _ | status _ | emptyResponse | unexpectedData _ | mismatch _ | decode _ | invalidState _
  | timeout => true
  | _ => false

/-- The outcome is a success, or the failure of one operation. -/
def Given {α : Type} (outcome : Except Failure α) : Prop :=
  ∀ e, outcome = .error e → e.single = true

theorem given_ok {α : Type} (v : α) : Given (.ok v : Except Failure α) := nofun

theorem given_error {α : Type} {e : Failure} (he : e.single = true) :
    Given (.error e : Except Failure α) := by
  rintro _ ⟨⟩
  exact he

theorem Watch.given_of_verdict {watch : Watch} {i : Indication} {outcome : Except Failure Outcome}
    (h : watch.verdict? i = some outcome) : Given outcome := by
  cases watch with
  | nextReset =>
    cases i with
    | reset info =>
      cases h
      exact given_ok _
    | _ => cases h
  | decisiveState ends allowed =>
    cases i with
    | stateChange state =>
      simp only [verdict?] at h
      split at h
      · cases h
        exact given_ok _
      · split at h
        · cases h
          exact given_error rfl
        · cases h
    | _ => cases h

theorem checkOnlyStatus_single {response : Bytes} {e : Failure}
    (h : checkOnlyStatus response = .error e) : e.single = true := by
  cases response with
  | nil =>
    cases h
    rfl
  | cons status rest =>
    by_cases hstatus : status = statusSuccess
    · cases rest with
      | nil => simp [checkOnlyStatus, checkStatus, hstatus, bind, Except.bind] at h
      | cons b rest =>
        simp only [checkOnlyStatus, checkStatus, hstatus, if_true, bind, Except.bind] at h
        cases h
        rfl
    · simp only [checkOnlyStatus, checkStatus, hstatus, if_false, bind, Except.bind] at h
      cases h
      rfl

theorem deviceState_single {response : Bytes} {e : Failure}
    (h : (deviceInfoValue deviceStateInfo response >>= DeviceState.codec.decodeStart) = .error e) :
    e.single = true := by
  cases response with
  | nil =>
    cases h
    rfl
  | cons id value =>
    by_cases hid : id = deviceStateInfo
    · simp only [deviceInfoValue, hid, if_true, bind, Except.bind, Codec.decodeStart] at h
      split at h
      · cases h
        rfl
      · cases h
    · simp only [deviceInfoValue, hid, if_false, bind, Except.bind] at h
      cases h
      rfl

/-- Whoever takes an answer completes the operation, with a failure of its own at most, or hands
it over to a wait or to a watcher, unless it is the application. -/
theorem Aftermath.resume_cases (app : Application η) (answer : Except Failure Bytes)
    (s : Session η) (a : Aftermath) :
    (∃ callback, a = .application callback) ∨
    ∃ op, a.operation? = some op ∧
      ((∃ outcome, (∀ e, outcome = .error e → answer = .error e ∨ e.single = true) ∧
          a.resume app answer s = (s.complete op outcome, {})) ∨
        (∃ c, a = .confirm c op ∧ a.resume app answer s =
          (s, { waits := [⟨⟨.areq, c.command, c.opening⟩, c.window, op⟩] })) ∨
        ∃ ends allowed, a = .follow ends allowed op ∧ a.resume app answer s =
          ((s.subscribe .stateChange (.watcher (.decisiveState ends allowed) op)).2,
            { tracked := [⟨s.freshConnection, op⟩] })) := by
  cases a with
  | settle op =>
    refine Or.inr ⟨op, rfl, Or.inl ⟨answer.map .payload, fun e he => Or.inl ?_, rfl⟩⟩
    cases answer with
    | ok bytes => cases he
    | error e' =>
      cases he
      rfl
  | confirm c op =>
    refine Or.inr ⟨op, rfl, ?_⟩
    simp only [resume]
    split
    · exact Or.inr (Or.inl ⟨c, rfl, rfl⟩)
    · rename_i e hcheck
      refine Or.inl ⟨.error e, ?_, rfl⟩
      rintro _ ⟨⟩
      cases answer with
      | ok bytes => exact Or.inr (checkOnlyStatus_single hcheck)
      | error e' =>
        cases hcheck
        exact Or.inl rfl
  | follow ends allowed op =>
    refine Or.inr ⟨op, rfl, ?_⟩
    simp only [resume]
    split
    · rename_i e hread
      refine Or.inl ⟨.error e, ?_, rfl⟩
      rintro _ ⟨⟩
      cases answer with
      | ok bytes => exact Or.inr (deviceState_single hread)
      | error e' =>
        cases hread
        exact Or.inl rfl
    · rename_i state hread
      split
      · exact Or.inl ⟨.ok (.state state), nofun, rfl⟩
      · split
        · refine Or.inl ⟨.error (.invalidState state), ?_, rfl⟩
          rintro _ ⟨⟩
          exact Or.inr rfl
        · exact Or.inr (Or.inr ⟨ends, allowed, rfl, rfl⟩)
  | application callback => exact Or.inl ⟨callback, rfl⟩

theorem answer?_single {accepted : List Command} {f : Frame} {e : Failure}
    (h : answer? accepted f = some (.error e)) : e.single = true := by
  unfold answer? at h
  split at h
  · cases h
  · split at h
    · cases h
    · split at h
      · split at h
        · split at h
          · cases h
            rfl
          · cases h
        · cases h
      · cases h

/-- A preorder on sessions that holds across the changes made by handlers and subscribers,
as long as they complete operations with outcomes in `P`. -/
structure Steady (P : Except Failure Outcome → Prop) (R : Session η → Session η → Prop) :
    Prop where
  refl : ∀ s, R s s
  trans : ∀ {s t u}, R s t → R t u → R s u
  complete : ∀ s op outcome, P outcome → R s (s.complete op outcome)
  subscribe : ∀ s event subscriber, R s (s.subscribe event subscriber).2
  disconnect : ∀ s connection, R s (s.disconnect connection)
  retain : ∀ s event, R s (s.retain event)
  disarm : ∀ s timer, R s (s.disarm timer)
  running : ∀ s running, R s { s with running }

namespace Steady

variable {P : Except Failure Outcome → Prop} {R : Session η → Session η → Prop}
  (hR : Steady P R)
include hR

theorem foldl {α : Type} {f : Session η → α → Session η} (hf : ∀ s x, R s (f s x)) :
    ∀ (xs : List α) (s : Session η), R s (xs.foldl f s)
  | [], s => hR.refl s
  | x :: xs, s => hR.trans (hf s x) (foldl hf xs (f s x))

variable (hP : ∀ outcome, Given outcome → P outcome) {L : Licence η} {app : Application η}
  (happ : app.Keeps L fun s _ t => R s t)
include hP happ

theorem notify (i : Indication) (s : Session η) (slot : Slot) : R s (s.notify app i slot) := by
  rcases Session.notify_cases app i s slot with
    heq | ⟨watch, op, outcome, -, -, hverdict, heq⟩ | ⟨callback, -, heq⟩ <;> rw [heq]
  · exact hR.refl s
  · exact hR.trans (hR.disconnect s _) (hR.complete _ _ _ (hP _ (Watch.given_of_verdict hverdict)))
  · exact hR.trans (hR.running s _) (hR.trans (happ.hear ..) (hR.running _ _))

theorem emit (i : Indication) (s : Session η) : R s (s.emit app i) :=
  hR.trans (hR.foldl (hR.notify hP happ i) _ s) (hR.retain _ i.event)

theorem resume (answer : Except Failure Bytes) (hanswer : ∀ e, answer = .error e → P (.error e))
    (s : Session η) (a : Aftermath) : R s (a.resume app answer s).1 := by
  rcases a.resume_cases app answer s with ⟨callback, rfl⟩ |
    ⟨op, -, ⟨outcome, houtcome, heq⟩ | ⟨c, -, heq⟩ | ⟨ends, allowed, -, heq⟩⟩
  · exact happ.answered callback answer s
  · rw [heq]
    refine hR.complete s op outcome ?_
    cases outcome with
    | ok v => exact hP _ (given_ok v)
    | error e =>
      rcases houtcome e rfl with hfailed | hsingle
      · exact hanswer e hfailed
      · exact hP _ (given_error hsingle)
  · rw [heq]
    exact hR.refl s
  · rw [heq]
    exact hR.subscribe s _ _

theorem offer (f : Frame) (h : Handler) (s : Session η) : R s (h.offer app f s).1 := by
  induction h generalizing s with
  | indication kind command event lenient =>
    simp only [Handler.offer]
    split
    · split
      · exact hR.emit hP happ _ s
      · exact hR.refl s
    · exact hR.refl s
  | response accepted aftermath =>
    simp only [Handler.offer]
    split
    · rename_i answer hanswer
      refine hR.resume hP happ answer (fun e he => hP _ (given_error ?_)) s aftermath
      exact answer?_single (he ▸ hanswer)
    · exact hR.refl s
  | wait pattern op =>
    simp only [Handler.offer]
    split
    · exact hR.complete s op _ (hP _ (given_ok _))
    · exact hR.refl s
  | timed timer inner ih =>
    simp only [Handler.offer]
    split
    · split
      · exact hR.trans (ih s) (hR.disarm _ timer)
      · exact ih s
    · exact hR.refl s
  | custom callback permanent => exact happ.offer callback f s

theorem walk (f : Frame) (chain : List Handler) (s : Session η) :
    R s (s.walk app f chain).2.1.1 := by
  rw [Session.walk_eq]
  exact Chain.dispatch_induct (Session.turn app f) (fun _ st => R s st.1)
    (fun _ h _ st hst => hR.trans hst (hR.offer hP happ f h st.1)) chain [] (s, [], [])
    (hR.refl s)

end Steady

/-- A preorder on sessions that holds across the changes made by handlers, whatever the
outcomes. -/
structure Stable (R : Session η → Session η → Prop) : Prop where
  refl : ∀ s, R s s
  trans : ∀ {s t u}, R s t → R t u → R s u
  complete : ∀ s op outcome, R s (s.complete op outcome)
  subscribe : ∀ s event subscriber, R s (s.subscribe event subscriber).2
  disconnect : ∀ s connection, R s (s.disconnect connection)
  retain : ∀ s event, R s (s.retain event)
  disarm : ∀ s timer, R s (s.disarm timer)
  running : ∀ s running, R s { s with running }

namespace Stable

variable {R : Session η → Session η → Prop} (hR : Stable R)
include hR

theorem steady : Steady (fun _ => True) R :=
  { hR with complete := fun s op outcome _ => hR.complete s op outcome }

theorem foldl {α : Type} {f : Session η → α → Session η} (hf : ∀ s x, R s (f s x))
    (xs : List α) (s : Session η) : R s (xs.foldl f s) :=
  hR.steady.foldl hf xs s

variable {L : Licence η} {app : Application η} (happ : app.Keeps L fun s _ t => R s t)
include happ

theorem notify (i : Indication) (s : Session η) (slot : Slot) : R s (s.notify app i slot) :=
  hR.steady.notify (fun _ _ => trivial) happ i s slot

theorem emit (i : Indication) (s : Session η) : R s (s.emit app i) :=
  hR.steady.emit (fun _ _ => trivial) happ i s

theorem walk (f : Frame) (chain : List Handler) (s : Session η) :
    R s (s.walk app f chain).2.1.1 :=
  hR.steady.walk (fun _ _ => trivial) happ f chain s

theorem abort (e : Failure) (h : Handler) (s : Session η) : R s (h.abort app e s) := by
  induction h generalizing s with
  | indication kind command event lenient => exact hR.refl s
  | response accepted aftermath =>
    exact hR.trans (hR.steady.resume (fun _ _ => trivial) happ _ (fun _ _ => trivial) s aftermath)
      (hR.foldl (fun s w => hR.complete s _ _) _ _)
  | wait pattern op => exact hR.complete s op _
  | timed timer inner ih =>
    simp only [Handler.abort]
    split
    · exact hR.trans (hR.disarm s timer) (ih _)
    · exact hR.refl s
  | custom callback permanent => exact happ.abort callback e s

theorem drain (e : Failure) (chain : List Handler) (s : Session η) :
    R s (Chain.drain Handler.permanent (Handler.abort app e) chain s).2 :=
  Chain.drain_induct (fun _ t => R s t)
    (fun _ h _ t _ hst => hR.trans hst (hR.abort happ e h t)) chain [] s (hR.refl s)

omit happ in
theorem abortTracked (e : Failure) (ts : List Tracked) (s : Session η) :
    R s (ts.foldl (Session.abortTracked e) s) :=
  hR.foldl (fun s _ => hR.trans (hR.disconnect s _) (hR.complete _ _ _)) ts s

end Stable

/-! ## Relations that look at the ledger and the subscribers only -/

/-- A preorder that compares the ledgers and the subscribers of sessions, and holds across
the changes that are made to these. -/
structure Narrow (R : Session η → Session η → Prop) : Prop where
  trans : ∀ {s t u}, R s t → R t u → R s u
  complete : ∀ s op outcome, R s (s.complete op outcome)
  issue : ∀ s, R s s.issue.2
  subscribe : ∀ s event subscriber, R s (s.subscribe event subscriber).2
  disconnect : ∀ s connection, R s (s.disconnect connection)
  /-- All other changes. -/
  other : ∀ {s t}, t.operations = s.operations → t.slots = s.slots →
    t.freshConnection = s.freshConnection → R s t

namespace Narrow

variable {R : Session η → Session η → Prop} (hR : Narrow R)
include hR

theorem stable : Stable R where
  refl _ := hR.other rfl rfl rfl
  trans := hR.trans
  complete := hR.complete
  subscribe := hR.subscribe
  disconnect := hR.disconnect
  retain s event := hR.other rfl (Session.slots_retain event s) rfl
  disarm _ _ := hR.other rfl rfl rfl
  running _ _ := hR.other rfl rfl rfl

theorem install (s : Session η) (w : Wait) : R s (s.install w) :=
  hR.other (Session.install_operations ..) (Session.install_slots ..)
    (Session.install_freshConnection ..)

theorem leave (chain : List Handler) (waits : List Wait) (tracked : List Tracked)
    (s : Session η) : R s (s.leave chain waits tracked) := by
  have hback : R s { s.restore chain with depth := s.depth - 1 } := hR.other rfl rfl rfl
  have htrack (t : Session η) (x : Tracked) : R t (t.track x) := hR.other rfl rfl rfl
  exact hR.trans hback (hR.trans (hR.stable.foldl hR.install waits _)
    (hR.stable.foldl htrack tracked _))

theorem call (c : Call) (s : Session η) : R s (s.call c).2 := by
  have hexchange : ∀ x : Exchange, R s (s.exchange x).2 := by
    intro x
    unfold Session.exchange
    split
    · exact hR.stable.refl s
    · exact hR.trans (hR.issue s) (hR.other rfl rfl rfl)
  cases c with
  | request r =>
    simp only [Session.call, Session.request]
    split
    · exact hR.stable.refl s
    · exact hexchange _
  | reset soft =>
    exact hR.trans (hR.issue s) (hR.trans (hR.subscribe ..) (hR.other rfl rfl rfl))
  | reachState ends allowed => exact hR.trans (hR.issue s) (hR.other rfl rfl rfl)
  | waitFor p window => exact hR.trans (hR.issue s) (hR.install ..)

section Callbacks

variable {L : Licence η} {app : Application η} (happ : app.Keeps L fun s _ t => R s t)
include happ

theorem shutdown (e : Failure) (s : Session η) : R s (s.shutdown app e) := by
  unfold Session.shutdown
  split
  · have hcleared : R s { s with chain := [], tracked := [], outbound := [] } :=
      hR.other rfl rfl rfl
    have hdrain := hR.stable.drain happ e s.chain
      { s with chain := [], tracked := [], outbound := [] }
    exact hR.trans (hR.trans hcleared hdrain)
      (hR.trans (hR.stable.abortTracked e s.tracked _) (hR.other rfl rfl rfl))
  · exact hR.other rfl rfl rfl

theorem settleDeferred (s : Session η) : R s (s.settleDeferred app) := by
  unfold Session.settleDeferred
  split
  · have hcleared : R s { s with deferred := none } := hR.other rfl rfl rfl
    exact hR.trans hcleared (hR.shutdown happ _ _)
  · exact hR.stable.refl s

/-- What comes after the walk of a dispatch. -/
theorem finish (f : Frame) (s : Session η) :
    R (s.enter.walk app f s.chain).2.1.1 (s.deliver app f) :=
  hR.trans (hR.leave ..) (hR.settleDeferred happ _)

theorem deliver (f : Frame) (s : Session η) : R s (s.deliver app f) := by
  have henter : R s s.enter := hR.other rfl rfl rfl
  exact hR.trans (hR.trans henter (hR.stable.walk happ f s.chain s.enter)) (hR.finish happ f s)

theorem perform (d : Deed η) (s : Session η) : R s (d.perform app s) := by
  cases d with
  | call c => exact hR.call c s
  | ask x callback =>
    simp only [Deed.perform, Session.ask]
    split
    · exact hR.stable.refl s
    · exact hR.other rfl rfl rfl
  | deliver f => exact hR.deliver happ f s
  | expire =>
    have hfires : R s { s with timers := (s.timers.expire s.now).2 } := hR.other rfl rfl rfl
    exact hR.trans hfires (hR.stable.foldl (fun s op => hR.complete s op _) _ _)
  | shutdown e => exact hR.shutdown happ e s
  | next =>
    simp only [Deed.perform, Session.nextOutbound]
    split
    · exact hR.stable.refl s
    · exact hR.other rfl rfl rfl
  | subscribe event callback => exact hR.subscribe s event _
  | disconnect connection => exact hR.disconnect s connection
  | emit i => exact hR.stable.emit happ i s
  | advance | send | takeAll | addHandler | think => exact hR.other rfl rfl rfl

omit happ in
/-- A narrow relation holds of every run. -/
theorem kept (L : Licence η) : L.Kept fun s _ t => R s t where
  refl := hR.stable.refl
  deed := fun hst _ happ _ _ =>
    hR.trans (hR.trans hst (hR.perform happ _ _)) (hR.other rfl rfl rfl)
  wait := fun _ _ hst _ => hR.trans hst (hR.issue _)

end Callbacks

end Narrow

end ZigbeeHost
