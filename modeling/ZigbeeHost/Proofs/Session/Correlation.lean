import ZigbeeHost.Proofs.Session.Answers
import ZigbeeHost.Proofs.Session.Sound
/-!
# The first handler that accepts a frame

A frame that is no event's is taken by the first handler, in the order of installation,
that accepts it, and by nobody if none does. `Handler.Accepts` says which frames a handler
accepts and `Handler.Gets` what it learns from one, both without regard to the walk of the
chain. The walk passes over the handlers that ignore the frame, and evicts those
whose timer is not armed any more (`Handler.offer_of_ignores`); the first one that
accepts it stops the walk and carries on with what it gets (`Handler.offer_of_accepts`).
Nothing else of the session changes (`Reachable.deliver_first`).
-/

namespace ZigbeeHost

variable {η : Type}

/-! ## Offering a frame that is no event's -/

/-- The frame carries an occurrence of the event. -/
def Event.Takes (f : Frame) (e : Event) : Prop :=
  f.kind = .areq ∧ f.command = e.command ∧ ∃ i, e.read e.lenient f.payload = .ok i

/-- The handler is not one whose timer is gone. -/
def Handler.awake (timers : Timers OperationId) : Handler → Bool
  | timed timer _ => timers.active timer
  | _ => true

/-- The handler has no use for the frame, with the timers that are armed. The application's own
handlers may have one for any. -/
def Handler.Ignores (timers : Timers OperationId) (f : Frame) : Handler → Prop
  | indication kind command event lenient =>
    ¬(f.kind = kind ∧ f.command = command ∧ ∃ i, event.read lenient f.payload = .ok i)
  | custom .. => False
  | h => ¬h.Accepts timers f

section Offer

variable {L : Licence η} {f : Frame} {h : Handler} {s : Session η}

/-- If the application has no handlers, those that do not accept a frame without an event ignore
it. -/
theorem Handler.ignores_of_not_accepts {timers : Timers OperationId} (hf : h.Formed L)
    (hL : ¬L.handlers) (hfree : ∀ e : Event, ¬e.Takes f) (hno : ¬h.Accepts timers f) :
    h.Ignores timers f := by
  cases h with
  | indication kind command event lenient =>
    obtain ⟨rfl, rfl, rfl⟩ := hf
    exact hfree event
  | custom callback permanent => exact hL hf
  | response | wait | timed => exact hno

/-- A handler that ignores the frame lets it pass, and leaves if its timer is gone. -/
theorem Handler.offer_of_ignores (hf : h.Formed L) (hno : h.Ignores s.timers f)
    (app : Application η) :
    h.offer app f s = (s, { verdict := { remove := !h.awake s.timers } }) := by
  cases h with
  | indication kind command event lenient =>
    simp only [offer]
    split
    · rename_i hmatch
      cases hread : event.read lenient f.payload with
      | ok i => exact absurd ⟨hmatch.1, hmatch.2, i, hread⟩ hno
      | error e => rfl
    · rfl
  | response commands a => exact offer_response_of_not_accepts hno app
  | wait p op => exact offer_wait_of_not_accepts hno app
  | timed id inner =>
    cases hid : s.timers.active id with
    | true =>
      cases inner with
      | wait p op =>
        have hinner : ¬(wait p op).Accepts s.timers f := fun hyes => hno ⟨hid, hyes⟩
        rw [offer_timed_of_active hid, offer_wait_of_not_accepts hinner, awake, hid]
        rfl
      | _ => exact hf.elim
    | false =>
      rw [offer_timed_of_not_active hid, awake, hid]
      rfl
  | custom callback permanent => exact hno.elim

end Offer

/-! ## Carrying on -/

/-- The handler `h`, which has the operation `op`, changes its operation and its timer, and
may attach a watcher. -/
structure Advances (h : Handler) (op : OperationId) (s t : Session η) : Prop where
  other : t = { s with
    operations := t.operations
    subscribers := t.subscribers
    timers := { s.timers with armed := t.timers.armed } }
  ledger : ∀ i : OperationId, i ≠ op → t.operations[i]? = s.operations[i]?
  armed : t.timers.armed = s.timers.armed.filter fun e => h.timer? ≠ some e.id
  slots : s.slots <+: t.slots

/-- Nothing has changed. -/
theorem Advances.refl {h : Handler} (ht : h.timer? = none) (op : OperationId) (s : Session η) :
    Advances h op s s where
  other := rfl
  ledger _ _ := rfl
  armed := by simp [ht]
  slots := List.prefix_rfl

theorem Advances.complete {h : Handler} (ht : h.timer? = none) (op : OperationId)
    (s : Session η) (outcome : Except Failure Outcome) :
    Advances h op s (s.complete op outcome) where
  other := by
    rw [Session.complete_timers]
    exact s.complete_eq op outcome ▸ rfl
  ledger i hi := by
    rw [Session.operations_complete, if_neg fun h => hi h.1]
  armed := by simp [ht]
  slots := by simp

theorem Advances.subscribe {h : Handler} (ht : h.timer? = none) (op : OperationId)
    (s : Session η) (event : Event) (subscriber : Subscriber) :
    Advances h op s (s.subscribe event subscriber).2 where
  other := rfl
  ledger _ _ := rfl
  armed := by simp [ht, Session.subscribe]
  slots := Session.slots_subscribe s event subscriber ▸ List.prefix_append ..

namespace Handler

variable {L : Licence η} {h : Handler} {op : OperationId}

/-- Whoever carries on with an answer decides its own operation at most. -/
theorem carryOn_advances (hf : h.Formed L) (hop : h.operation? = some op)
    (app : Application η) (answer : Except Failure Bytes) (s : Session η) :
    Advances h op s (h.carryOn app answer s).1 := by
  cases h with
  | indication | custom => cases hop
  | response commands a =>
    rcases a.resume_cases app answer s with ⟨callback, rfl⟩ | ⟨op', hop', hresumed⟩
    · cases hop
    · obtain rfl : op' = op := Option.some.inj (hop'.symm.trans hop)
      rw [carryOn]
      rcases hresumed with ⟨outcome, -, heq⟩ | ⟨c, -, heq⟩ | ⟨ends, allowed, -, heq⟩ <;> rw [heq]
      · exact .complete rfl op' s outcome
      · exact .refl rfl op' s
      · exact .subscribe rfl op' s _ _
  | wait p =>
    cases hop
    exact .complete rfl op s _
  | timed id inner =>
    cases inner with
    | wait p =>
      cases hop
      obtain ⟨other, ledger, armed, slots⟩ :=
        Advances.complete (h := .wait p op) rfl op s (answer.map .payload)
      refine ⟨?_, ledger, ?_, slots⟩
      · simp only [carryOn]
        rw [other]
        rfl
      · simp only [carryOn, Session.disarm, Timers.disarm, Session.complete_timers]
        refine List.filter_congr fun e _ => ?_
        by_cases hid : e.id = id
        · simp [hid, timer?]
        · simp [hid, timer?, Ne.symm hid]
    | _ => exact hf.elim

/-- What a handler gets is the outcome of its operation, if it only waited for that. -/
theorem outcome?_carryOn (hf : h.Formed L) (hop : h.settles? = some op)
    (app : Application η) (answer : Except Failure Bytes) {s : Session η}
    (hp : s.pending op = true) :
    (h.carryOn app answer s).1.outcome? op = some (answer.map .payload) := by
  have hcomplete := s.outcome?_complete op (answer.map .payload) hp
  cases h with
  | indication | custom => cases hop
  | response commands a =>
    cases a with
    | settle =>
      cases hop
      exact hcomplete
    | _ => cases hop
  | wait p =>
    cases hop
    exact hcomplete
  | timed id inner =>
    cases inner with
    | wait p =>
      cases hop
      exact hcomplete
    | _ => exact hf.elim

/-- Whoever settles an operation has it. -/
theorem operation?_of_settles? (hop : h.settles? = some op) : h.operation? = some op := by
  induction h with
  | indication | custom => cases hop
  | response commands a =>
    cases a with
    | settle => exact hop
    | _ => cases hop
  | wait p => exact hop
  | timed id inner ih => exact ih hop

/-- Whoever accepts a frame carries an operation. -/
theorem Accepts.carried? {timers : Timers OperationId} {f : Frame} (hf : h.Formed L)
    (hL : ¬L.handlers) (hyes : h.Accepts timers f) : ∃ op, h.carried? timers = some op := by
  cases h with
  | indication | custom => exact hyes.elim
  | response commands a =>
    cases a with
    | application callback => exact absurd hf hL
    | _ => exact ⟨_, rfl⟩
  | wait p op => exact ⟨op, rfl⟩
  | timed id inner =>
    cases inner with
    | wait p op => exact ⟨op, if_pos hyes.1⟩
    | _ => exact hf.elim

/-- What a handler does with what it got does not depend on the chain, nor on how many
frames are being dispatched. -/
theorem carryOn_frame (hf : h.Formed L) (hop : h.operation? = some op) (app : Application η)
    (answer : Except Failure Bytes) (s : Session η) (chain : List Handler) (depth : Nat) :
    h.carryOn app answer { s with chain, depth } =
      ({ (h.carryOn app answer s).1 with chain, depth }, (h.carryOn app answer s).2) := by
  have hcomplete (op : OperationId) (outcome : Except Failure Outcome) :
      Session.complete op outcome { s with chain, depth } =
        { s.complete op outcome with chain, depth } := rfl
  cases h with
  | indication => rfl
  | custom => rfl
  | response commands a =>
    cases a with
    | application callback => cases hop
    | settle op => simp only [carryOn, Aftermath.resume, hcomplete]
    | confirm c op =>
      simp only [carryOn, Aftermath.resume, hcomplete]
      split <;> rfl
    | follow ends allowed op =>
      simp only [carryOn, Aftermath.resume, hcomplete]
      generalize answer.bind (deviceInfoValue deviceStateInfo) >>= DeviceState.codec.decodeStart
        = state
      cases state with
      | error e => rfl
      | ok state =>
        by_cases hends : state ∈ ends
        · simp only [hends, if_true]
        · by_cases hallowed : state ∈ allowed
          · simp only [hends, hallowed, not_true, if_false]
            rfl
          · simp [hends, hallowed]
  | wait p op => simp only [carryOn, hcomplete]
  | timed id inner =>
    cases inner with
    | wait p op =>
      simp only [carryOn, hcomplete]
      rfl
    | _ => exact hf.elim

end Handler

namespace Session

/-- A handler that left the chain carries on with what it got, and what it asks for is
installed. -/
def carryOn (app : Application η) (h : Handler) (answer : Except Failure Bytes)
    (s : Session η) : Session η :=
  let (t, reply) := h.carryOn app answer s
  reply.tracked.foldl (fun t x => t.track x) (reply.waits.foldl (fun t w => t.install w) t)

/-- The handlers and the timers of `s` are there in `t`, in front of others, and operations
and subscribers are the same. -/
structure Extends (s t : Session η) : Prop where
  operations : t.operations = s.operations
  slots : t.slots = s.slots
  outbound : t.outbound = s.outbound
  deferred : t.deferred = s.deferred
  chain : s.chain <+: t.chain
  armed : s.timers.armed <+: t.timers.armed

/-- What was asked for is installed behind all others. -/
theorem extends_installed (waits : List Wait) (tracked : List Tracked) (s : Session η) :
    Extends s (tracked.foldl (fun t x => t.track x) (waits.foldl (fun t w => t.install w) s)) := by
  refine List.foldlRecOn tracked _ (motive := Extends s) ?_ ?_
  · refine List.foldlRecOn waits _ (motive := Extends s) ?_ ?_
    · exact ⟨rfl, rfl, rfl, rfl, List.prefix_rfl, List.prefix_rfl⟩
    · intro t ht w _
      refine ⟨(install_operations t w).trans ht.operations, (install_slots t w).trans ht.slots,
        (install_outbound t w).trans ht.outbound, (install_deferred t w).trans ht.deferred,
        ht.chain.trans (prefix_install w t), ht.armed.trans ?_⟩
      unfold install
      split
      · exact List.prefix_rfl
      · exact List.prefix_append ..
  · intro t ht x _
    exact ⟨ht.operations, ht.slots, ht.outbound, ht.deferred, ht.chain, ht.armed⟩

/-- A dispatch is no deeper for what its handler carries on with. -/
theorem depth_carryOn (app : Application η) (h : Handler) (answer : Except Failure Bytes)
    (s : Session η) : (s.carryOn app h answer).depth = (h.carryOn app answer s).1.depth := by
  unfold carryOn
  refine List.foldlRecOn _ _ (motive := fun t : Session η => t.depth = _) ?_ fun t ht _ _ => ht
  exact List.foldlRecOn _ _ (motive := fun t : Session η => t.depth = _) rfl fun t ht w _ =>
    (install_depth t w).trans ht

/-- A session goes on from what its handler made of it. -/
theorem extends_carryOn (app : Application η) (h : Handler) (answer : Except Failure Bytes)
    (s : Session η) : Extends (h.carryOn app answer s).1 (s.carryOn app h answer) :=
  extends_installed _ _ _

section Deliver

variable {L : Licence η} {f : Frame} {s : Session η}

/-- The turn of a handler that lets the frame pass. -/
theorem turn_of_ignores {h : Handler} (hf : h.Formed L) (hno : h.Ignores s.timers f)
    (app : Application η) :
    turn app f h (s.enter, [], []) =
      ((s.enter, [], []), { remove := !h.awake s.timers }) := by
  have hoffer := Handler.offer_of_ignores (s := s.enter) hf hno app
  simp only [turn, hoffer]
  rfl

/-- Handlers that ignore a frame let it pass, and those whose timer is gone leave. -/
theorem dispatch_of_ignores {chain : List Handler} (hf : ∀ g ∈ chain, g.Formed L)
    (hno : ∀ g ∈ chain, g.Ignores s.timers f) (app : Application η) :
    Chain.dispatch (turn app f) chain (s.enter, [], []) =
      (chain.filter (Handler.awake s.timers), (s.enter, [], []), false) :=
  Chain.dispatch_of_pass _ _ _ fun g hg => turn_of_ignores (hf g hg) (hno g hg) app

/-- A frame that all handlers ignore changes nothing, but handlers whose timer is gone leave. -/
theorem deliver_of_ignores (hf : ∀ g ∈ s.chain, g.Formed L)
    (hundue : s.deferred = none ∨ s.depth ≠ 0) (hno : ∀ g ∈ s.chain, g.Ignores s.timers f)
    (app : Application η) :
    s.taker? app f = none ∧
      s.deliver app f = { s with chain := s.chain.filter (Handler.awake s.timers) } := by
  have hwalk := dispatch_of_ignores hf hno app
  refine ⟨?_, ?_⟩
  · have hnone := Chain.isSome_taker? (turn app f) s.chain (s.enter, [], [])
    rw [hwalk] at hnone
    exact Option.not_isSome_iff_eq_none.1 (Bool.eq_false_iff.1 hnone)
  · have hleft : s.enter.leave (s.chain.filter (Handler.awake s.timers)) [] [] =
        { s with chain := s.chain.filter (Handler.awake s.timers) } := by
      simp [leave, restore, enter]
    simp only [deliver, walk_eq, hwalk, hleft]
    exact settleDeferred_of_undue
      (s := { s with chain := s.chain.filter (Handler.awake s.timers) }) hundue app

/-- The first handler that does not ignore the frame takes it, if it accepts it, and carries on in
a session without the handlers in front whose timer is gone. -/
theorem deliver_of_first (hf : ∀ g ∈ s.chain, g.Formed L)
    (hundue : s.deferred = none ∨ s.depth ≠ 0)
    {before behind : List Handler} {h : Handler} (hchain : s.chain = before ++ h :: behind)
    (hno : ∀ g ∈ before, g.Ignores s.timers f) (hyes : h.Accepts s.timers f)
    {op : OperationId} (hop : h.operation? = some op) (app : Application η) :
    s.taker? app f = some h ∧ ∃ answer, h.Gets f answer ∧
      s.deliver app f = carryOn app h answer
        { s with chain := before.filter (Handler.awake s.timers) ++ behind } := by
  have hpassed := dispatch_of_ignores (fun g hg => hf g (by simp [hchain, hg])) hno app
  have hmem : h ∈ s.chain := by simp [hchain]
  obtain ⟨htaker, answer, hgets, hwalk⟩ := walk_of_accepts hchain hpassed hyes
  have hentered := Handler.carryOn_frame (hf h hmem) hop app answer s [] (s.depth + 1)
  have hframe := Handler.carryOn_frame (hf h hmem) hop app answer s
    (before.filter (Handler.awake s.timers) ++ behind) s.depth
  have hleft : (h.carryOn app answer s.enter).1.leave
      (before.filter (Handler.awake s.timers) ++ behind)
      (h.carryOn app answer s.enter).2.waits (h.carryOn app answer s.enter).2.tracked =
        carryOn app h answer
          { s with chain := before.filter (Handler.awake s.timers) ++ behind } := by
    simp only [carryOn, hframe, enter, hentered]
    simp only [leave, restore, List.append_nil, Nat.add_sub_cancel]
  refine ⟨htaker, answer, hgets, ?_⟩
  simp only [deliver, hwalk, List.nil_append, hleft]
  refine settleDeferred_of_undue ?_ app
  have hadvanced := Handler.carryOn_advances (hf h hmem) hop app answer
    { s with chain := before.filter (Handler.awake s.timers) ++ behind }
  rw [(extends_carryOn ..).deferred, depth_carryOn, hadvanced.other]
  exact hundue

/-- A frame that no handler accepts changes nothing, but handlers whose timer is gone
leave. -/
theorem deliver_of_not_accepts (hf : ∀ g ∈ s.chain, g.Formed L) (hL : ¬L.handlers)
    (hfree : ∀ e : Event, ¬e.Takes f) (hdeferred : s.deferred = none)
    (hno : ∀ g ∈ s.chain, ¬g.Accepts s.timers f) (app : Application η) :
    s.taker? app f = none ∧
      s.deliver app f = { s with chain := s.chain.filter (Handler.awake s.timers) } :=
  deliver_of_ignores hf (.inl hdeferred)
    (fun g hg => Handler.ignores_of_not_accepts (hf g hg) hL hfree (hno g hg)) app

/-- The first handler that accepts the frame takes it. -/
theorem deliver_of_accepts (hf : ∀ g ∈ s.chain, g.Formed L) (hL : ¬L.handlers)
    (hfree : ∀ e : Event, ¬e.Takes f) (hdeferred : s.deferred = none)
    {before behind : List Handler} {h : Handler} (hchain : s.chain = before ++ h :: behind)
    (hno : ∀ g ∈ before, ¬g.Accepts s.timers f) (hyes : h.Accepts s.timers f)
    {op : OperationId} (hop : h.operation? = some op) (app : Application η) :
    s.taker? app f = some h ∧ ∃ answer, h.Gets f answer ∧
      s.deliver app f = carryOn app h answer
        { s with chain := before.filter (Handler.awake s.timers) ++ behind } :=
  deliver_of_first hf (.inl hdeferred) hchain
    (fun g hg => Handler.ignores_of_not_accepts (hf g (by simp [hchain, hg])) hL hfree
      (hno g hg)) hyes hop app

end Deliver

end Session

/-! ## Correlation -/

/-- The handler `h`, with `before` and `behind` around it, takes the frame `f` from the
session `s`, and leaves the session `t`. -/
structure Session.TakenBy (app : Application η) (f : Frame) (before : List Handler)
    (h : Handler) (behind : List Handler) (s t : Session η) : Prop where
  taker : s.taker? app f = some h
  /-- It carries on with what it gets, which is the outcome of its operation if it waited
  for nothing else. -/
  answer : ∃ answer, h.Gets f answer ∧
    t = carryOn app h answer
      { s with chain := before.filter (Handler.awake s.timers) ++ behind } ∧
    ∀ op, h.settles? = some op → t.outcome? op = some (answer.map .payload)
  /-- Its operation was pending, and no other operation changes. -/
  operation : ∃ op, h.operation? = some op ∧ s.pending op = true ∧
    ∀ i : OperationId, i ≠ op → t.operations[i]? = s.operations[i]?
  /-- The other handlers stay in order, but for those in front whose timer was gone. -/
  chain : before.filter (Handler.awake s.timers) ++ behind <+: t.chain
  /-- The timers of other handlers stay. -/
  armed : (s.timers.armed.filter fun e => h.timer? ≠ some e.id) <+: t.timers.armed
  slots : s.slots <+: t.slots
  outbound : t.outbound = s.outbound

/-- A frame that is no event's is taken by the first handler that accepts it. If none does
it changes nothing, but handlers whose timer is gone leave. -/
theorem Reachable.deliver_first {s : Session η} (hs : Reachable .facade s)
    (app : Application η) {f : Frame} (hfree : ∀ e : Event, ¬e.Takes f) :
    (∀ before h behind, s.chain = before ++ h :: behind →
      (∀ g ∈ before, ¬g.Accepts s.timers f) → h.Accepts s.timers f →
      s.TakenBy app f before h behind (s.deliver app f)) ∧
    ((∀ g ∈ s.chain, ¬g.Accepts s.timers f) →
      s.taker? app f = none ∧
      s.deliver app f = { s with chain := s.chain.filter (Handler.awake s.timers) }) := by
  have hf := hs.sound.formed
  have hdeferred := hs.calm.2
  refine ⟨fun before h behind hchain hno hyes => ?_,
    fun hno => Session.deliver_of_not_accepts hf id hfree hdeferred hno app⟩
  have hmem : h ∈ s.chain := by simp [hchain]
  obtain ⟨op, hcarried⟩ := hyes.carried? (hf h hmem) id
  have hop := Handler.operation?_of_carried? hcarried
  have hpending := hs.sound.pending_of_handler hmem hcarried
  obtain ⟨htaker, answer, hgets, heq⟩ :=
    Session.deliver_of_accepts hf id hfree hdeferred hchain hno hyes hop app
  let left := { s with chain := before.filter (Handler.awake s.timers) ++ behind }
  have hadv := Handler.carryOn_advances (hf h hmem) hop app answer left
  have hext := Session.extends_carryOn app h answer left
  have hkept : (h.carryOn app answer left).1.chain = left.chain := by rw [hadv.other]
  have hsent : (h.carryOn app answer left).1.outbound = s.outbound := by rw [hadv.other]
  rw [heq]
  refine ⟨htaker, ⟨answer, hgets, rfl, ?_⟩, ⟨op, hop, hpending, ?_⟩, ?_, ?_, ?_, ?_⟩
  · intro i hi
    have hsame := (Handler.operation?_of_settles? hi).symm.trans hop
    rw [Option.some.injEq] at hsame
    have hdecided := Handler.outcome?_carryOn (hf h hmem) hi app answer (s := left)
      (hsame ▸ hpending)
    rwa [Session.outcome?, hext.operations]
  · intro i hi
    rw [hext.operations]
    exact hadv.ledger i hi
  · have hprefix : left.chain <+: _ := hkept ▸ hext.chain
    exact hprefix
  · exact hadv.armed ▸ hext.armed
  · exact hadv.slots.trans (hext.slots ▸ List.prefix_rfl)
  · exact hext.outbound.trans hsent

/-- The answer to a ping is taken by the handler of the ping. -/
theorem pinged_deliver : Session.pinged.TakenBy .silent pong (Session.start {} ()).chain
    (.response [⟨.sys, 0x01⟩] (.settle 0)) [] (Session.pinged.deliver .silent pong) := by
  refine (Reachable.deliver_first .pinged .silent ?_).1 _ _ _ rfl ?_ ⟨rfl, Or.inl ?_⟩
  · rintro e ⟨hkind, -⟩
    cases hkind
  · intro g hg
    obtain ⟨e, -, rfl⟩ := List.mem_map.1 hg
    exact id
  · exact List.mem_singleton.2 rfl

end ZigbeeHost
