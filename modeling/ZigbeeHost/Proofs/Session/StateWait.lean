import ZigbeeHost.Proofs.Session.Completion
import ZigbeeHost.Proofs.Session.Guarded
/-!
# Waits for a state of the device

A wait for a state asks for the state that the device is in, and then watches how it changes.
`StateWait.Stage` says how far it has come, and `StateWait.react` what it makes of a sign that
reaches it : a frame that answers the question (`StateWait.told`), a change of the state that
is told to the subscribers (`StateWait.judge`), or a teardown. `Session.signs` are the signs of
a deed. They do not depend on the wait, and say of themselves whom they reach.

The question is carried by a handler, and whoever takes its answer hands the wait over to a
watcher within the same turn of the walk, so no change of the state is missed and none is heard
twice. `Stage.Holds` says what a session looks like that has a wait at a stage, and each deed
brings it to the stage that its signs lead to (`Sound.perform_stage`).
-/

namespace ZigbeeHost

variable {η : Type} {L : Licence η}

/-! ## The stages -/

/-- A wait for a state of `ends`, as long as all states before are in `allowed`. -/
structure StateWait where
  ends : List DeviceState
  allowed : List DeviceState
  operation : OperationId
  deriving DecidableEq

/-- Something that a session meets with, and whom it reaches. -/
inductive Sign where
  | called (w : StateWait)
  /-- The handlers are offered a frame. -/
  | offered (f : Frame) (handlers : List Handler)
  /-- The subscribers are told that the state of the device changed. -/
  | changed (state : DeviceState) (slots : List Slot)
  /-- The handlers and the tracked operations are failed. -/
  | torn (e : Failure) (chain : List Handler) (tracked : List Tracked)

namespace StateWait

/-- How far a wait has come. -/
inductive Stage where
  /-- Nobody has called for it yet. -/
  | uncalled
  /-- It awaits the answer that tells the state. -/
  | asked
  /-- It watches how the state changes. -/
  | following
  | decided (outcome : Except Failure Outcome)

variable (w : StateWait)

/-- Awaits the answer that tells the state. -/
def handler : Handler :=
  .response [ConfigurationRequest.getDeviceInfo] (.follow w.ends w.allowed w.operation)

/-- Watches how the state changes. -/
def subscriber : Subscriber := .watcher (.decisiveState w.ends w.allowed) w.operation

theorem operation?_subscriber : w.subscriber.operation? = some w.operation := rfl

/-- What becomes of the wait in a state of the device. -/
def judge (state : DeviceState) : Stage :=
  if state ∈ w.ends then .decided (.ok (.state state))
  else if state ∉ w.allowed then .decided (.error (.invalidState state))
  else .following

/-- What becomes of the wait with the answer to its question. -/
def told (answer : Except Failure Bytes) : Stage :=
  match answer.bind (deviceInfoValue deviceStateInfo) >>= DeviceState.codec.decodeStart with
  | .error e => .decided (.error e)
  | .ok state => w.judge state

/-- What a wait makes of a sign that reaches it. -/
def react : Stage → Sign → Stage
  | .uncalled, .called _ => .asked
  | .asked, .offered f _ =>
    match answer? [ConfigurationRequest.getDeviceInfo] f with
    | some answer => w.told answer
    | none => .asked
  | .following, .changed state _ => w.judge state
  | .asked, .torn e _ _ => .decided (.error e)
  | .following, .torn e _ _ => .decided (.error e)
  | stage, _ => stage

/-- The sign reaches the wait, its handler or its subscriber. -/
def IsReached : Sign → Prop
  | .called w' => w' = w
  | .offered _ handlers => w.handler ∈ handlers
  | .changed _ slots => w.subscriber ∈ slots.map Slot.subscriber
  | .torn _ chain tracked => w.handler ∈ chain ∨ w.operation ∈ tracked.map Tracked.operation

instance : (sign : Sign) → Decidable (w.IsReached sign)
  | .called w' => inferInstanceAs (Decidable (w' = w))
  | .offered _ handlers => inferInstanceAs (Decidable (w.handler ∈ handlers))
  | .changed _ slots => inferInstanceAs (Decidable (w.subscriber ∈ slots.map Slot.subscriber))
  | .torn _ chain tracked =>
    inferInstanceAs (Decidable (w.handler ∈ chain ∨ w.operation ∈ tracked.map Tracked.operation))

/-- What a sign makes of the stage. -/
def step (stage : Stage) (sign : Sign) : Stage :=
  if w.IsReached sign then w.react stage sign else stage

/-- The session has the wait at the stage. Once it is decided no subscriber is left of it. -/
def Stage.Holds (w : StateWait) (s : Session η) : Stage → Prop
  | uncalled => True
  | asked => w.handler ∈ s.chain ∧ s.pending w.operation = true ∧
      ∀ slot ∈ s.slots, slot.subscriber.operation? ≠ some w.operation
  | following => ∃ connection, ⟨connection, .stateChange, w.subscriber⟩ ∈ s.slots ∧
      ⟨connection, w.operation⟩ ∈ s.tracked ∧ s.pending w.operation = true
  | decided outcome => s.outcome? w.operation = some outcome ∧
      ∀ slot ∈ s.slots, slot.subscriber.operation? ≠ some w.operation

variable {w}

/-- What is decided stays so. -/
theorem step_decided (outcome : Except Failure Outcome) (sign : Sign) :
    w.step (.decided outcome) sign = .decided outcome := by
  unfold step
  split
  · cases sign <;> rfl
  · rfl

/-- A wait that is decided stays decided. -/
theorem foldl_decided (outcome : Except Failure Outcome) (signs : List Sign) :
    signs.foldl w.step (.decided outcome) = .decided outcome := by
  refine List.foldlRecOn signs w.step (motive := fun stage => stage = .decided outcome) rfl ?_
  rintro _ rfl sign -
  exact step_decided outcome sign

/-- A sign that reaches the wait moves it on. -/
theorem step_of_isReached {sign : Sign} (h : w.IsReached sign) (stage : Stage) :
    w.step stage sign = w.react stage sign := if_pos h

/-- A sign that does not reach the wait leaves it where it is. -/
theorem step_of_not_isReached {sign : Sign} (h : ¬w.IsReached sign) (stage : Stage) :
    w.step stage sign = stage := if_neg h

/-- A wait comes into being by its call only. -/
theorem step_uncalled {sign : Sign} (h : sign ≠ .called w) : w.step .uncalled sign = .uncalled := by
  unfold step
  split
  · rename_i hreached
    cases sign with
    | called w' => exact absurd (congrArg Sign.called hreached) h
    | _ => rfl
  · rfl

/-- Nothing happens to a wait before it is called. -/
theorem foldl_uncalled {signs : List Sign} (h : .called w ∉ signs) :
    signs.foldl w.step .uncalled = .uncalled := by
  refine List.foldlRecOn signs w.step (motive := fun stage => stage = .uncalled) rfl ?_
  rintro _ rfl sign hsign
  exact step_uncalled fun heq => h (heq ▸ hsign)

theorem step_asked_of_none {f : Frame} {handlers : List Handler}
    (h : answer? [ConfigurationRequest.getDeviceInfo] f = none) :
    w.step .asked (.offered f handlers) = .asked := by
  unfold step
  split
  · simp only [react, h]
  · rfl

theorem step_asked_of_answer {f : Frame} {handlers : List Handler}
    {answer : Except Failure Bytes} (hmem : w.handler ∈ handlers)
    (h : answer? [ConfigurationRequest.getDeviceInfo] f = some answer) :
    w.step .asked (.offered f handlers) = w.told answer := by
  have hreached : w.IsReached (.offered f handlers) := hmem
  rw [step_of_isReached hreached]
  simp only [react, h]

/-- The sign decides a wait that watches how the state changes. -/
def decides? (w : StateWait) (sign : Sign) : Option (Except Failure Outcome) :=
  if w.IsReached sign then
    match sign with
    | .changed state _ => (Watch.decisiveState w.ends w.allowed).verdict? (.stateChange state)
    | .torn e _ _ => some (.error e)
    | _ => none
  else none

/-- A state is judged as the watcher judges it. -/
theorem judge_eq (state : DeviceState) :
    w.judge state =
      match (Watch.decisiveState w.ends w.allowed).verdict? (.stateChange state) with
      | some outcome => .decided outcome
      | none => .following := by
  simp only [judge, Watch.verdict?]
  split
  · rfl
  · split <;> rfl

theorem step_following (sign : Sign) :
    w.step .following sign = match w.decides? sign with
      | some outcome => .decided outcome
      | none => .following := by
  unfold step decides?
  split
  · cases sign with
    | changed state slots => exact judge_eq state
    | _ => rfl
  · rfl

/-- A wait that watches is decided by the first sign that decides it, and not before. -/
theorem foldl_following (signs : List Sign) :
    signs.foldl w.step .following = match signs.findSome? w.decides? with
      | some outcome => .decided outcome
      | none => .following := by
  induction signs with
  | nil => rfl
  | cons sign signs ih =>
    rw [List.foldl_cons, List.findSome?_cons, step_following]
    cases w.decides? sign with
    | some outcome => exact foldl_decided _ _
    | none => exact ih

end StateWait

/-! ## What holds at a stage -/

/-- Nobody else carries what a handler carries, and no subscriber either. -/
theorem Accounts.not_subscribed {hs : List Handler} {ts : List Tracked} {s : Session η}
    (h : Accounts L hs ts s) {g : Handler} (hg : g ∈ hs) {op : OperationId}
    (hop : g.carried? s.timers = some op) :
    ∀ slot ∈ s.slots, slot.subscriber.operation? ≠ some op := by
  intro slot hslot hsub
  have hother := (h.perm (List.perm_cons_erase hg) (List.Perm.refl ts)).not_mem_of_head hop
  exact hother (List.mem_append_right _ (List.mem_filterMap.2 ⟨slot, hslot, hsub⟩))

namespace Sound

open StateWait

variable {away : List Handler} {owed : List Tracked} {s : Session η} {w : StateWait}

theorem asked (hs : Sound L away owed s) (hh : w.handler ∈ s.chain) : Stage.asked.Holds w s :=
  ⟨hh, Accounts.pending_of_handler hs (List.mem_append_right _ hh) rfl,
    Accounts.not_subscribed hs (List.mem_append_right _ hh) rfl⟩

theorem following (hs : Sound L away owed s) {connection : Connection}
    (hslot : ⟨connection, .stateChange, w.subscriber⟩ ∈ s.slots)
    (hown : connection ∉ owed.map Tracked.connection) : Stage.following.Holds w s := by
  have hlisted := hs.watchers.listed _ hslot w.operation rfl
  refine ⟨connection, hslot, (List.mem_append.1 hlisted).resolve_left fun hmem => ?_,
    Accounts.pending_of_slot hs hslot rfl⟩
  exact hown (List.mem_map_of_mem hmem)

theorem decided (hs : Sound L away owed s) {outcome : Except Failure Outcome}
    (ho : s.outcome? w.operation = some outcome) : (Stage.decided outcome).Holds w s := by
  refine ⟨ho, fun slot hslot hsub => ?_⟩
  have hpending := Accounts.pending_of_slot hs hslot hsub
  rw [(Session.isSome_outcome?_iff.1 (Option.isSome_of_eq_some ho)).2] at hpending
  cases hpending

/-- A wait stays at its stage if its handler, its watcher and its outcome stay. -/
theorem carry {t : Session η} (ht : Sound L away owed t) {σ : Stage} (h : σ.Holds w s)
    (hchain : s.chain ⊆ t.chain) (houtlives : s.Outlives t)
    (hslots : ∀ connection, ⟨connection, .stateChange, w.subscriber⟩ ∈ s.slots →
      ⟨connection, w.operation⟩ ∈ s.tracked → ⟨connection, .stateChange, w.subscriber⟩ ∈ t.slots ∧
        connection ∉ owed.map Tracked.connection) : σ.Holds w t := by
  cases σ with
  | uncalled => trivial
  | asked => exact ht.asked (hchain h.1)
  | following =>
    obtain ⟨connection, hslot, htracked, -⟩ := h
    obtain ⟨hstays, hown⟩ := hslots connection hslot htracked
    exact ht.following hstays hown
  | decided outcome => exact ht.decided (houtlives _ _ h.1)

/-- What is in the list of a session is not owed to it. -/
theorem not_owed (hs : Sound L away owed s) {t : Tracked} (ht : t ∈ s.tracked) :
    t.connection ∉ owed.map Tracked.connection := fun howed => by
  have hnodup := hs.watchers.tracked_nodup
  rw [List.map_append] at hnodup
  exact (List.nodup_append.1 hnodup).2.2 _ howed _ (List.mem_map_of_mem ht) rfl

end Sound

/-! ## The signs of a deed -/

/-- The change of state that a frame reports. -/
def Frame.stateChange? (f : Frame) : Option DeviceState :=
  if f.kind = .areq ∧ f.command = Event.stateChange.command then
    (DeviceState.codec.decode f.payload).toOption
  else none

namespace Session

/-- The change of state that is told to the subscribers when a frame is delivered. In the midst
of a dispatch or of a teardown nobody tells. -/
def heard? (f : Frame) (s : Session η) : Option DeviceState :=
  if Event.stateChange.listener ∈ s.chain then f.stateChange? else none

/-- A teardown of the session. -/
def collapse (s : Session η) (e : Failure) : Sign := .torn e s.chain s.tracked

/-- The teardown at the end of the outermost dispatch, if one was deferred. -/
def settling (s : Session η) : List Sign :=
  match s.depth, s.deferred with
  | 0, some e => [s.collapse e]
  | _, _ => []

/-- At the end of a dispatch nothing happens, or there is a teardown. -/
theorem settle_cases (app : Application η) (s : Session η) :
    s.settling = [] ∧ s.settleDeferred app = s ∨
    ∃ e, s.settling = [s.collapse e] ∧
      s.settleDeferred app = ({ s with deferred := none } : Session η).tearDown app e := by
  by_cases houtermost : s.depth = 0
  · cases hdeferred : s.deferred with
    | none => exact Or.inl ⟨by simp [settling, hdeferred], settleDeferred_of_none hdeferred app⟩
    | some e =>
      refine Or.inr ⟨e, by simp only [settling, houtermost, hdeferred], ?_⟩
      simp only [settleDeferred, houtermost, hdeferred, shutdown, if_true]
  · exact Or.inl ⟨by simp [settling, houtermost], settleDeferred_of_depth houtermost app⟩

/-- What the session meets with in a dispatch. -/
def heralds (app : Application η) (f : Frame) (s : Session η) : List Sign :=
  .offered f (s.offered app f) ::
    (s.heard? f).toList.map (.changed · (s.audience .stateChange))

/-- What the session meets with in a deed. -/
def signs (app : Application η) (s : Session η) : Deed η → List Sign
  | .call (.reachState ends allowed) => [.called ⟨ends, allowed, s.operations.size⟩]
  | .deliver f => s.heralds app f ++ (s.dispatched app f).settling
  | .shutdown e => if s.depth = 0 then [s.collapse e] else []
  | _ => []

/-- The handlers for events come first, or there are none. -/
def Poised (s : Session η) : Prop :=
  Event.all.map Event.listener <+: s.chain ∨ ∀ h ∈ s.chain, h.mute = true

theorem Poised.mono {s t : Session η} (hp : s.Poised) (hretains : s.Retains t)
    (hgains : s.Gains t) : t.Poised :=
  hp.imp (hretains _ listening_all) fun hmute h hh =>
    (hgains.handler h hh).elim (hmute h) And.left

/-- The handlers for events stay in front, or there are still none. -/
theorem stable_poised : Stable fun s t : Session η => s.Poised → t.Poised where
  refl _ := id
  trans h h' := h' ∘ h
  complete s op outcome h := by
    unfold Poised
    rwa [complete_chain]
  subscribe _ _ _ h := h
  disconnect _ _ h := h
  retain _ _ h := h
  disarm _ _ h := h
  running _ _ h := h

end Session

/-- A lawful application keeps sessions poised. -/
theorem Lawful.poised {L : Licence η} {app : Application η} (h : Lawful L app) :
    app.Keeps L fun s _ t => s.Poised → t.Poised :=
  (Lawful.iff_keeps.1 h).mono fun _ _ _ hrun hp => hp.mono hrun.retains hrun.gains

theorem Frame.stateChange?_eq_some {f : Frame} {state : DeviceState}
    (h : f.stateChange? = some state) : f.kind = .areq ∧ f.command = Event.stateChange.command ∧
      Event.stateChange.read Event.stateChange.lenient f.payload = .ok (.stateChange state) := by
  unfold stateChange? at h
  split at h
  · rename_i hmatch
    refine ⟨hmatch.1, hmatch.2, ?_⟩
    cases hdecode : DeviceState.codec.decode f.payload with
    | error e =>
      rw [hdecode] at h
      cases h
    | ok state' =>
      rw [hdecode] at h
      cases h
      exact congrArg (Except.map Indication.stateChange) hdecode
  · cases h

/-- Whoever tells of a change of state is in front of the chain. -/
theorem Session.Poised.of_heard {s : Session η} (hp : s.Poised) {f : Frame}
    {state : DeviceState} (h : s.heard? f = some state) :
    Event.all.map Event.listener <+: s.chain ∧ f.kind = .areq ∧
      f.command = Event.stateChange.command ∧
        Event.stateChange.read Event.stateChange.lenient f.payload = .ok (.stateChange state) := by
  have hmem : Event.stateChange.listener ∈ s.chain := by
    by_contra hno
    rw [heard?, if_neg hno] at h
    cases h
  rw [heard?, if_pos hmem] at h
  exact ⟨hp.resolve_right fun hmute => Bool.false_ne_true (hmute _ hmem),
    Frame.stateChange?_eq_some h⟩

/-- A handler that emits a change of state has it from the frame. -/
theorem Handler.stateChange?_of_emission {h : Handler} (hf : h.Formed L) {f : Frame}
    {i : Indication} (hi : h.emission? f = some i) (hevent : i.event = .stateChange) :
    ∃ state, f.stateChange? = some state := by
  cases h with
  | indication kind command event lenient =>
    obtain ⟨rfl, rfl, rfl⟩ := hf
    simp only [emission?] at hi
    split at hi
    · rename_i hmatch
      cases hread : event.read event.lenient f.payload with
      | error e =>
        rw [hread] at hi
        cases hi
      | ok i' =>
        rw [hread] at hi
        cases hi
        obtain rfl : Event.stateChange = event := hevent.symm.trans (Event.event_of_read hread)
        cases hdecode : DeviceState.codec.decode f.payload with
        | error e =>
          have hnone : Event.stateChange.read Event.stateChange.lenient f.payload = .error e :=
            congrArg (Except.map Indication.stateChange) hdecode
          rw [hnone] at hread
          cases hread
        | ok state =>
          refine ⟨state, ?_⟩
          rw [Frame.stateChange?, if_pos hmatch, hdecode]
          rfl
    · cases hi
  | _ => cases hi

/-! ## Dispatches -/

namespace Sound

open StateWait

variable {away : List Handler} {owed : List Tracked} {s u : Session η} {w : StateWait}
  {app : Application η} {f : Frame}

/-- The answer decides the wait, or hands it over to a watcher. -/
theorem resume_follow (hs : Sound L (w.handler :: away) owed u) (app : Application η)
    (answer : Except Failure Bytes) :
    match w.told answer with
    | .uncalled | .asked => False
    | .following => ⟨u.freshConnection, .stateChange, w.subscriber⟩ ∈
        ((Aftermath.follow w.ends w.allowed w.operation).resume app answer u).1.slots
    | .decided outcome =>
        ((Aftermath.follow w.ends w.allowed w.operation).resume app answer u).1.outcome?
          w.operation = some outcome := by
  have hcarried : w.handler.carried? u.timers = some w.operation := rfl
  have hpending := Accounts.pending_of_handler hs List.mem_cons_self hcarried
  have hcomplete (outcome : Except Failure Outcome) :=
    u.outcome?_complete w.operation outcome hpending
  simp only [told, Aftermath.resume]
  generalize answer.bind (deviceInfoValue deviceStateInfo) >>= DeviceState.codec.decodeStart
    = found
  cases found with
  | error e => exact hcomplete _
  | ok state =>
    by_cases hends : state ∈ w.ends
    · simp only [judge, if_pos hends]
      exact hcomplete _
    · by_cases hallowed : state ∈ w.allowed
      · simp only [judge, if_neg hends, hallowed, not_true_eq_false, if_false]
        exact Session.mem_slots_subscribe ..
      · simp only [judge, if_neg hends, hallowed, not_false_eq_true, if_true]
        exact hcomplete _

/-- The walk of a frame that comes to the handler of a wait and answers its question. -/
theorem walk_of_answer {before behind left : List Handler} {waits : List Wait}
    {tracked : List Tracked} (hchain : s.chain = before ++ w.handler :: behind)
    (hpassed : Chain.dispatch (Session.turn app f) before (s.enter, [], []) =
      (left, (u, waits, tracked), false)) {answer : Except Failure Bytes}
    (hanswer : answer? [ConfigurationRequest.getDeviceInfo] f = some answer) :
    ∃ waits' tracked', s.enter.walk app f s.chain = (left ++ behind,
      (((Aftermath.follow w.ends w.allowed w.operation).resume app answer u).1,
        waits', tracked'), true) := by
  let resumed := (Aftermath.follow w.ends w.allowed w.operation).resume app answer u
  have hturn : Session.turn app f w.handler (u, waits, tracked) =
      ((resumed.1, waits ++ resumed.2.waits, tracked ++ resumed.2.tracked), .consume) := by
    simp only [Session.turn, StateWait.handler, Handler.offer, hanswer, resumed]
  have hstop : (Session.turn app f w.handler (u, waits, tracked)).2.stop = true := by
    rw [hturn]
    rfl
  refine ⟨waits ++ resumed.2.waits, tracked ++ resumed.2.tracked, ?_⟩
  rw [Session.walk_eq, hchain, Chain.dispatch_append _ _ _ (by rw [hpassed]), hpassed,
    Chain.dispatch_cons_of_stop behind hstop, hturn]
  rfl

variable (hlaw : Lawful L app)
include hlaw

/-- A handler of a wait that takes an answer leads to the stage that the answer tells. -/
theorem dispatched_told (hs : Sound L away owed s) (hoffered : w.handler ∈ s.offered app f)
    {answer : Except Failure Bytes}
    (hanswer : answer? [ConfigurationRequest.getDeviceInfo] f = some answer) :
    (w.told answer).Holds w (s.dispatched app f) := by
  have hdispatched := hs.dispatched hlaw f
  obtain ⟨before, behind, hchain, hgoes⟩ := Chain.exists_of_mem_offered hoffered
  rcases hpassed : Chain.dispatch (Session.turn app f) before (s.enter, [], []) with
    ⟨left, ⟨u, waits, tracked⟩, stopped⟩
  obtain rfl : stopped = false := by rwa [hpassed] at hgoes
  have hreached := hs.reached hlaw hchain hpassed
  have htold := hreached.resume_follow app answer
  obtain ⟨waits', tracked', hwalk⟩ := walk_of_answer hchain hpassed hanswer
  have hleave : s.dispatched app f = Session.leave (left ++ behind) waits' tracked'
      ((Aftermath.follow w.ends w.allowed w.operation).resume app answer u).1 := by
    simp only [Session.dispatched, hwalk]
  cases hstage : w.told answer with
  | uncalled | asked =>
    rw [hstage] at htold
    exact htold.elim
  | following =>
    rw [hstage] at htold
    have hslot : ⟨u.freshConnection, .stateChange, w.subscriber⟩ ∈ (s.dispatched app f).slots := by
      rw [hleave, Session.leave_eq]
      exact htold
    refine hdispatched.following hslot fun howed => ?_
    obtain ⟨t, ht, hc⟩ := List.mem_map.1 howed
    exact Nat.ne_of_lt (hreached.watchers.tracked_lt t (by simp [ht])) hc
  | decided outcome =>
    rw [hstage] at htold
    refine hdispatched.decided ?_
    rw [hleave]
    exact Session.narrow_outlives.leave _ _ _ _ w.operation _ htold

/-- What a dispatch makes of a wait that awaits its answer. -/
theorem dispatched_asked (hs : Sound L away owed s) (hh : w.handler ∈ s.chain) (f : Frame) :
    (w.step .asked (.offered f (s.offered app f))).Holds w (s.dispatched app f) := by
  have hstays (hmem : w.handler ∈ (s.enter.walk app f s.chain).1) :
      Stage.asked.Holds w (s.dispatched app f) := by
    refine (hs.dispatched hlaw f).asked ?_
    obtain ⟨installed, hchain, -⟩ := Session.leave_chain (s.enter.walk app f s.chain).1
      (s.enter.walk app f s.chain).2.1.2.1 (s.enter.walk app f s.chain).2.1.2.2
      (s.enter.walk app f s.chain).2.1.1
    rw [Session.dispatched, hchain]
    exact List.mem_append_left _ (List.mem_append_left _ hmem)
  cases hanswer : answer? [ConfigurationRequest.getDeviceInfo] f with
  | none =>
    rw [step_asked_of_none hanswer]
    refine hstays (Chain.mem_dispatch_of_stays hh fun st => ?_)
    have hpasses : w.handler.offer app f st.1 = (st.1, {}) := by
      simp only [StateWait.handler, Handler.offer, hanswer]
    show (w.handler.offer app f st.1).2.verdict.remove = false
    rw [hpasses]
    rfl
  | some answer =>
    by_cases hoffered : w.handler ∈ s.offered app f
    · rw [step_asked_of_answer hoffered hanswer]
      exact dispatched_told hlaw hs hoffered hanswer
    · have hunreached : ¬w.IsReached (.offered f (s.offered app f)) := hoffered
      rw [step_of_not_isReached hunreached]
      exact hstays (Chain.mem_dispatch_of_not_offered hh hoffered)

omit hlaw in
/-- Where nobody is told of a change of state, no handler emits one. -/
theorem emission?_event_ne (hs : Sound L away owed s) (hp : s.Poised) (hno : s.heard? f = none) :
    ∀ h ∈ s.chain, ∀ i, h.emission? f = some i → i.event ≠ .stateChange := by
  intro h hh i hi hevent
  rcases hp with hfront | hmute
  · have hmem : Event.stateChange.listener ∈ s.chain :=
      hfront.mem (List.mem_map_of_mem (by decide))
    have hformed := hs.formed h (List.mem_append_right _ hh)
    obtain ⟨state, hstate⟩ := Handler.stateChange?_of_emission hformed hi hevent
    rw [Session.heard?, if_pos hmem, hstate] at hno
    cases hno
  · rw [Handler.emission?_of_mute (hmute h hh)] at hi
    cases hi

variable (hL : ∀ i, L.deed (.emit i) → i.event ≠ .stateChange)
include hL

/-- What a dispatch makes of a wait that watches how the state changes. -/
theorem dispatched_following (hs : Sound L away owed s) (hp : s.Poised)
    (hσ : Stage.following.Holds w s) (f : Frame) :
    (((s.heard? f).toList.map (Sign.changed · (s.audience .stateChange))).foldl w.step
      .following).Holds w (s.dispatched app f) := by
  obtain ⟨connection, hslot, htracked, -⟩ := hσ
  have hdispatched := hs.dispatched hlaw f
  have hnot := hs.not_owed htracked
  have hguards : app.Keeps L fun s _ t =>
      Session.Guards L ⟨connection, .stateChange, w.subscriber⟩ s t :=
    hlaw.guards w.operation?_subscriber hL
  cases hheard : s.heard? f with
  | none =>
    have hother := hs.emission?_event_ne hp hheard
    exact hdispatched.following (hs.dispatched_guards hlaw hguards hslot hother) hnot
  | some state =>
    obtain ⟨hfront, hkind, hcommand, hread⟩ := hp.of_heard hheard
    obtain ⟨-, -, hleave⟩ := Session.deliver_listener hfront hkind hcommand hread app
    have hemit := hs.enter.emit_watcher hlaw hguards (.enter hslot owed) rfl
      (i := .stateChange state) rfl
    have haudience : (⟨connection, .stateChange, w.subscriber⟩ : Slot) ∈ s.audience .stateChange :=
      List.mem_filter.2 ⟨hslot, rfl⟩
    have hreached : w.IsReached (.changed state (s.audience .stateChange)) :=
      List.mem_map_of_mem (f := Slot.subscriber) haudience
    have hjudged : [.changed state (s.audience .stateChange)].foldl w.step .following =
        w.judge state := step_of_isReached hreached _
    rw [Option.toList_some, List.map_singleton, hjudged, judge_eq]
    cases hverdict : (Watch.decisiveState w.ends w.allowed).verdict? (.stateChange state) with
    | some outcome =>
      rw [hverdict] at hemit
      refine hdispatched.decided ?_
      rw [hleave]
      exact Session.narrow_outlives.leave _ _ _ _ w.operation _ hemit
    | none =>
      rw [hverdict] at hemit
      refine hdispatched.following ?_ hnot
      rw [hleave, Session.leave_eq]
      exact hemit

/-- What a dispatch makes of a wait, before a teardown that was deferred to its end. -/
theorem dispatched_stage (hs : Sound L away owed s) (hp : s.Poised) {σ : Stage}
    (hσ : σ.Holds w s) (f : Frame) :
    ((s.heralds app f).foldl w.step σ).Holds w (s.dispatched app f) := by
  rw [Session.heralds, List.foldl_cons]
  cases σ with
  | uncalled =>
    have hchanged : Sign.called w ∉
        (s.heard? f).toList.map (Sign.changed · (s.audience .stateChange)) := by
      intro hmem
      obtain ⟨state, -, heq⟩ := List.mem_map.1 hmem
      cases heq
    have hoffered : Sign.offered f (s.offered app f) ≠ .called w := nofun
    rw [step_uncalled hoffered, foldl_uncalled hchanged]
    trivial
  | asked =>
    -- The answer is no change of state, so what it leads to is not told of one at once.
    have hasked := dispatched_asked hlaw hs hσ.1 f
    cases hheard : s.heard? f with
    | none => exact hasked
    | some state =>
      have hkind : f.kind = .areq := by
        unfold Session.heard? at hheard
        split at hheard
        · exact (Frame.stateChange?_eq_some hheard).1
        · cases hheard
      have hanswer : answer? [ConfigurationRequest.getDeviceInfo] f = none := by
        simp [answer?, hkind]
      have hunheard : w.step .asked (.changed state (s.audience .stateChange)) = .asked :=
        ite_self _
      rw [step_asked_of_none hanswer] at hasked ⊢
      rw [Option.toList_some, List.map_singleton, List.foldl_cons, List.foldl_nil, hunheard]
      exact hasked
  | following =>
    rw [show w.step .following (.offered f (s.offered app f)) = .following from ite_self _]
    exact dispatched_following hlaw hL hs hp hσ f
  | decided outcome =>
    have houtlives : s.Outlives (s.dispatched app f) := by
      have henter : s.Outlives s.enter := Session.narrow_outlives.other rfl rfl rfl
      have hwalk := Session.narrow_outlives.stable.walk hlaw.outlives f s.chain s.enter
      exact Session.narrow_outlives.trans (Session.narrow_outlives.trans henter hwalk)
        (Session.narrow_outlives.leave _ _ _ _)
    rw [step_decided, foldl_decided]
    exact (hs.dispatched hlaw f).decided (houtlives _ _ hσ.1)

/-! ## Teardowns -/

omit hL in
/-- When a chain is torn down, the waits that await their answers fail. -/
theorem drain_asked (chain : List Handler) (hs : Sound L (chain ++ away) owed s)
    (hh : w.handler ∈ chain) (e : Failure) :
    (Chain.drain Handler.permanent (Handler.abort app e) chain s).2.outcome? w.operation =
      some (.error e) := by
  induction chain generalizing s away with
  | nil => cases hh
  | cons x behind ih =>
    cases hperm : x.permanent with
    | true =>
      have hbehind : w.handler ∈ behind := by
        refine (List.mem_cons.1 hh).resolve_left ?_
        rintro rfl
        cases hperm
      rw [Chain.drain_cons_of_permanent behind s hperm]
      exact ih (hs.perm List.perm_middle.symm (List.Perm.refl _)) hbehind
    | false =>
      rw [Chain.drain_cons_of_not_permanent behind s hperm]
      rcases List.mem_cons.1 hh with rfl | hbehind
      · have hcarried : w.handler.carried? s.timers = some w.operation := rfl
        have hpending := Accounts.pending_of_handler hs List.mem_cons_self hcarried
        refine Session.narrow_outlives.stable.drain hlaw.outlives e behind _ w.operation _ ?_
        exact s.outcome?_complete w.operation (.error e) hpending
      · exact ih (hs.abort hlaw.upholds e) hbehind

/-- A teardown fails a wait that is not decided. -/
theorem tearDown_stage (hs : Sound L away owed s) {σ : Stage} (hσ : σ.Holds w s) (e : Failure) :
    (w.step σ (s.collapse e)).Holds w (s.tearDown app e) := by
  have htorn := hs.tearDown hlaw.upholds e
  cases σ with
  | uncalled =>
    have hcollapse : s.collapse e ≠ .called w := nofun
    rw [step_uncalled hcollapse]
    trivial
  | asked =>
    have hreached : w.IsReached (s.collapse e) := Or.inl hσ.1
    rw [step_of_isReached hreached]
    refine htorn.decided ?_
    exact Session.narrow_outlives.stable.abortTracked e s.tracked _ w.operation _
      (drain_asked hlaw s.chain hs.cleared hσ.1 e)
  | following =>
    obtain ⟨connection, hslot, htracked, -⟩ := hσ
    have hguards : app.Keeps L fun s _ t =>
        Session.Guards L ⟨connection, .stateChange, w.subscriber⟩ s t :=
      hlaw.guards w.operation?_subscriber hL
    have hreached : w.IsReached (s.collapse e) :=
      Or.inr (List.mem_map_of_mem (f := Tracked.operation) htracked)
    rw [step_of_isReached hreached]
    exact htorn.decided (hs.tearDown_fails_watcher hlaw hguards hslot rfl htracked e)
  | decided outcome =>
    have houtlives : s.Outlives (s.tearDown app e) := by
      have hcleared : s.Outlives { s with chain := [], tracked := [], outbound := [] } :=
        Session.narrow_outlives.other rfl rfl rfl
      have hdrain := Session.narrow_outlives.stable.drain hlaw.outlives e s.chain
        { s with chain := [], tracked := [], outbound := [] }
      exact Session.narrow_outlives.trans (Session.narrow_outlives.trans hcleared hdrain)
        (Session.narrow_outlives.stable.abortTracked e s.tracked _)
    rw [step_decided]
    exact htorn.decided (houtlives _ _ hσ.1)

/-- What the end of a dispatch makes of a wait. -/
theorem settle_stage (hs : Sound L away owed s) {σ : Stage} (hσ : σ.Holds w s) :
    (s.settling.foldl w.step σ).Holds w (s.settleDeferred app) := by
  rcases Session.settle_cases app s with ⟨hsettling, hsettled⟩ | ⟨e, hsettling, hsettled⟩ <;>
    rw [hsettling, hsettled]
  · exact hσ
  · have hu : Sound L away owed { s with deferred := none } := Accounts.congr hs rfl rfl rfl rfl
    have hσu : σ.Holds w { s with deferred := none } := by
      cases σ <;> exact hσ
    exact tearDown_stage hlaw hL hu hσu e

/-! ## Deeds -/

/-- Each deed brings a wait to the stage that its signs lead to. -/
theorem perform_stage (hs : Sound L away owed s) (hp : s.Poised) {σ : Stage} (hσ : σ.Holds w s)
    {d : Deed η} (hd : L.Permits d) (hown : d.Own s) (hemit : ∀ i, d ≠ .emit i) :
    ((s.signs app d).foldl w.step σ).Holds w (L.perform app d s) := by
  have hrun : Uses L s [] (L.perform app d s) := (Uses.refl s).deed hlaw hd hown
  have hperformed : Sound L away owed (L.perform app d s) :=
    hrun.keeps (Session.upholds_kept L) away owed hs
  cases hquiet : d.quiet with
  | true =>
    have hstays : σ.Holds w (L.perform app d s) :=
      hperformed.carry hσ (Deed.prefix_perform hquiet app s).subset hrun.outlives
        fun _ hslot htracked =>
          ⟨Deed.mem_slots_perform hquiet hown w.operation?_subscriber hslot app,
            hs.not_owed htracked⟩
    cases d with
    | call c =>
      cases c with
      | reachState ends allowed =>
        have hcalled : s.signs app (.call (.reachState ends allowed)) =
            [.called ⟨ends, allowed, s.operations.size⟩] := rfl
        rw [hcalled]
        by_cases hreached : w.IsReached (.called ⟨ends, allowed, s.operations.size⟩)
        · have hw : StateWait.mk ends allowed s.operations.size = w := hreached
          subst hw
          have hmem : StateWait.handler ⟨ends, allowed, s.operations.size⟩ ∈
              (s.call (.reachState ends allowed)).2.chain :=
            List.mem_append_right _ (List.mem_singleton.2 rfl)
          cases σ with
          | uncalled =>
            rw [List.foldl_cons, step_of_isReached hreached]
            exact hperformed.asked hmem
          | _ =>
            rw [List.foldl_cons, step_of_isReached hreached]
            exact hstays
        · rw [List.foldl_cons, step_of_not_isReached hreached]
          exact hstays
      | _ => exact hstays
    | deliver | shutdown => cases hquiet
    | _ => exact hstays
  | false =>
    cases d with
    | deliver f =>
      rw [Session.signs, List.foldl_append]
      have hstage := dispatched_stage hlaw hL hs hp hσ f
      exact settle_stage hlaw hL (hs.dispatched hlaw f) hstage
    | shutdown e =>
      by_cases hdepth : s.depth = 0
      · have hshutdown : s.shutdown app e = s.tearDown app e := if_pos hdepth
        have hsigns : s.signs app (.shutdown e) = [s.collapse e] := if_pos hdepth
        rw [hsigns]
        have hstage := tearDown_stage hlaw hL hs hσ e
        rw [← hshutdown] at hstage
        exact hstage
      · have hshutdown : s.shutdown app e = { s with deferred := s.deferred <|> some e } :=
          if_neg hdepth
        have hsigns : s.signs app (.shutdown e) = [] := if_neg hdepth
        rw [hsigns, Licence.perform, Deed.perform, hshutdown]
        exact hσ
    | emit i => exact absurd rfl (hemit i)
    | _ => cases hquiet

end Sound

end ZigbeeHost
