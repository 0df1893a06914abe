import ZigbeeHost.Proofs.Session.Completion
import ZigbeeHost.Proofs.Session.Drift
import ZigbeeHost.Proofs.Session.Logbook
import ZigbeeHost.Proofs.Session.StateWait
/-!
# Waits for a reset

A call for a reset is resolved by the first reset that is told to the subscribers after it, or by
the first teardown that finds it, whichever comes first. An application that writes down its calls
for a reset, the resets that are told and the teardowns can read the outcome of each call off its
log (`Written.resets_decided_first`).

`ResetStage` says how far a call has come, and `ResetStage.Holds` what a session looks like at a
stage. What a part of a run adds to the log leads each call from its stage before to its stage
after (`Session.Reports`). A reset is written down before the frame is delivered that reports it,
so it stands in front of all that callbacks write during the emission : a call of a subscriber
comes behind it and waits for the next one.
-/

namespace ZigbeeHost

/-- Something that concerns the calls for a reset. -/
inductive ResetSign where
  | called (op : OperationId)
  /-- The subscribers are told of a reset. -/
  | told (info : ResetInfo)
  /-- The operations are failed. -/
  | torn (e : Failure) (ops : List OperationId)

/-- How far a call for a reset has come. -/
inductive ResetStage where
  | uncalled
  | waiting
  | decided (outcome : Except Failure Outcome)

namespace ResetSign

variable {op : OperationId}

/-- What the sign makes of an operation that waits. -/
def decides? (op : OperationId) : ResetSign → Option (Except Failure Outcome)
  | called _ => none
  | told info => some (.ok (.reset info))
  | torn e ops => if op ∈ ops then some (.error e) else none

/-- What the sign makes of the stage of an operation. -/
def step (op : OperationId) : ResetStage → ResetSign → ResetStage
  | .uncalled, .called op' => if op' = op then .waiting else .uncalled
  | .waiting, sign =>
    match sign.decides? op with
    | some outcome => .decided outcome
    | none => .waiting
  | stage, _ => stage

theorem foldl_decided (outcome : Except Failure Outcome) (log : List ResetSign) :
    log.foldl (step op) (.decided outcome) = .decided outcome := by
  refine List.foldlRecOn log (step op) (motive := fun stage => stage = .decided outcome) rfl ?_
  rintro _ rfl sign -
  rfl

theorem foldl_uncalled {log : List ResetSign} (h : .called op ∉ log) :
    log.foldl (step op) .uncalled = .uncalled := by
  refine List.foldlRecOn log (step op) (motive := fun stage => stage = .uncalled) rfl ?_
  rintro _ rfl sign hsign
  cases sign with
  | called op' =>
    refine if_neg ?_
    rintro rfl
    exact h hsign
  | told | torn => rfl

/-- A call is decided by the first sign that decides it, and not before. -/
theorem foldl_waiting (log : List ResetSign) :
    log.foldl (step op) .waiting = match log.findSome? (decides? op) with
      | some outcome => .decided outcome
      | none => .waiting := by
  induction log with
  | nil => rfl
  | cons sign log ih =>
    rw [List.foldl_cons, List.findSome?_cons, step]
    cases sign.decides? op with
    | some outcome => exact foldl_decided _ _
    | none => exact ih

end ResetSign

/-- The session has the operation at the stage. -/
def ResetStage.Holds {η : Type} (op : OperationId) (s : Session η) : ResetStage → Prop
  | uncalled => True
  | waiting => ∃ connection, ⟨connection, .reset, .watcher .nextReset op⟩ ∈ s.slots
  | decided outcome => s.outcome? op = some outcome

/-! ## What is written down -/

/-- The reset that a frame reports. -/
def Frame.resetInfo? (f : Frame) : Option ResetInfo :=
  if f.kind = .areq ∧ f.command = Event.reset.command then
    (ResetInfo.codec.decode f.payload).toOption
  else none

theorem Frame.resetInfo?_eq_some_iff {f : Frame} {info : ResetInfo} :
    f.resetInfo? = some info ↔ f.kind = .areq ∧ f.command = Event.reset.command ∧
      Event.reset.read Event.reset.lenient f.payload = .ok (.reset info) := by
  have hread : Event.reset.read Event.reset.lenient f.payload =
      (ResetInfo.codec.decode f.payload).map .reset := rfl
  unfold resetInfo?
  rw [hread]
  split
  · rename_i hmatch
    cases ResetInfo.codec.decode f.payload <;> simp [hmatch, Except.map, Except.toOption]
  · rename_i hmatch
    refine ⟨nofun, fun h => absurd ⟨h.1, h.2.1⟩ hmatch⟩

/-- Where a handler emits a reset, the frame reports it. -/
theorem Handler.resetInfo?_of_emission {η : Type} {L : Licence η} {h : Handler} (hf : h.Formed L)
    {f : Frame} {i : Indication} (hi : h.emission? f = some i) (hevent : i.event = .reset) :
    ∃ info, f.resetInfo? = some info := by
  cases i with
  | reset info =>
    refine ⟨info, Frame.resetInfo?_eq_some_iff.2 ?_⟩
    cases h with
    | indication kind command event lenient =>
      obtain ⟨rfl, rfl, rfl⟩ := hf
      simp only [emission?] at hi
      split at hi
      · rename_i hmatch
        cases hread : event.read event.lenient f.payload with
        | error e =>
          rw [hread] at hi
          cases hi
        | ok i =>
          rw [hread] at hi
          cases hi
          obtain rfl : Event.reset = event := Event.event_of_read hread
          exact ⟨hmatch.1, hmatch.2, hread⟩
      · cases hi
    | _ => cases hi
  | _ => cases hevent

namespace Session

variable {η : Type}

/-- The reset that is told to the subscribers when a frame is delivered. In the midst of a dispatch
or of a teardown nobody tells. -/
def reset? (f : Frame) (s : Session η) : Option ResetInfo :=
  if Event.reset.listener ∈ s.chain then f.resetInfo? else none

/-- Whoever tells of a reset is in front of the chain. -/
theorem Poised.of_reset {s : Session η} (hp : s.Poised) {f : Frame} {info : ResetInfo}
    (h : s.reset? f = some info) :
    Event.all.map Event.listener <+: s.chain ∧ f.kind = .areq ∧
      f.command = Event.reset.command ∧
        Event.reset.read Event.reset.lenient f.payload = .ok (.reset info) := by
  have hmem : Event.reset.listener ∈ s.chain := by
    by_contra hno
    rw [reset?, if_neg hno] at h
    cases h
  rw [reset?, if_pos hmem] at h
  exact ⟨hp.resolve_right fun hmute => Bool.false_ne_true (hmute _ hmem),
    Frame.resetInfo?_eq_some_iff.1 h⟩

/-- The sign of a teardown. -/
def tearing (s : Session η) (e : Failure) : ResetSign :=
  .torn e (s.tracked.map Tracked.operation)

end Session

/-- An application writes down what concerns its calls for a reset. -/
def resetBook {θ : Type} : Logbook θ ResetSign where
  before
    | s, .deliver f => (s.reset? f).toList.map .told
    | _, _ => []
  after
    | _, s, .call (.reset _) => [.called s.operations.size]
    | _, s, .shutdown e => if s.depth = 0 then [s.tearing e] else []
    | app, s, .deliver f => (s.dispatched app f).due?.toList.map (s.dispatched app f).tearing
    | _, _, _ => []

/-- Nobody emits the event by hand. -/
def Licence.reporting (η : Type) (event : Event) : Licence η where
  deed
    | .emit i => i.event ≠ event
    | _ => True

theorem Licence.open_reporting {θ σ : Type} {event : Event} :
    (Licence.reporting (θ × List σ) event).Open where
  think _ := trivial
  note _ _ _ := rfl

namespace Session

variable {θ : Type} {s t u : Session (θ × List ResetSign)} {log log' : List ResetSign}
  {n m : OperationId}

/-- What a part of a run that leads from `s` to `t` adds to the log. It leads operations from `n`
on from their stages in `s` to their stages in `t`. -/
structure Reports (n : OperationId) (s t : Session (θ × List ResetSign)) (log : List ResetSign) :
    Prop where
  pages : t.pages = s.pages ++ log
  running : t.running = s.running
  size : s.operations.size ≤ t.operations.size
  called : ∀ op, .called op ∈ log → s.operations.size ≤ op
  stage : ∀ op, n ≤ op → ∀ σ : ResetStage, σ.Holds op s →
    (log.foldl (ResetSign.step op) σ).Holds op t

theorem Reports.trans (h : Reports n s t log) (h' : Reports n t u log') :
    Reports n s u (log ++ log') where
  pages := by rw [h'.pages, h.pages, List.append_assoc]
  running := h'.running.trans h.running
  size := Nat.le_trans h.size h'.size
  called op hop := by
    rcases List.mem_append.1 hop with hop | hop
    · exact h.called op hop
    · exact Nat.le_trans h.size (h'.called op hop)
  stage op hop σ hσ := by
    rw [List.foldl_append]
    exact h'.stage op hop _ (h.stage op hop σ hσ)

theorem Reports.mono (h : Reports n s t log) (hnm : n ≤ m) : Reports m s t log :=
  { h with stage := fun op hop => h.stage op (Nat.le_trans hnm hop) }

/-- If nothing is written, watchers for a reset stay and outcomes too. -/
theorem Reports.of_stays (hpages : t.pages = s.pages) (hrunning : t.running = s.running)
    (hsize : s.operations.size ≤ t.operations.size)
    (hslots : ∀ op, n ≤ op → ∀ connection, ⟨connection, .reset, .watcher .nextReset op⟩ ∈ s.slots →
      ⟨connection, .reset, .watcher .nextReset op⟩ ∈ t.slots)
    (houtlives : s.Outlives t) : Reports n s t [] where
  pages := by rw [hpages, List.append_nil]
  running := hrunning
  size := hsize
  called _ := nofun
  stage op hop σ hσ := by
    cases σ with
    | uncalled => trivial
    | waiting =>
      obtain ⟨connection, hslot⟩ := hσ
      exact ⟨connection, hslots op hop connection hslot⟩
    | decided outcome => exact houtlives op outcome hσ

theorem Drifts.reports (h : s.Drifts t) : Reports n s t [] :=
  .of_stays (congrArg Prod.snd h.host) h.running h.size (fun _ _ _ hslot => h.slots_subset hslot)
    h.outlives

theorem steadfast_reports (L : Licence (θ × List ResetSign)) (n : OperationId) :
    Steadfast L fun s t : Session (θ × List ResetSign) => ∃ log, Reports n s t log where
  trans h h' := by
    obtain ⟨log, hlog⟩ := h
    obtain ⟨log', hlog'⟩ := h'
    exact ⟨_, hlog.trans hlog'⟩
  drift _ h := ⟨[], h.reports⟩

/-- After its turn a subscriber is not being called any more than before. -/
theorem notify_running {η : Type} (app : Application η) (i : Indication) (s : Session η)
    (slot : Slot) : (s.notify app i slot).running = s.running := by
  unfold notify
  split
  · split
    · split
      · exact (Drifts.complete (s.disconnect _) _ _).running
      · rfl
    · split <;> rfl
  · rfl

end Session

/-! ## Parts of a run -/

namespace Sound

open Session

variable {θ : Type} {L : Licence (θ × List ResetSign)} {away : List Handler} {owed : List Tracked}
  {s t : Session (θ × List ResetSign)} {app : Application (θ × List ResetSign)} {i : Indication}

/-- An operation that is not issued yet has not come into being. -/
theorem eq_uncalled {η : Type} {L : Licence η} {s : Session η} (hs : Sound L away owed s)
    {op : OperationId} (hop : s.operations.size ≤ op) {σ : ResetStage} (hσ : σ.Holds op s) :
    σ = .uncalled := by
  cases σ with
  | uncalled => rfl
  | waiting =>
    obtain ⟨connection, hslot⟩ := hσ
    have hpending := Accounts.pending_of_slot hs hslot rfl
    exact absurd (pending_lt hpending) (Nat.not_lt_of_le hop)
  | decided outcome =>
    have hissued := (isSome_outcome?_iff.1 (Option.isSome_of_eq_some hσ)).1
    exact absurd hissued (Nat.not_lt_of_le hop)

/-- Where nobody is told of a reset, no handler emits one. -/
theorem event_ne_reset {η : Type} {L : Licence η} {s : Session η} (hs : Sound L away owed s)
    (hp : s.Poised) {f : Frame} (hno : s.reset? f = none) :
    ∀ h ∈ s.chain, ∀ i, h.emission? f = some i → i.event ≠ .reset := by
  intro h hh i hi hevent
  rcases hp with hfront | hmute
  · have hmem : Event.reset.listener ∈ s.chain := hfront.mem (List.mem_map_of_mem (by decide))
    have hformed := hs.formed h (List.mem_append_right _ hh)
    obtain ⟨info, hinfo⟩ := Handler.resetInfo?_of_emission hformed hi hevent
    rw [reset?, if_pos hmem, hinfo] at hno
    cases hno
  · rw [Handler.emission?_of_mute (hmute h hh)] at hi
    cases hi

/-- A watcher decides its operation. Those for a reset that belong to others stay. -/
theorem fire_reports {n : OperationId} {slot : Slot}
    (hslot : slot ∈ s.slots)
    (hother : ∀ op, n ≤ op → slot.event = .reset → slot.subscriber ≠ .watcher .nextReset op)
    (op : OperationId) (outcome : Except Failure Outcome) :
    Reports n s ((s.disconnect slot.connection).complete op outcome) [] := by
  have hfired := Drifts.complete (s.disconnect slot.connection) op outcome
  refine .of_stays (congrArg Prod.snd hfired.host) hfired.running hfired.size
    (fun op' hop' connection hmem => ?_) ?_
  · rw [complete_slots]
    refine mem_slots_disconnect.2 ⟨hmem, fun hc => ?_⟩
    obtain rfl := eq_of_connection hmem hslot hc
    exact hother op' hop' rfl rfl
  · exact narrow_outlives.trans (narrow_outlives.disconnect s _) hfired.outlives

/-- Tracked operations are aborted, and that is written down. -/
theorem abortTracked_reports {n : OperationId} {ts : List Tracked}
    (hs : Sound L away (ts ++ owed) s) (e : Failure) :
    let sign := ResetSign.torn e (ts.map Tracked.operation)
    Reports n s ((ts.foldl (Session.abortTracked e) s).write [sign]) [sign] := by
  let t := ts.foldl (Session.abortTracked e) s
  have hslots : t.slots = s.slots.filter fun slot => slot.connection ∉ ts.map Tracked.connection :=
    slots_abortTracked e ts s
  have hfails : Fails e s t := (Fails.abortTracked ts s).1
  have houtlives : s.Outlives t := narrow_outlives.stable.abortTracked e ts s
  have hbeside : t.host = s.host ∧ t.running = s.running ∧
      s.operations.size ≤ t.operations.size := by
    refine List.foldlRecOn ts _ (motive := fun u : Session (θ × List ResetSign) =>
      u.host = s.host ∧ u.running = s.running ∧ s.operations.size ≤ u.operations.size)
      ⟨rfl, rfl, Nat.le_refl _⟩ fun u ⟨hhost, hrunning, hsize⟩ x _ => ?_
    have haborted := Drifts.complete (u.disconnect x.connection) x.operation (.error e)
    exact ⟨haborted.host.trans hhost, haborted.running.trans hrunning,
      Nat.le_trans hsize haborted.size⟩
  obtain ⟨hhost, hrunning, hsize⟩ := hbeside
  refine ⟨congrArg (· ++ _) (congrArg Prod.snd hhost), hrunning, hsize, ?_, ?_⟩
  · intro op hop
    cases List.mem_singleton.1 hop
  intro op _ σ hσ
  cases σ with
  | uncalled => trivial
  | decided outcome => exact houtlives op outcome hσ
  | waiting =>
    obtain ⟨connection, hslot⟩ := hσ
    rw [List.foldl_cons, List.foldl_nil, ResetSign.step, ResetSign.decides?]
    by_cases hop : op ∈ ts.map Tracked.operation
    · rw [if_pos hop]
      obtain ⟨x, hx, rfl⟩ := List.mem_map.1 hop
      have hmem := List.mem_append_left s.tracked (List.mem_append_left owed hx)
      have hpending := pending_iff.1 (Accounts.pending_of_slot hs hslot rfl)
      have hdecided := abortTracked_decides e ts s hx (hs.watchers.issued x hmem)
      rcases hfails.ledger x.operation with hsame | ⟨-, hfailed⟩
      · have hundecided : t.pending x.operation = true := pending_iff.2 (hsame.trans hpending)
        rw [(isSome_outcome?_iff.1 hdecided).2] at hundecided
        cases hundecided
      · exact outcome?_eq_some_iff.2 hfailed
    · rw [if_neg hop]
      refine ⟨connection, ?_⟩
      show _ ∈ t.slots
      rw [hslots]
      refine List.mem_filter.2 ⟨hslot, decide_eq_true fun hc => ?_⟩
      obtain ⟨x, hx, hsame⟩ := List.mem_map.1 hc
      have hmem := List.mem_append_left s.tracked (List.mem_append_left owed hx)
      have hwatches := hs.watchers.watcher x hmem _ hslot hsame.symm
      exact hop (Option.some.inj hwatches ▸ List.mem_map_of_mem hx)

section Callbacks

variable (happ : app.Records L resetBook fun s _ t =>
    ∀ away owed, Sound L away owed s → s.Poised → ∃ log, Reports 0 s t log)
  (hlaw : Lawful L app)
include happ

/-- A subscriber that is called. -/
theorem hear_reports {n : OperationId} (hs : Sound L away owed s) (hp : s.Poised)
    (connection : Connection) (callback : CallbackId) (i : Indication) :
    ∃ log, Reports n s { app.hear callback connection i
      { s with running := connection :: s.running } with running := s.running } log := by
  let calling := { s with running := connection :: s.running }
  have hcalling : Sound L away owed calling := Accounts.congr hs rfl rfl rfl rfl
  have hheard := happ.hear callback connection i calling away owed
  rw [show calling.write (resetBook.called connection i) = calling from write_nil _] at hheard
  obtain ⟨log, hreports⟩ := hheard hcalling hp
  have hmono := hreports.mono (Nat.zero_le n)
  exact ⟨log, hmono.pages, rfl, hmono.size, hmono.called, hmono.stage⟩

include hlaw

/-- An emission of another event. -/
theorem heeds_reports (n : OperationId) :
    app.Heeds L (fun i => i.event ≠ .reset) Session.Poised
      fun s t => ∃ log, Reports n s t log where
  lawful := hlaw
  keeps := hlaw.poised
  emit {away owed s i} hs hp hi := by
    refine (steadfast_reports L n).emit hlaw stable_poised hlaw.poised ?_ ?_ hs hp
    · intro t slot watch op outcome ht _ hmem hevent _ _
      exact ⟨[], fire_reports hmem (fun _ _ hreset => absurd (hevent.symm.trans hreset) hi) op
        outcome⟩
    · intro t slot callback ht hpt _ _ _
      exact hear_reports happ ht hpt slot.connection callback i
  offer callback f hs hp := by
    obtain ⟨log, hreports⟩ := happ.offer callback f _ _ _ hs hp
    exact ⟨log, hreports.mono (Nat.zero_le n)⟩
  answered callback answer hs hp := by
    obtain ⟨log, hreports⟩ := happ.answered callback answer _ _ _ hs hp
    exact ⟨log, hreports.mono (Nat.zero_le n)⟩
  abort callback e hs hp := by
    obtain ⟨log, hreports⟩ := happ.abort callback e _ _ _ hs hp
    exact ⟨log, hreports.mono (Nat.zero_le n)⟩

/-- A dispatch in which a reset is told. -/
theorem dispatched_reset (hL : ∀ i, L.deed (.emit i) → i.event ≠ .reset)
    (hs : Sound L away owed s) (hp : s.Poised) {f : Frame} {info : ResetInfo}
    (htold : s.reset? f = some info) :
    ∃ log, Reports 0 s ((s.write [.told info]).dispatched app f) (.told info :: log) := by
  let begun := s.write [.told info]
  have hbegun : Sound L away owed begun := Accounts.congr hs rfl rfl rfl rfl
  obtain ⟨hfront, hkind, hcommand, hread⟩ := hp.of_reset htold
  obtain ⟨-, -, hdispatched⟩ :=
    Session.deliver_listener (s := begun) hfront hkind hcommand hread app
  -- Whoever is called for meanwhile is not among those who are told.
  have hnew : ∃ log, Reports s.operations.size begun.enter (begun.enter.emit app (.reset info))
      log := by
    refine (steadfast_reports L _).emit hlaw stable_poised hlaw.poised ?_ ?_ hbegun.enter
      (Or.inr nofun)
    · intro t slot watch op outcome ht hold hmem _ _ _
      refine ⟨[], fire_reports hmem (fun op' hop' _ hsub => ?_) op outcome⟩
      have hpending : s.pending op' = true :=
        Accounts.pending_of_slot hs hold (by rw [hsub]; rfl)
      exact absurd (pending_lt hpending) (Nat.not_lt_of_le hop')
    · intro t slot callback ht hpt _ _ _
      exact hear_reports happ ht hpt slot.connection callback (.reset info)
  obtain ⟨log, hlog⟩ := hnew
  have hleft := Drifts.leave begun.chain [] [] (begun.enter.emit app (.reset info))
  have hbegin : begun.Drifts begun.enter := .of_eq rfl rfl rfl rfl rfl
  have hreports := (hbegin.reports.trans hlog).trans hleft.reports
  rw [List.nil_append, List.append_nil] at hreports
  have hemitted := narrow_outlives.stable.emit hlaw.outlives (.reset info) begun.enter
  have houtlives : s.Outlives (begun.dispatched app f) := by
    rw [hdispatched]
    exact narrow_outlives.trans (narrow_outlives.trans hbegin.outlives hemitted) hleft.outlives
  rw [← hdispatched] at hreports hleft
  refine ⟨log, ?_, hreports.running, hreports.size, fun op hop => ?_, fun op _ σ hσ => ?_⟩
  · rw [hreports.pages, pages_write, List.append_assoc]
    rfl
  · rcases List.mem_cons.1 hop with hop | hop
    · cases hop
    · exact hreports.called op hop
  rcases Nat.lt_or_ge op s.operations.size with hold | hnew
  · cases σ with
    | uncalled =>
      have hnot : .called op ∉ log := fun hop =>
        Nat.not_lt_of_le (hreports.called op hop) hold
      have huncalled : log.foldl (ResetSign.step op) .uncalled = .uncalled :=
        ResetSign.foldl_uncalled hnot
      show ResetStage.Holds op _ (log.foldl (ResetSign.step op) .uncalled)
      rw [huncalled]
      trivial
    | decided outcome =>
      rw [ResetSign.foldl_decided]
      exact houtlives op outcome hσ
    | waiting =>
      obtain ⟨connection, hslot⟩ := hσ
      have hguarded : Guarded owed ⟨connection, .reset, .watcher .nextReset op⟩ begun.enter :=
        ⟨hslot, nofun, Or.inl (Nat.succ_ne_zero _)⟩
      have htells := hbegun.enter.emit_watcher hlaw (hlaw.guards rfl hL) hguarded rfl
        (i := .reset info) rfl
      have hdecided : (ResetSign.told info :: log).foldl (ResetSign.step op) .waiting =
          .decided (.ok (.reset info)) := ResetSign.foldl_decided _ log
      rw [hdecided]
      exact hleft.outlives op _ htells
  · obtain rfl := hs.eq_uncalled hnew hσ
    exact hreports.stage op hnew .uncalled trivial

/-- A dispatch, before a teardown that was deferred to its end. -/
theorem dispatched_reports (hL : ∀ i, L.deed (.emit i) → i.event ≠ .reset)
    (hs : Sound L away owed s) (hp : s.Poised) (f : Frame) :
    ∃ log, Reports 0 s ((s.write (resetBook.before s (.deliver f))).dispatched app f) log := by
  cases htold : s.reset? f with
  | some info =>
    obtain ⟨log, hreports⟩ := dispatched_reset happ hlaw hL hs hp htold
    have hbefore : resetBook.before s (.deliver f) = [.told info] := by
      simp [resetBook, htold]
    rw [hbefore]
    exact ⟨_, hreports⟩
  | none =>
    have hbefore : resetBook.before s (.deliver f) = [] := by simp [resetBook, htold]
    rw [hbefore, write_nil]
    exact (steadfast_reports L 0).dispatched (heeds_reports happ hlaw 0) stable_poised hs
      (Or.inr nofun) (hs.event_ne_reset hp htold)

theorem tearDown_reports (hs : Sound L away owed s) (e : Failure) :
    ∃ log, Reports 0 s ((s.tearDown app e).write [s.tearing e]) log := by
  let cleared := { s with chain := [], tracked := [], outbound := [] }
  have hcleared : s.Drifts cleared := .of_eq rfl rfl rfl rfl rfl
  obtain ⟨log, hdrained⟩ := (steadfast_reports L 0).drain (heeds_reports happ hlaw 0) stable_poised
    s.chain hs.cleared (Or.inr nofun) e
  have haborted := abortTracked_reports (n := 0) (hs.cleared.drain hlaw.upholds s.chain e) e
  have hrestored (chain : List Handler) (t : Session (θ × List ResetSign)) :
      t.Drifts (t.restore chain) := .of_eq rfl rfl rfl rfl rfl
  exact ⟨_, hcleared.reports.trans (hdrained.trans (haborted.trans (hrestored _ _).reports))⟩

/-- What comes after a dispatch. -/
theorem settleDeferred_reports (hs : Sound L away owed s) :
    ∃ log, Reports 0 s ((s.settleDeferred app).write (s.due?.toList.map s.tearing)) log := by
  rw [settleDeferred_eq]
  cases s.due? with
  | none => exact ⟨[], by simpa using (Drifts.refl s).reports⟩
  | some e =>
    have hcleared : s.Drifts { s with deferred := none } := .of_eq rfl rfl rfl rfl rfl
    have hsound : Sound L away owed { s with deferred := none } :=
      Accounts.congr hs rfl rfl rfl rfl
    obtain ⟨log, hreports⟩ := tearDown_reports happ hlaw hsound e
    exact ⟨_, hcleared.reports.trans hreports⟩

end Callbacks

/-- A call for a reset. -/
theorem reset_reports (hs : Sound L away owed s) (soft : Bool) :
    Reports 0 s ((s.call (.reset soft)).2.write [.called s.operations.size])
      [.called s.operations.size] where
  pages := congrArg (· ++ _) (congrArg Prod.snd (Drifts.call (.reset soft) s).host)
  running := (Drifts.call (.reset soft) s).running
  size := (Drifts.call (.reset soft) s).size
  called op hop := by
    cases List.mem_singleton.1 hop
    exact Nat.le_refl _
  stage op _ σ hσ := by
    have hcall := Drifts.call (.reset soft) s
    by_cases hop : op = s.operations.size
    · subst hop
      obtain rfl := hs.eq_uncalled (Nat.le_refl _) hσ
      rw [List.foldl_cons, List.foldl_nil, ResetSign.step, if_pos rfl]
      exact ⟨s.freshConnection, mem_slots_subscribe s.issue.2 .reset _⟩
    · have hsame : [ResetSign.called s.operations.size].foldl (ResetSign.step op) σ = σ := by
        cases σ with
        | uncalled => exact if_neg (Ne.symm hop)
        | waiting | decided => rfl
      rw [hsame]
      have hstage := (hcall.reports (n := 0)).stage op (Nat.zero_le op) σ hσ
      cases σ <;> exact hstage

/-- A deed that is not about a reset, and calls nobody back. -/
theorem quiet_reports (hlaw : Lawful L app) {d : Deed (θ × List ResetSign)}
    (hquiet : d.quiet = true) (hdiscreet : d.Discreet) (hown : d.Own s) :
    Reports 0 s (d.perform app s) [] := by
  have hdrifts (hsubscribe : ∀ event callback, d ≠ .subscribe event callback)
      (hdisconnect : ∀ connection, d ≠ .disconnect connection)
      (hthink : ∀ change, d ≠ .think change) : s.Drifts (d.perform app s) :=
    .perform hquiet hsubscribe hdisconnect hthink app s
  have hbeside : (d.perform app s).pages = s.pages ∧ (d.perform app s).running = s.running := by
    cases d with
    | think change => exact ⟨hdiscreet s.host, rfl⟩
    | subscribe | disconnect => exact ⟨rfl, rfl⟩
    | deliver | shutdown | emit => cases hquiet
    | call | ask | advance | expire | send | next | takeAll | addHandler =>
      have hdrift := hdrifts nofun nofun nofun
      exact ⟨congrArg Prod.snd hdrift.host, hdrift.running⟩
  refine .of_stays hbeside.1 hbeside.2 (gains_perform hlaw.gains d s).size
    (fun op _ connection hslot => ?_)
    (narrow_outlives.perform hlaw.outlives d s)
  exact Deed.mem_slots_perform hquiet hown rfl hslot app

/-- What a deed, with its callbacks, makes of the calls for a reset. -/
theorem perform_reports (happ : app.Records L resetBook fun s _ t =>
      ∀ away owed, Sound L away owed s → s.Poised → ∃ log, Reports 0 s t log)
    (hlaw : Lawful L app) (hL : ∀ i, L.deed (.emit i) → i.event ≠ .reset)
    (hs : Sound L away owed s) (hp : s.Poised) {d : Deed (θ × List ResetSign)}
    (hd : L.Permits d) (hdiscreet : d.Discreet) (hown : d.Own s) :
    ∃ log, Reports 0 s (resetBook.perform app d s) log := by
  cases d with
  | deliver f =>
    let begun := s.write (resetBook.before s (.deliver f))
    have hbegun : Sound L away owed begun := Accounts.congr hs rfl rfl rfl rfl
    obtain ⟨log, hdispatched⟩ := dispatched_reports happ hlaw hL hs hp f
    obtain ⟨log', hsettled⟩ := settleDeferred_reports happ hlaw (hbegun.dispatched hlaw f)
    refine ⟨log ++ log', ?_⟩
    rw [Logbook.perform, Deed.perform, deliver_eq]
    exact hdispatched.trans hsettled
  | shutdown e =>
    by_cases hdepth : s.depth = 0
    · obtain ⟨log, hreports⟩ := tearDown_reports happ hlaw hs e
      refine ⟨log, ?_⟩
      simpa [Logbook.perform, resetBook, Deed.perform, Session.shutdown, hdepth] using hreports
    · have hdeferred : s.Drifts { s with deferred := s.deferred <|> some e } :=
        .of_eq rfl rfl rfl rfl rfl
      refine ⟨[], ?_⟩
      simpa [Logbook.perform, resetBook, Deed.perform, Session.shutdown, hdepth] using
        hdeferred.reports
  | emit i =>
    rw [Logbook.perform_eq rfl rfl]
    exact (heeds_reports happ hlaw 0).emit hs hp (hL i hd.1)
  | call c =>
    cases c with
    | reset soft =>
      rw [Logbook.perform, show resetBook.before s (.call (.reset soft)) = [] from rfl, write_nil]
      exact ⟨_, reset_reports hs soft⟩
    | request | reachState | waitFor =>
      rw [Logbook.perform_eq rfl rfl]
      exact ⟨[], quiet_reports hlaw rfl hdiscreet hown⟩
  | ask | advance | expire | send | next | takeAll | subscribe | disconnect | addHandler | think =>
    rw [Logbook.perform_eq rfl rfl]
    exact ⟨[], quiet_reports hlaw rfl hdiscreet hown⟩

/-- Who is called when a reset is told. -/
theorem dispatched_hears (hlaw : Lawful L app)
    (hfront : Event.all.map Event.listener <+: s.chain) {f : Frame} {info : ResetInfo}
    (hinfo : f.resetInfo? = some info) {before after : List Slot} {slot : Slot}
    {callback : CallbackId} (hsplit : s.audience .reset = before ++ slot :: after)
    (hsub : slot.subscriber = .application callback) (hrunning : s.running = []) :
    let t := before.foldl (Session.notify app (.reset info)) s.enter
    let called := app.hear callback slot.connection (.reset info)
      { t with running := [slot.connection] }
    let u := if slot ∈ t.slots then { called with running := [] } else t
    s.dispatched app f =
      ((after.foldl (Session.notify app (.reset info)) u).retain .reset).leave s.chain [] [] := by
  intro t called u
  obtain ⟨hkind, hcommand, hread⟩ := Frame.resetInfo?_eq_some_iff.1 hinfo
  obtain ⟨-, -, hdispatched⟩ := Session.deliver_listener hfront hkind hcommand hread app
  have hconnects : s.enter.Connects t :=
    List.foldlRecOn before _ (motive := fun u => s.enter.Connects u)
      (narrow_connects.stable.refl _) fun u hu x _ =>
        narrow_connects.trans hu (narrow_connects.stable.notify hlaw.connects _ u x)
  have hentered : s.enter.running = [] := hrunning
  have hidle : t.running = [] :=
    List.foldlRecOn before (Session.notify app (.reset info)) (motive := fun u => u.running = [])
      hentered fun u hu x _ => (notify_running app _ u x).trans hu
  have hslot : slot ∈ s.slots := (mem_audience.1 (hsplit ▸ List.mem_append_right before
    List.mem_cons_self : slot ∈ s.audience .reset)).1
  have hturn : t.notify app (.reset info) slot = u := by
    by_cases hmem : slot ∈ t.slots
    · have hconnected : t.isConnected slot.connection = true :=
        isConnected_iff.2 ⟨slot, hmem, rfl⟩
      simp [u, called, hmem, Session.notify, hconnected, hsub, hidle]
    · have hgone : t.isConnected slot.connection = false :=
        Bool.eq_false_iff.2 fun hconnected =>
          hmem (hconnects.stays hslot hconnected)
      simp [u, hmem, Session.notify, hgone]
  have hemitted : s.enter.emit app (.reset info) =
      (after.foldl (Session.notify app (.reset info)) u).retain .reset := by
    have haudience : s.enter.audience .reset = before ++ slot :: after := hsplit
    rw [emit_eq hlaw.connects, show (Indication.reset info).event = .reset from rfl, haudience,
      List.foldl_append, List.foldl_cons, ← hturn]
  rw [hdispatched, hemitted]

end Sound

/-! ## Every run -/

section Runs

variable {θ : Type} {s t : Session (θ × List ResetSign)} {ws : List Wait}
  {app : Application (θ × List ResetSign)}

theorem Writing.lawful_resetBook (happ : Writing (.reporting _ .reset) resetBook app) :
    Lawful (.reporting _ .reset) app :=
  happ.lawful Licence.open_reporting fun _ => trivial

theorem Written.reports (h : Written (.reporting _ .reset) resetBook s ws t)
    {away : List Handler} {owed : List Tracked} (hs : Sound (.reporting _ .reset) away owed s)
    (hp : s.Poised) : ∃ log, Session.Reports 0 s t log := by
  refine h.keeps (R := fun s _ t => ∀ away owed, Sound (.reporting _ .reset) away owed s →
    s.Poised → ∃ log, Session.Reports 0 s t log) ?_ ?_ ?_ away owed hs hp
  · exact fun s _ _ _ _ => ⟨[], (Session.Drifts.refl s).reports⟩
  · intro s t ws app d hrun hst happ hrecords hd hdiscreet hown away owed hs hp
    have huses := hrun.uses Licence.open_reporting fun _ => trivial
    have hsound := huses.keeps (Session.upholds_kept _) away owed hs
    have hpoised := hp.mono huses.retains huses.gains
    obtain ⟨log, hreports⟩ := hst away owed hs hp
    obtain ⟨log', hperformed⟩ := hsound.perform_reports hrecords happ.lawful_resetBook
      (fun _ h => h) hpoised hd hdiscreet hown
    exact ⟨_, hreports.trans hperformed⟩
  · intro s t ws p window _ hst _ away owed hs hp
    obtain ⟨log, hreports⟩ := hst away owed hs hp
    exact ⟨_, hreports.trans (Session.Drifts.issue t).reports⟩

theorem Writing.reports (happ : Writing (.reporting _ .reset) resetBook app) :
    app.Records (.reporting _ .reset) resetBook fun s _ t =>
      ∀ away owed, Sound (.reporting _ .reset) away owed s → s.Poised →
        ∃ log, Session.Reports 0 s t log :=
  happ.records fun h _ _ hs hp => h.reports hs hp

/-- What a session makes of the calls for a reset, with what the application wrote down. -/
structure Session.MindsResets (s : Session (θ × List ResetSign)) : Prop where
  /-- The first sign after a call that decides it is its outcome. -/
  outcome : ∀ op before after, s.pages = before ++ .called op :: after → .called op ∉ before →
    s.outcome? op = after.findSome? (ResetSign.decides? op)
  /-- A call sends the request. Its subscriber is attached and tracked at once. -/
  call : ∀ soft, ∃ t : Session (θ × List ResetSign),
    s.call (.reset soft) = (.ok s.operations.size, t) ∧
    t.slots = s.slots ++ [⟨s.freshConnection, .reset, .watcher .nextReset s.operations.size⟩] ∧
    ⟨s.freshConnection, s.operations.size⟩ ∈ t.tracked ∧
    t.outbound = s.outbound ++ [⟨.areq, ⟨.sys, 0x00⟩, Codec.flag.write soft⟩]
  /-- As long as a call is not decided its subscriber stays attached and tracked. -/
  waits : ∀ op, .called op ∈ s.pages → s.outcome? op = none → ∃ connection,
    ⟨connection, .reset, .watcher .nextReset op⟩ ∈ s.slots ∧ ⟨connection, op⟩ ∈ s.tracked
  /-- When it is decided, its subscriber is gone. -/
  gone : ∀ op outcome, s.outcome? op = some outcome →
    ∀ slot ∈ s.slots, slot.subscriber.operation? ≠ some op
  /-- The reset that a frame reports is told, if the frame is well-formed. -/
  heard : ∀ f, s.reset? f = f.resetInfo?
  /-- All that wait are told at once. -/
  told : ∀ {app}, Writing (.reporting _ .reset) resetBook app → ∀ f info,
    f.resetInfo? = some info → ∀ op, .called op ∈ s.pages → s.outcome? op = none →
    (resetBook.perform app (.deliver f) s).outcome? op = some (.ok (.reset info))
  /-- A teardown fails all that wait. -/
  torn : ∀ {app}, Writing (.reporting _ .reset) resetBook app → ∀ e op, .called op ∈ s.pages →
    s.outcome? op = none →
    (resetBook.perform app (.shutdown e) s).outcome? op = some (.error e)
  /-- Subscribers of the application have their turns among those that wait, and are called in
  it unless another one detached them before. -/
  hears : ∀ {app}, Writing (.reporting _ .reset) resetBook app → ∀ f info,
    f.resetInfo? = some info → ∀ before slot after callback,
    s.audience .reset = before ++ slot :: after → slot.subscriber = .application callback →
      let begun := s.write [.told info]
      let t := before.foldl (Session.notify app (.reset info)) begun.enter
      let called := app.hear callback slot.connection (.reset info)
        { t with running := [slot.connection] }
      let u := if slot ∈ t.slots then { called with running := [] } else t
      begun.dispatched app f =
        ((after.foldl (Session.notify app (.reset info)) u).retain .reset).leave s.chain [] []
  /-- Whatever is tracked next, calls that are decided leave the list. -/
  tracked : ∀ x, ∀ y ∈ (s.track x).tracked, y = x ∨ s.outcome? y.operation = none

section Started

variable {config : SessionConfig} {host : θ}
  (h : Written (.reporting _ .reset) resetBook (.start config (host, [])) [] s)
include h

theorem Written.reset_uses : Uses (.reporting _ .reset) (.start config (host, [])) [] s :=
  h.uses Licence.open_reporting fun _ => trivial

theorem Written.reset_sound : Sound (.reporting _ .reset) [] [] s :=
  h.reset_uses.keeps (Session.upholds_kept _) [] [] (Sound.start _ config _)

theorem Written.reset_poised : s.Poised :=
  have hfront : Session.Poised (Session.start config (host, ([] : List ResetSign))) :=
    Or.inl List.prefix_rfl
  hfront.mono h.reset_uses.retains h.reset_uses.gains

/-- An operation is at the stage that the log leads to from its call. -/
theorem Written.reset_stage {op : OperationId} {before after : List ResetSign}
    (hpages : s.pages = before ++ .called op :: after) (hbefore : .called op ∉ before) :
    (after.foldl (ResetSign.step op) .waiting).Holds op s := by
  obtain ⟨log, hreports⟩ := h.reports (Sound.start _ config _) (Or.inl List.prefix_rfl)
  have hlog : s.pages = log := hreports.pages
  have hholds := hreports.stage op (Nat.zero_le op) .uncalled trivial
  rwa [← hlog, hpages, List.foldl_append, ResetSign.foldl_uncalled hbefore, List.foldl_cons,
    ResetSign.step, if_pos rfl] at hholds

/-- The first sign after a call that decides it is its outcome. -/
theorem Written.reset_outcome {op : OperationId} {before after : List ResetSign}
    (hpages : s.pages = before ++ .called op :: after) (hbefore : .called op ∉ before) :
    s.outcome? op = after.findSome? (ResetSign.decides? op) := by
  have hholds := h.reset_stage hpages hbefore
  rw [ResetSign.foldl_waiting] at hholds
  cases hdecides : after.findSome? (ResetSign.decides? op) with
  | none =>
    rw [hdecides] at hholds
    obtain ⟨connection, hslot⟩ := hholds
    exact Session.outcome?_of_pending (Accounts.pending_of_slot h.reset_sound hslot rfl)
  | some outcome =>
    rw [hdecides] at hholds
    exact hholds

/-- As long as a call is not decided its subscriber stays attached. -/
theorem Written.reset_waits {op : OperationId} (hcalled : .called op ∈ s.pages)
    (hnone : s.outcome? op = none) :
    ∃ connection, ⟨connection, .reset, .watcher .nextReset op⟩ ∈ s.slots := by
  obtain ⟨before, after, hpages, hbefore⟩ := List.eq_append_cons_of_mem hcalled
  have hholds := h.reset_stage hpages hbefore
  rw [ResetSign.foldl_waiting, ← h.reset_outcome hpages hbefore, hnone] at hholds
  exact hholds

variable (happ : Writing (.reporting _ .reset) resetBook app)
include happ

/-- Whoever waits is told of the reset that a frame reports. -/
theorem Written.reset_told {f : Frame} {info : ResetInfo} (hreset : s.reset? f = some info)
    {op : OperationId} (hcalled : .called op ∈ s.pages) (hnone : s.outcome? op = none) :
    (resetBook.perform app (.deliver f) s).outcome? op = some (.ok (.reset info)) := by
  have hlaw := happ.lawful_resetBook
  obtain ⟨log, hdispatched⟩ :=
    h.reset_sound.dispatched_reset happ.reports hlaw (fun _ h => h) h.reset_poised hreset
  have hbegun : Sound (.reporting _ .reset) [] [] (s.write [.told info]) :=
    Accounts.congr h.reset_sound rfl rfl rfl rfl
  obtain ⟨log', hsettled⟩ :=
    (hbegun.dispatched hlaw f).settleDeferred_reports happ.reports hlaw
  have hholds := (hdispatched.trans hsettled).stage op (Nat.zero_le op) .waiting
    (h.reset_waits hcalled hnone)
  have hdecided : (.told info :: log ++ log').foldl (ResetSign.step op) .waiting =
      .decided (.ok (.reset info)) := ResetSign.foldl_decided _ (log ++ log')
  rw [hdecided, ← Session.deliver_eq] at hholds
  have hbefore : resetBook.before s (.deliver f) = [.told info] := by simp [resetBook, hreset]
  rw [Logbook.perform, hbefore]
  exact hholds

/-- Whoever waits fails with a teardown. -/
theorem Written.reset_torn {op : OperationId} (hcalled : .called op ∈ s.pages)
    (hnone : s.outcome? op = none) (e : Failure) :
    (resetBook.perform app (.shutdown e) s).outcome? op = some (.error e) := by
  obtain ⟨connection, hslot⟩ := h.reset_waits hcalled hnone
  have hlaw := happ.lawful_resetBook
  have hfails := h.reset_sound.tearDown_fails_watcher hlaw (hlaw.guards rfl fun _ h => h) hslot rfl
    (h.reset_sound.watchers.listed _ hslot op rfl) e
  have hshutdown : s.shutdown app e = s.tearDown app e := if_pos h.reset_uses.calm.1
  rw [Logbook.perform, show resetBook.before s (.shutdown e) = [] from rfl, Session.write_nil,
    Deed.perform, hshutdown]
  exact hfails

end Started

/-- A call for a reset is decided by the first reset that is reported after it, or by the first
teardown that finds it, in every run of an application that emits no reset by hand. A report is
written down before those who are called in its emission do anything, so what they call for waits
for the next one. -/
theorem Written.resets_decided_first {config : SessionConfig} {host : θ}
    {s : Session (θ × List ResetSign)}
    (h : Written (.reporting _ .reset) resetBook (.start config (host, [])) [] s) :
    s.MindsResets := by
  have hsound := h.reset_sound
  have hlistening := h.reset_uses.retains _ listening_all List.prefix_rfl
  have hheard (f : Frame) : s.reset? f = f.resetInfo? :=
    if_pos (hlistening.mem (List.mem_map_of_mem (by decide)))
  refine {
    outcome := fun _ _ _ hpages hbefore => h.reset_outcome hpages hbefore
    call := fun soft => ⟨_, rfl, Session.slots_subscribe s.issue.2 .reset _,
      List.mem_append_right _ List.mem_cons_self, rfl⟩
    waits := fun op hcalled hnone => ?_
    gone := fun op outcome hop slot hslot hsub => ?_
    heard := hheard
    told := fun {app} happ f info hinfo op hcalled hnone =>
      h.reset_told happ ((hheard f).trans hinfo) hcalled hnone
    torn := fun {app} happ e op hcalled hnone => h.reset_torn happ hcalled hnone e
    hears := fun {app} happ f info hinfo before slot after callback hsplit hsub => ?_
    tracked := fun x y hy => ?_ }
  · obtain ⟨connection, hslot⟩ := h.reset_waits hcalled hnone
    exact ⟨connection, hslot, hsound.watchers.listed _ hslot op rfl⟩
  · have hpending := Accounts.pending_of_slot hsound hslot hsub
    rw [(Session.isSome_outcome?_iff.1 (Option.isSome_of_eq_some hop)).2] at hpending
    cases hpending
  · obtain ⟨log, hreports⟩ := h.reports (Sound.start _ config _) (Or.inl List.prefix_rfl)
    exact Sound.dispatched_hears (s := s.write [.told info]) happ.lawful_resetBook hlistening hinfo
      hsplit hsub hreports.running
  · rcases List.mem_append.1 hy with hy | hy
    · have hstays := (List.mem_filter.1 hy).2
      refine Or.inr ?_
      simp only [Session.isDone, Bool.not_or, Bool.and_eq_true, Bool.not_eq_true',
        Option.isSome_eq_false_iff, Option.isNone_iff_eq_none] at hstays
      exact hstays.1
    · exact Or.inl (List.mem_singleton.1 hy)

end Runs

/-! ## Calls that are made meanwhile -/

/-- The co-processor reports a reset. -/
def resetReport (payload : Bytes) : Frame := ⟨.areq, Event.reset.command, payload⟩

/-- When its subscriber hears of a reset the application resets the device once more. -/
def Application.insisting : Application (Unit × List ResetSign) :=
  resetBook.acting resetBook.silent fun _ _ => [.call (.reset true)]

theorem Writing.insisting : Writing (.reporting _ .reset) resetBook .insisting := by
  refine .acting (.silent fun _ => trivial) fun _ _ d hd => ?_
  rw [List.mem_singleton.1 hd]
  exact ⟨⟨trivial, trivial⟩, trivial⟩

/-- A session with a subscriber of the application, in which two calls are made. A report that is
cut short says nothing, the next one is heard, and then the session is torn down. -/
def Session.insisted : Session (Unit × List ResetSign) :=
  [.subscribe .reset 0, .call (.reset true), .call (.reset false), .deliver (resetReport [2]),
      .deliver (resetReport [0, 2, 1, 2, 7, 1]), .shutdown .timeout].foldl
    (fun s d => resetBook.perform .insisting d s) (.start {} ((), []))

theorem Written.insisted :
    Written (.reporting _ .reset) resetBook (.start {} ((), [])) [] .insisted := by
  refine (Written.refl _).deeds .insisting fun d hd => ?_
  fin_cases hd <;> exact ⟨⟨trivial, trivial⟩, trivial, fun _ => trivial⟩

/-- The report is for both calls that were made before it. The one that the subscriber made waits
until the teardown. -/
theorem insisted_decided :
    Session.insisted.outcome? 0 = some (.ok (.reset ⟨.powerUp, 2, 1, 2, 7, 1⟩)) ∧
    Session.insisted.outcome? 1 = some (.ok (.reset ⟨.powerUp, 2, 1, 2, 7, 1⟩)) ∧
    Session.insisted.outcome? 2 = some (.error .timeout) ∧
    ∀ slot ∈ Session.insisted.slots, slot.subscriber.operation? ≠ some 2 := by
  have hminds := Written.insisted.resets_decided_first
  have htorn := hminds.outcome 2 [.called 0, .called 1, .told ⟨.powerUp, 2, 1, 2, 7, 1⟩]
    [.torn .timeout [0, 1, 2]] rfl (by simp)
  refine ⟨hminds.outcome 0 [] _ rfl (by simp), hminds.outcome 1 [.called 0] _ rfl (by simp), htorn,
    hminds.gone 2 _ htorn⟩

/-- An application whose subscribers ask for a teardown when they hear of a reset. -/
def Application.quitting : Application (Unit × List ResetSign) :=
  resetBook.acting resetBook.silent fun _ _ => [.shutdown .timeout]

theorem Writing.quitting : Writing (.free _) resetBook .quitting := by
  refine .acting (.silent fun _ => trivial) fun _ _ d hd => ?_
  rw [List.mem_singleton.1 hd]
  exact ⟨⟨trivial, trivial⟩, trivial⟩

/-- A session with a subscriber of the application, in which a call is made. -/
def Session.resetting : Session (Unit × List ResetSign) :=
  [.subscribe .reset 0, .call (.reset true)].foldl
    (fun s d => resetBook.perform .quitting d s) (.start {} ((), []))

theorem Written.resetting :
    Written (.free _) resetBook (.start {} ((), [])) [] .resetting := by
  refine (Written.refl _).deeds .quitting fun d hd => ?_
  fin_cases hd <;> exact ⟨⟨trivial, trivial⟩, trivial, fun _ => trivial⟩

/-- A reset that the application emits by hand decides a call before the first frame that reports
one, and a teardown that a subscriber asks for in the dispatch of a report does not come before
the report. -/
theorem resetting_overtaken :
    Written (.free _) resetBook (.start {} ((), [])) [] .resetting ∧
    Writing (.free _) resetBook .quitting ∧
    Session.resetting.pages = [.called 0] ∧ Session.resetting.pending 0 = true ∧
    (let s := resetBook.perform resetBook.silent (.emit (.reset ⟨.watchdog, 1, 2, 3, 4, 5⟩))
      .resetting
     let t := resetBook.perform resetBook.silent
      (.deliver (resetReport [0, 2, 1, 2, 7, 1])) s
     t.pages = [.called 0, .told ⟨.powerUp, 2, 1, 2, 7, 1⟩] ∧
      t.outcome? 0 = some (.ok (.reset ⟨.watchdog, 1, 2, 3, 4, 5⟩))) ∧
    (let s := Application.quitting.hear 0 0 (.reset ⟨.powerUp, 2, 1, 2, 7, 1⟩)
      Session.resetting.enter
     s.deferred = some .timeout ∧ s.pending 0 = true) ∧
    (Session.resetting.deliver .quitting (resetReport [0, 2, 1, 2, 7, 1])).outcome? 0 =
      some (.ok (.reset ⟨.powerUp, 2, 1, 2, 7, 1⟩)) :=
  ⟨.resetting, .quitting, rfl, rfl, ⟨rfl, rfl⟩, ⟨rfl, rfl⟩, rfl⟩

end ZigbeeHost
