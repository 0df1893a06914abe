import ZigbeeHost.Proofs.Session.Completion
import ZigbeeHost.Proofs.Session.Drift
import ZigbeeHost.Proofs.Session.Logbook
/-!
# Emissions and those who attend them

An application that writes down whom it attaches and detaches, who is called, and when it emits
something by hand, can tell from its log alone what emissions do. `Attendance` are the rules : the
log replays the roll of its subscribers, and an emission is a `RollCall` of those who were on the
roll for the event when it started. Each of them has one turn, in the order of subscription. It is
called if it is still on the roll then and is not being called already, and otherwise it is
passed over. What it does when it is called, emissions included, is an `Attendance` again, so the
rules hold at any depth.

Whoever is detached stays on the list that the session stores, until an emission of its event is
over: then the list holds those of the roll and no others, however deep in other emissions it was.

Every run keeps to these rules (`Written.emissions_call_the_roll`), whatever callbacks do with the
session: `Session.Tallies` says what a part of a run adds to the log, and each turn of a
subscriber, of a handler and of a teardown is such a part.
-/

namespace ZigbeeHost

variable {θ : Type}

/-- Something that concerns the subscribers of the application. -/
inductive RollEntry where
  | attached (slot : Slot)
  | detached (connection : Connection)
  /-- A subscriber is being called. -/
  | called (connection : Connection) (i : Indication)
  /-- An emission by hand begins. -/
  | emitting (i : Indication)
  /-- It is over, and those are stored for its event then. -/
  | emitted (stored : List Slot)

namespace RollEntry

/-- What an entry makes of the roll. -/
def enter (roll : List Slot) : RollEntry → List Slot
  | attached slot => roll ++ [slot]
  | detached connection => roll.filter (·.connection != connection)
  | _ => roll

/-- The subscriber that an entry attaches. -/
def attached? : RollEntry → Option Slot
  | attached slot => some slot
  | _ => none

/-- Whoever is called is on the roll. -/
def Fits (roll : List Slot) : RollEntry → Prop
  | called connection _ => ∃ slot ∈ roll, slot.connection = connection
  | _ => True

/-- Each entry fits the roll of its moment. -/
def Consistent : List Slot → List RollEntry → Prop
  | _, [] => True
  | roll, e :: log => e.Fits roll ∧ Consistent (e.enter roll) log

theorem consistent_append {roll : List Slot} {log log' : List RollEntry} :
    Consistent roll (log ++ log') ↔
      Consistent roll log ∧ Consistent (log.foldl enter roll) log' := by
  induction log generalizing roll with
  | nil => simp [Consistent]
  | cons e log ih => simp [Consistent, ih, and_assoc]

/-- Whoever is not on the roll, and is not attached, is not called. -/
theorem Consistent.not_called {roll : List Slot} {log : List RollEntry} (h : Consistent roll log)
    {connection : Connection} (hroll : ∀ slot ∈ roll, slot.connection ≠ connection)
    (hnew : ∀ slot, .attached slot ∈ log → slot.connection ≠ connection) (i : Indication) :
    .called connection i ∉ log := by
  induction log generalizing roll with
  | nil => exact List.not_mem_nil
  | cons e log ih =>
    rintro (_ | ⟨_, hmem⟩)
    · obtain ⟨slot, hslot, hsame⟩ := h.1
      exact hroll slot hslot hsame
    · refine ih h.2 (fun slot hslot => ?_) (fun slot hslot => hnew slot (.tail _ hslot)) hmem
      cases e with
      | attached x =>
        rcases List.mem_append.1 hslot with hslot | hslot
        · exact hroll slot hslot
        · exact List.mem_singleton.1 hslot ▸ hnew x (.head _)
      | detached c => exact hroll slot (List.mem_filter.1 hslot).1
      | called | emitting | emitted => exact hroll slot hslot

end RollEntry

/-! ## The rules -/

mutual

/-- While subscribers are being called, `running`, the log leads from one roll to another. -/
inductive Attendance : List Connection → List Slot → List RollEntry → List Slot → Prop
  | nil {running : List Connection} {roll : List Slot} : Attendance running roll [] roll
  | attached {running : List Connection} {roll after : List Slot} {log : List RollEntry}
      (slot : Slot) :
      Attendance running (roll ++ [slot]) log after →
      Attendance running roll (.attached slot :: log) after
  | detached {running : List Connection} {roll after : List Slot} {log : List RollEntry}
      (connection : Connection) :
      Attendance running (roll.filter (·.connection != connection)) log after →
      Attendance running roll (.detached connection :: log) after
  /-- An emission by hand. When it is over, nobody is stored for its event but those who are on
  the roll, and watchers. -/
  | emission {running : List Connection} {roll between after stored : List Slot}
      {turns log : List RollEntry} (i : Indication) :
      RollCall i running (roll.filter (·.event = i.event)) roll turns between →
      stored.filter (·.subscriber.operation?.isNone) = between.filter (·.event = i.event) →
      Attendance running between log after →
      Attendance running roll (.emitting i :: (turns ++ .emitted stored :: log)) after
  /-- An emission by the handler of the event, when a frame is delivered. -/
  | indication {running : List Connection} {roll between after : List Slot}
      {turns log : List RollEntry} (i : Indication) :
      RollCall i running (roll.filter (·.event = i.event)) roll turns between →
      Attendance running between log after →
      Attendance running roll (turns ++ log) after

/-- The turns in an emission of those who are to be offered the indication. -/
inductive RollCall :
    Indication → List Connection → List Slot → List Slot → List RollEntry → List Slot → Prop
  | done {i : Indication} {running : List Connection} {roll : List Slot} :
      RollCall i running [] roll [] roll
  | passed {i : Indication} {running : List Connection} {slot : Slot}
      {behind roll after : List Slot} {log : List RollEntry} :
      slot ∉ roll ∨ slot.connection ∈ running →
      RollCall i running behind roll log after →
      RollCall i running (slot :: behind) roll log after
  | called {i : Indication} {running : List Connection} {slot : Slot}
      {behind roll between after : List Slot} {log rest : List RollEntry} :
      slot ∈ roll → slot.connection ∉ running →
      Attendance (slot.connection :: running) roll log between →
      RollCall i running behind between rest after →
      RollCall i running (slot :: behind) roll
        (.called slot.connection i :: (log ++ rest)) after

end

theorem Attendance.trans {running : List Connection} {roll between after : List Slot}
    {log log' : List RollEntry} :
    Attendance running roll log between → Attendance running between log' after →
      Attendance running roll (log ++ log') after
  | .nil, h' => h'
  | .attached slot h, h' => .attached slot (h.trans h')
  | .detached connection h, h' => .detached connection (h.trans h')
  | .emission i turns hstored h, h' => by
    simpa using Attendance.emission i turns hstored (h.trans h')
  | .indication i turns h, h' => by simpa using Attendance.indication i turns (h.trans h')

mutual

/-- The roll is what the log makes of it. -/
theorem Attendance.after_eq {running : List Connection} {roll after : List Slot}
    {log : List RollEntry} :
    Attendance running roll log after → after = log.foldl RollEntry.enter roll
  | .nil => rfl
  | .attached _ h => h.after_eq
  | .detached _ h => h.after_eq
  | .emission _ turns _ h => by
    rw [h.after_eq, turns.after_eq]
    simp [RollEntry.enter]
  | .indication _ turns h => by
    rw [h.after_eq, turns.after_eq, List.foldl_append]

theorem RollCall.after_eq {i : Indication} {running : List Connection}
    {audience roll after : List Slot} {log : List RollEntry} :
    RollCall i running audience roll log after → after = log.foldl RollEntry.enter roll
  | .done => rfl
  | .passed _ h => h.after_eq
  | .called _ _ h h' => by
    rw [h'.after_eq, h.after_eq]
    simp [RollEntry.enter]

end

mutual

theorem Attendance.consistent {running : List Connection} {roll after : List Slot}
    {log : List RollEntry} :
    Attendance running roll log after → RollEntry.Consistent roll log
  | .nil => trivial
  | .attached _ h => ⟨trivial, h.consistent⟩
  | .detached _ h => ⟨trivial, h.consistent⟩
  | .emission _ turns _ h => by
    have hrest := turns.after_eq ▸ h.consistent
    exact ⟨trivial, RollEntry.consistent_append.2 ⟨turns.consistent, trivial, hrest⟩⟩
  | .indication _ turns h => by
    have hrest := turns.after_eq ▸ h.consistent
    exact RollEntry.consistent_append.2 ⟨turns.consistent, hrest⟩

theorem RollCall.consistent {i : Indication} {running : List Connection}
    {audience roll after : List Slot} {log : List RollEntry} :
    RollCall i running audience roll log after → RollEntry.Consistent roll log
  | .done => trivial
  | .passed _ h => h.consistent
  | .called hslot _ h h' => by
    have hrest := h.after_eq ▸ h'.consistent
    exact ⟨⟨_, hslot, rfl⟩, RollEntry.consistent_append.2 ⟨h.consistent, hrest⟩⟩

end

/-! ## The log of a session -/

/-- An application writes down what concerns its subscribers. -/
def rollbook : Logbook θ RollEntry where
  before
    | s, .subscribe event callback => [.attached ⟨s.freshConnection, event, .application callback⟩]
    | _, .disconnect connection => [.detached connection]
    | _, .emit i => [.emitting i]
    | _, _ => []
  after
    | app, s, .emit i => [.emitted ((s.emit app i).stored i.event)]
    | _, _, _ => []
  called connection i := [.called connection i]

namespace Session

/-- The subscribers of the application that are attached. -/
def roll {η : Type} (s : Session η) : List Slot :=
  s.slots.filter (·.subscriber.operation?.isNone)

theorem mem_roll {η : Type} {s : Session η} {slot : Slot} :
    slot ∈ s.roll ↔ slot ∈ s.slots ∧ slot.subscriber.operation? = none := by
  simp [roll]

/-- Who is on the roll, and is offered an indication. -/
theorem filter_audience {η : Type} (s : Session η) (i : Indication) :
    (s.audience i.event).filter (·.subscriber.operation?.isNone) =
      s.roll.filter (·.event = i.event) := by
  simp only [audience, roll, List.filter_filter, Bool.and_comm]

/-- What a part of a run that leads from `s` to `t` adds to the log, but for the rules. -/
structure Tallies (s t : Session (θ × List RollEntry)) (log : List RollEntry) : Prop where
  pages : t.pages = s.pages ++ log
  running : t.running = s.running
  fresh : s.freshConnection ≤ t.freshConnection
  attached : ∀ slot ∈ log.filterMap RollEntry.attached?,
    s.freshConnection ≤ slot.connection ∧ slot.connection < t.freshConnection
  increasing : (log.filterMap RollEntry.attached?).Pairwise (·.connection < ·.connection)
  /-- A watcher is attached as long as its operation is not decided. -/
  watchers : ∀ slot ∈ s.slots, ∀ op, slot.subscriber.operation? = some op →
    slot ∈ t.slots ∨ (t.outcome? op).isSome = true
  outlives : s.Outlives t

theorem tallies_write (s : Session (θ × List RollEntry)) {e : RollEntry}
    (he : e.attached? = none) : Tallies s (s.write [e]) [e] where
  pages := rfl
  running := rfl
  fresh := Nat.le_refl _
  attached _ hslot := by simp [he] at hslot
  increasing := by simp [he]
  watchers _ hslot _ _ := Or.inl hslot
  outlives := narrow_outlives.other rfl rfl rfl

/-- What is added to the log is an attendance. -/
def Attends (s t : Session (θ × List RollEntry)) : Prop :=
  ∃ log, Tallies s t log ∧ Attendance s.running s.roll log t.roll

variable {s t u : Session (θ × List RollEntry)} {log log' : List RollEntry}

theorem Tallies.trans (h : Tallies s t log) (h' : Tallies t u log') :
    Tallies s u (log ++ log') where
  pages := by rw [h'.pages, h.pages, List.append_assoc]
  running := h'.running.trans h.running
  fresh := Nat.le_trans h.fresh h'.fresh
  attached slot hslot := by
    rw [List.filterMap_append] at hslot
    rcases List.mem_append.1 hslot with hslot | hslot
    · exact ⟨(h.attached slot hslot).1, Nat.lt_of_lt_of_le (h.attached slot hslot).2 h'.fresh⟩
    · exact ⟨Nat.le_trans h.fresh (h'.attached slot hslot).1, (h'.attached slot hslot).2⟩
  increasing := by
    rw [List.filterMap_append]
    refine List.pairwise_append.2 ⟨h.increasing, h'.increasing, fun x hx y hy => ?_⟩
    exact Nat.lt_of_lt_of_le (h.attached x hx).2 (h'.attached y hy).1
  watchers slot hslot op hop := by
    rcases h.watchers slot hslot op hop with hstays | hdecided
    · exact h'.watchers slot hstays op hop
    · exact Or.inr (h'.outlives.isSome hdecided)
  outlives := narrow_outlives.trans h.outlives h'.outlives

theorem Attends.trans (h : Attends s t) (h' : Attends t u) : Attends s u := by
  obtain ⟨log, htallies, hattends⟩ := h
  obtain ⟨log', htallies', hattends'⟩ := h'
  rw [htallies.running] at hattends'
  exact ⟨log ++ log', htallies.trans htallies', hattends.trans hattends'⟩

/-- Between callbacks nothing is written, and the roll stays. -/
theorem Drifts.tallies (h : s.Drifts t) : Tallies s t [] ∧ t.roll = s.roll := by
  obtain ⟨watchers, hslots, hwatch⟩ := h.slots
  refine ⟨⟨?_, h.running, h.fresh, nofun, List.Pairwise.nil, fun slot hslot _ _ => ?_, h.outlives⟩,
    ?_⟩
  · rw [pages, h.host, List.append_nil, pages]
  · exact Or.inl (h.slots_subset hslot)
  · have hnone : watchers.filter (·.subscriber.operation?.isNone) = [] :=
      List.filter_eq_nil_iff.2 fun slot hslot hisNone =>
        hwatch slot hslot (Option.isNone_iff_eq_none.1 hisNone)
    rw [roll, hslots, List.filter_append, hnone, List.append_nil, roll]

theorem Drifts.attends (h : s.Drifts t) : Attends s t := by
  obtain ⟨htallies, hroll⟩ := h.tallies
  exact ⟨[], htallies, hroll ▸ .nil⟩

theorem steadfast_attends (L : Licence (θ × List RollEntry)) :
    Steadfast L (Attends (θ := θ)) where
  trans := .trans
  drift _ h := h.attends

end Session

/-! ## Parts of a run -/

namespace Sound

open Session

variable {L : Licence (θ × List RollEntry)} {away : List Handler} {owed : List Tracked}
  {s t : Session (θ × List RollEntry)} {app : Application (θ × List RollEntry)} {i : Indication}

/-- When a watcher decides its operation, the roll stays. -/
theorem fire_tallies (hs : Sound L away owed s) {slot : Slot} (hslot : slot ∈ s.slots)
    {op : OperationId} (hop : slot.subscriber.operation? = some op)
    (outcome : Except Failure Outcome) :
    let t := (s.disconnect slot.connection).complete op outcome
    s.Tallies t [] ∧ t.roll = s.roll := by
  have hsame {x : Slot} (hx : x ∈ s.slots) (hc : x.connection = slot.connection) : x = slot :=
    eq_of_connection hx hslot hc
  have hpending : s.pending op = true := Accounts.pending_of_slot hs hslot hop
  refine ⟨⟨?_, ?_, ?_, nofun, List.Pairwise.nil, fun x hx op' hop' => ?_, ?_⟩, ?_⟩
  · rw [List.append_nil]
    exact congrArg Prod.snd (complete_host ..)
  · rw [complete_eq]
    rfl
  · rw [complete_freshConnection, freshConnection_disconnect]
  · by_cases hc : x.connection = slot.connection
    · obtain rfl := hsame hx hc
      obtain rfl := Option.some.inj (hop.symm.trans hop')
      have houtcome := (s.disconnect x.connection).outcome?_complete op outcome hpending
      exact Or.inr (Option.isSome_of_eq_some houtcome)
    · rw [complete_slots]
      exact Or.inl (mem_slots_disconnect.2 ⟨hx, hc⟩)
  · exact narrow_outlives.trans (narrow_outlives.disconnect s _) (outlives_complete _ op outcome)
  · rw [roll, complete_slots, slots_disconnect, List.filter_filter, roll]
    refine List.filter_congr fun x hx => ?_
    by_cases hc : x.connection = slot.connection
    · simp [hsame hx hc, hop]
    · simp [hc]

/-- As tracked operations are aborted, the roll stays. -/
theorem abortTracked_attends {ts : List Tracked} (hs : Sound L away (ts ++ owed) s)
    (e : Failure) : s.Attends (ts.foldl (Session.abortTracked e) s) := by
  let t := ts.foldl (Session.abortTracked e) s
  have hslots : t.slots = s.slots.filter fun slot => slot.connection ∉ ts.map Tracked.connection :=
    slots_abortTracked e ts s
  have hfails : Fails e s t := (Fails.abortTracked ts s).1
  have hhost : t.host = s.host :=
    List.foldlRecOn ts _ (motive := fun u : Session (θ × List RollEntry) => u.host = s.host) rfl
      fun u hu x _ => (complete_host (u.disconnect x.connection) x.operation _).trans hu
  have hwatcher {slot : Slot} (hslot : slot ∈ s.slots)
      (hc : slot.connection ∈ ts.map Tracked.connection) :
      ∃ x ∈ ts, slot.subscriber.operation? = some x.operation := by
    obtain ⟨x, hx, hsame⟩ := List.mem_map.1 hc
    have hmem := List.mem_append_left s.tracked (List.mem_append_left owed hx)
    exact ⟨x, hx, hs.watchers.watcher x hmem slot hslot hsame.symm⟩
  have hroll : t.roll = s.roll := by
    rw [roll, hslots, List.filter_filter, roll]
    refine List.filter_congr fun slot hslot => ?_
    by_cases hc : slot.connection ∈ ts.map Tracked.connection
    · obtain ⟨x, -, hop⟩ := hwatcher hslot hc
      simp [hop]
    · simp [hc]
  refine ⟨[], ⟨?_, ?_, ?_, nofun, List.Pairwise.nil, fun slot hslot op hop => ?_, ?_⟩,
    hroll ▸ .nil⟩
  · rw [pages, hhost, List.append_nil, pages]
  · exact (congrArg Session.running hfails.other :)
  · have hfresh : t.freshConnection = s.freshConnection :=
      (congrArg Roster.fresh (Fails.abortTracked ts s).2).trans (Roster.fresh_lowerEach ..)
    exact Nat.le_of_eq hfresh.symm
  · by_cases hc : slot.connection ∈ ts.map Tracked.connection
    · obtain ⟨x, hx, hop'⟩ := hwatcher hslot hc
      obtain rfl := Option.some.inj (hop.symm.trans hop')
      have hmem := List.mem_append_left s.tracked (List.mem_append_left owed hx)
      exact Or.inr (abortTracked_decides e ts s hx (hs.watchers.issued x hmem))
    · rw [hslots]
      exact Or.inl (List.mem_filter.2 ⟨hslot, decide_eq_true hc⟩)
  · exact narrow_outlives.stable.abortTracked e ts s

section Callbacks

variable (happ : app.Records L rollbook fun s _ t => ∀ away owed, Sound L away owed s → s.Attends t)

include happ in
/-- A subscriber that is called. -/
theorem hear_tallies (hs : Sound L away owed s) (connection : Connection) (callback : CallbackId)
    (i : Indication) :
    let t := { app.hear callback connection i
      { s with running := connection :: s.running } with running := s.running }
    ∃ log, s.Tallies t (.called connection i :: log) ∧
      Attendance (connection :: s.running) s.roll log t.roll := by
  let calling := { s with running := connection :: s.running }
  have hcalling : Sound L away owed (calling.write [.called connection i]) :=
    Accounts.congr hs rfl rfl rfl rfl
  obtain ⟨log, htallies, hattends⟩ := happ.hear callback connection i calling away owed hcalling
  refine ⟨log, ⟨?_, rfl, htallies.fresh, htallies.attached, htallies.increasing,
    htallies.watchers, htallies.outlives⟩, hattends⟩
  have hpages := htallies.pages
  rw [pages_write, List.append_assoc] at hpages
  exact hpages

variable (hlaw : Lawful L app)
include happ hlaw

/-- The turns of subscribers that were attached when the emission started, in `s`. -/
theorem turns_tally (others : List Slot)
    (hothers : ∀ slot ∈ others, slot ∈ s.slots) (hst : s.Connects t) (ht : Sound L away owed t) :
    ∃ log, t.Tallies (others.foldl (Session.notify app i) t) log ∧
      RollCall i t.running (others.filter (·.subscriber.operation?.isNone)) t.roll log
        (others.foldl (Session.notify app i) t).roll := by
  induction others generalizing t with
  | nil => exact ⟨[], (Drifts.refl t).tallies.1, .done⟩
  | cons slot behind ih =>
    have hslot := hothers slot List.mem_cons_self
    have hturn := narrow_connects.stable.notify hlaw.connects i t slot
    obtain ⟨log, htallies, hcalls⟩ :=
      ih (fun x hx => hothers x (List.mem_cons_of_mem _ hx)) (narrow_connects.trans hst hturn)
        (ht.notify hlaw.upholds i hst hslot)
    rw [List.foldl_cons]
    rcases Session.notify_turn app i t slot with
      ⟨heq, hwhy⟩ | ⟨watch, op, outcome, hconnected, hsub, -, heq⟩ |
        ⟨callback, hconnected, hrunning, hsub, heq⟩
    · rw [heq] at htallies hcalls ⊢
      refine ⟨log, htallies, ?_⟩
      cases hop : slot.subscriber.operation? with
      | some op => rwa [List.filter_cons_of_neg (by simp [hop])]
      | none =>
        rw [List.filter_cons_of_pos (by simp [hop])]
        refine .passed ?_ hcalls
        rcases hwhy with hgone | hrunning | hwatcher
        · refine Or.inl fun hmem => Bool.false_ne_true ?_
          rw [← hgone, isConnected_iff]
          exact ⟨slot, (mem_roll.1 hmem).1, rfl⟩
        · exact Or.inr hrunning
        · exact absurd hop hwatcher
    · have hop : slot.subscriber.operation? = some op := by rw [hsub]; rfl
      have hmem := hst.stays hslot hconnected
      obtain ⟨hfired, hroll⟩ := fire_tallies ht hmem hop outcome
      rw [← heq] at hfired hroll
      rw [hfired.running, hroll] at hcalls
      refine ⟨log, hfired.trans htallies, ?_⟩
      rwa [List.filter_cons_of_neg (by simp [hop])]
    · have hop : slot.subscriber.operation? = none := by rw [hsub]; rfl
      have hmem := hst.stays hslot hconnected
      obtain ⟨nested, hheard, hattends⟩ := hear_tallies happ ht slot.connection callback i
      rw [← heq] at hheard hattends
      rw [hheard.running] at hcalls
      refine ⟨.called slot.connection i :: (nested ++ log), hheard.trans htallies, ?_⟩
      rw [List.filter_cons_of_pos (by simp [hop])]
      exact .called (mem_roll.2 ⟨hmem, hop⟩) hrunning hattends hcalls

/-- An emission calls the roll. -/
theorem emit_tallies (hs : Sound L away owed s) (i : Indication) :
    ∃ log, s.Tallies (s.emit app i) log ∧
      RollCall i s.running (s.roll.filter (·.event = i.event)) s.roll log (s.emit app i).roll := by
  obtain ⟨log, htallies, hcalls⟩ := turns_tally happ hlaw (s.audience i.event)
    (fun slot hslot => (mem_audience.1 hslot).1) (narrow_connects.stable.refl s) hs
  obtain ⟨hswept, hroll⟩ := (Drifts.retain
    ((s.audience i.event).foldl (Session.notify app i) s) i.event).tallies
  have hall := htallies.trans hswept
  rw [List.append_nil] at hall
  rw [filter_audience, ← hroll] at hcalls
  rw [emit_eq hlaw.connects]
  exact ⟨log, hall, hcalls⟩

omit happ in
/-- A watcher that hears what it watches for is detached. -/
theorem emit_detaches {slot : Slot} (hslot : slot ∈ s.slots)
    (hevent : slot.event = i.event) {watch : Watch} {op : OperationId}
    (hsub : slot.subscriber = .watcher watch op) (hverdict : watch.verdict? i ≠ none) :
    slot ∉ (s.emit app i).slots := by
  have haudience : slot ∈ s.audience i.event := mem_audience.2 ⟨hslot, hevent⟩
  obtain ⟨before, behind, hsplit⟩ := List.append_of_mem haudience
  let t := before.foldl (Session.notify app i) s
  have hemit : s.emit app i =
      (behind.foldl (Session.notify app i) (t.notify app i slot)).retain i.event := by
    rw [emit_eq hlaw.connects, hsplit, List.foldl_append, List.foldl_cons]
  have hturn := narrow_connects.stable.notify hlaw.connects i
  have hst : s.Connects (t.notify app i slot) :=
    narrow_connects.trans (narrow_connects.stable.foldl hturn before s) (hturn t slot)
  have hrest : (t.notify app i slot).Connects (s.emit app i) := by
    rw [hemit]
    exact narrow_connects.trans (narrow_connects.stable.foldl hturn behind _)
      (narrow_connects.stable.retain ..)
  have hgone : slot ∉ (t.notify app i slot).slots := by
    obtain ⟨outcome, houtcome⟩ := Option.ne_none_iff_exists'.1 hverdict
    cases hconnected : t.isConnected slot.connection with
    | false =>
      rw [notify_of_not_isConnected hconnected]
      intro hmem
      rw [isConnected_of_mem hmem] at hconnected
      cases hconnected
    | true =>
      have hfired : t.notify app i slot = (t.disconnect slot.connection).complete op outcome := by
        simp [Session.notify, hconnected, hsub, houtcome]
      rw [hfired, complete_slots]
      exact fun hmem => (mem_slots_disconnect.1 hmem).2 rfl
  have hlt := Nat.lt_of_lt_of_le (lt_freshConnection hslot) hst.1
  exact fun hmem => hgone (hrest.2 slot hmem hlt)

theorem heeds_attends :
    app.Heeds L (fun _ => True) (fun _ => True) fun s t => s.Attends t where
  lawful := hlaw
  keeps := hlaw.calm.mono fun _ _ _ _ _ => trivial
  emit hs _ _ := by
    obtain ⟨log, htallies, hcalls⟩ := emit_tallies happ hlaw hs _
    refine ⟨log, htallies, ?_⟩
    simpa using Attendance.indication _ hcalls .nil
  offer callback f hs _ := happ.offer callback f _ _ _ hs
  answered callback answer hs _ := happ.answered callback answer _ _ _ hs
  abort callback e hs _ := happ.abort callback e _ _ _ hs

theorem tearDown_attends (hs : Sound L away owed s) (e : Failure) :
    s.Attends (s.tearDown app e) := by
  let cleared := { s with chain := [], tracked := [], outbound := [] }
  have hheeds := heeds_attends happ hlaw
  have hcleared : s.Drifts cleared := .of_eq rfl rfl rfl rfl rfl
  have hdrained := (steadfast_attends L).drain hheeds stable_true s.chain hs.cleared trivial e
  have haborted := abortTracked_attends (hs.cleared.drain hlaw.upholds s.chain e) e
  have hrestored (chain : List Handler) (t : Session (θ × List RollEntry)) :
      t.Drifts (t.restore chain) := .of_eq rfl rfl rfl rfl rfl
  exact hcleared.attends.trans (hdrained.trans (haborted.trans (hrestored _ _).attends))

theorem shutdown_attends (hs : Sound L away owed s) (e : Failure) :
    s.Attends (s.shutdown app e) := by
  unfold Session.shutdown
  split
  · exact tearDown_attends happ hlaw hs e
  · have hdeferred : s.Drifts { s with deferred := s.deferred <|> some e } :=
      .of_eq rfl rfl rfl rfl rfl
    exact hdeferred.attends

theorem deliver_attends (hs : Sound L away owed s) (f : Frame) :
    s.Attends (s.deliver app f) := by
  have hdispatched := (steadfast_attends L).dispatched (heeds_attends happ hlaw) stable_true
    (f := f) hs trivial fun _ _ _ _ => trivial
  rw [deliver_eq]
  refine hdispatched.trans ?_
  unfold Session.settleDeferred
  split
  · have hcleared : (s.dispatched app f).Drifts { s.dispatched app f with deferred := none } :=
      .of_eq rfl rfl rfl rfl rfl
    have hsound : Sound L away owed { s.dispatched app f with deferred := none } :=
      Accounts.congr (hs.dispatched hlaw f) rfl rfl rfl rfl
    exact hcleared.attends.trans (shutdown_attends happ hlaw hsound _)
  · exact (Drifts.refl _).attends

omit happ hlaw in
theorem subscribe_attends (event : Event) (callback : CallbackId)
    (s : Session (θ × List RollEntry)) :
    s.Attends (rollbook.perform app (.subscribe event callback) s) := by
  let slot : Slot := ⟨s.freshConnection, event, .application callback⟩
  have hroll : (s.subscribe event (.application callback)).2.roll = s.roll ++ [slot] := by
    simp [roll, Subscriber.operation?, slot]
  have hfresh : (s.subscribe event (.application callback)).2.freshConnection =
      s.freshConnection + 1 := freshConnection_subscribe ..
  refine ⟨[.attached slot], ⟨?_, rfl, hfresh ▸ Nat.le_succ _, ?_, List.pairwise_singleton _ _, ?_,
    ?_⟩, ?_⟩
  · simp only [Logbook.perform, rollbook, write_nil]
    rfl
  · intro x hx
    obtain rfl : x = slot := List.mem_singleton.1 hx
    exact ⟨Nat.le_refl _, hfresh ▸ Nat.lt_succ_self _⟩
  · exact fun x hx _ _ => Or.inl (slots_subset_subscribe s event _ hx)
  · exact narrow_outlives.subscribe s event (.application callback)
  · exact .attached slot (hroll ▸ .nil)

omit happ hlaw in
theorem disconnect_attends {connection : Connection} {s : Session (θ × List RollEntry)}
    (hown : (Deed.disconnect connection).Own s) :
    s.Attends (rollbook.perform app (.disconnect connection) s) := by
  have hroll : (s.disconnect connection).roll =
      s.roll.filter (·.connection != connection) := by
    simp only [roll, slots_disconnect, List.filter_filter, Bool.and_comm]
  have hfresh : s.freshConnection ≤ (s.disconnect connection).freshConnection :=
    Nat.le_of_eq (freshConnection_disconnect s connection).symm
  refine ⟨[.detached connection],
    ⟨?_, rfl, hfresh, (fun _ h => by cases h), List.Pairwise.nil, ?_, ?_⟩, ?_⟩
  · simp only [Logbook.perform, rollbook, write_nil]
    rfl
  · intro x hx op hop
    refine Or.inl (mem_slots_disconnect.2 ⟨hx, fun hc => ?_⟩)
    obtain ⟨callback, hsub⟩ := hown x hx hc
    rw [hsub] at hop
    cases hop
  · exact narrow_outlives.disconnect s connection
  · exact .detached connection (hroll ▸ .nil)

theorem emission_attends (hs : Sound L away owed s) (i : Indication) :
    s.Attends (rollbook.perform app (.emit i) s) := by
  have hbegun : Sound L away owed (s.write [.emitting i]) := Accounts.congr hs rfl rfl rfl rfl
  obtain ⟨log, htallies, hcalls⟩ := emit_tallies happ hlaw hbegun i
  let done := (s.write [.emitting i]).emit app i
  have hstored : (done.stored i.event).filter (·.subscriber.operation?.isNone) =
      done.roll.filter (·.event = i.event) := by
    rw [stored_emit, filter_audience]
  have hdone := htallies.trans (tallies_write (e := .emitted (done.stored i.event)) _ rfl)
  exact ⟨_, (tallies_write s rfl).trans hdone, .emission i hcalls hstored .nil⟩

/-- Each deed adds to the log what its callbacks and it are about. -/
theorem perform_attends (hs : Sound L away owed s) {d : Deed (θ × List RollEntry)}
    (hdiscreet : d.Discreet) (hown : d.Own s) : s.Attends (rollbook.perform app d s) := by
  cases d with
  | deliver f =>
    rw [Logbook.perform_eq rfl rfl]
    exact deliver_attends happ hlaw hs f
  | shutdown e =>
    rw [Logbook.perform_eq rfl rfl]
    exact shutdown_attends happ hlaw hs e
  | emit i => exact emission_attends happ hlaw hs i
  | subscribe event callback => exact subscribe_attends event callback s
  | disconnect connection => exact disconnect_attends hown
  | think change =>
    rw [Logbook.perform_eq rfl rfl]
    refine ⟨[], ⟨?_, rfl, Nat.le_refl _, nofun, List.Pairwise.nil, fun _ hslot _ _ => Or.inl hslot,
      narrow_outlives.other rfl rfl rfl⟩, .nil⟩
    rw [List.append_nil]
    exact hdiscreet s.host
  | call | ask | advance | expire | send | next | takeAll | addHandler =>
    rw [Logbook.perform_eq rfl rfl]
    exact (Drifts.perform rfl (fun _ _ h => by cases h) (fun _ h => by cases h)
      (fun _ h => by cases h) app s).attends

end Callbacks

end Sound

/-! ## Every run -/

section Runs

variable {s t : Session (θ × List RollEntry)} {ws : List Wait}
  {app : Application (θ × List RollEntry)}

theorem Writing.lawful_rollbook (happ : Writing (.free _) rollbook app) : Lawful (.free _) app :=
  happ.lawful Licence.open_free fun _ => trivial

theorem Written.attends (h : Written (.free _) rollbook s ws t) {away : List Handler}
    {owed : List Tracked} (hs : Sound (.free _) away owed s) : s.Attends t := by
  refine h.keeps (R := fun s _ t => ∀ away owed, Sound (.free _) away owed s → s.Attends t)
    (fun s _ _ _ => (Session.Drifts.refl s).attends) ?_ ?_ away owed hs
  · intro s t ws app d hrun hst happ hrecords _ hdiscreet hown away owed hs
    have hsound := (hrun.uses Licence.open_free fun _ => trivial).keeps (Session.upholds_kept _)
      away owed hs
    exact (hst away owed hs).trans
      (hsound.perform_attends hrecords happ.lawful_rollbook hdiscreet hown)
  · intro s t ws p window _ hst _ away owed hs
    exact (hst away owed hs).trans (Session.Drifts.issue t).attends

theorem Writing.attends (happ : Writing (.free _) rollbook app) :
    app.Records (.free _) rollbook fun s _ t =>
      ∀ away owed, Sound (.free _) away owed s → s.Attends t :=
  happ.records fun h _ _ hs => h.attends hs

end Runs

/-- What the log says about the subscribers of a session, and what an emission will do. -/
structure Session.CallsTheRoll (s : Session (θ × List RollEntry)) : Prop where
  /-- From the beginning, the log keeps to the rules. It makes of no subscribers those that are
  attached. -/
  attendance : Attendance [] [] s.pages s.roll
  /-- Subscribers are stored in the order of their subscription. -/
  order : s.subscribers.stored.Pairwise (·.connection < ·.connection)
  /-- Nobody who is connected was ever taken off the list. -/
  kept : ∀ connection, s.isConnected connection = true →
    ∃ slot ∈ s.subscribers.stored, slot.connection = connection
  /-- A subscriber that is detached is not called any more. -/
  gone : ∀ before after connection, s.pages = before ++ .detached connection :: after →
    (∃ slot, .attached slot ∈ before ∧ slot.connection = connection) →
    ∀ i, .called connection i ∉ after
  /-- An emission calls the roll. -/
  emit : ∀ {app}, Writing (.free _) rollbook app → ∀ i, ∃ log,
    (s.emit app i).pages = s.pages ++ log ∧
    RollCall i [] (s.roll.filter (·.event = i.event)) s.roll log (s.emit app i).roll
  /-- When an emission is over, this or any other, those who are stored for its event are those
  who are connected. -/
  stored : ∀ (t : Session (θ × List RollEntry)) app i,
    (t.emit app i).stored i.event = (t.emit app i).audience i.event
  /-- A watcher leaves when its operation is decided, and not before. If it hears what it watches
  for, it is. -/
  watchers : ∀ {app}, Writing (.free _) rollbook app → ∀ i, ∀ slot ∈ s.slots, ∀ watch op,
    slot.subscriber = .watcher watch op →
    (slot ∈ (s.emit app i).slots ↔ (s.emit app i).pending op = true) ∧
    (slot.event = i.event → watch.verdict? i ≠ none → (s.emit app i).pending op = false)

/-- Whatever callbacks do, an emission calls those who were attached for the event when it started,
each once and in the order of subscription, unless they are detached by then or are being called
already. Nobody is lost, and whoever is attached meanwhile is on the roll of the next one. -/
theorem Written.emissions_call_the_roll {config : SessionConfig} {host : θ} {ws : List Wait}
    {s : Session (θ × List RollEntry)}
    (h : Written (.free _) rollbook (.start config (host, [])) ws s) : s.CallsTheRoll := by
  have hstart := Sound.start (.free _) config (host, ([] : List RollEntry))
  obtain ⟨log, htallies, hattends⟩ := h.attends hstart
  have huses := h.uses Licence.open_free fun _ => trivial
  have hsound := huses.keeps (Session.upholds_kept _) [] [] hstart
  have hpages : s.pages = log := htallies.pages
  have hrunning : s.running = [] := htallies.running
  have hroll : (Session.start config (host, ([] : List RollEntry))).roll = [] := rfl
  rw [hroll, ← hpages] at hattends
  rw [← hpages] at htallies
  refine {
    attendance := hattends
    order := s.subscribers.increasing
    kept := fun connection hup => s.subscribers.held connection (Roster.raised_iff.1 hup)
    gone := fun before after connection hsplit hold => ?_
    emit := fun happ i => ?_
    stored := fun t app i => t.stored_emit app i
    watchers := fun {app} happ i slot hslot watch op hsub => ?_ }
  · obtain ⟨x, hx, hsame⟩ := hold
    have hconsistent := hattends.consistent
    have hincreasing := htallies.increasing
    rw [hsplit] at hconsistent hincreasing
    rw [List.filterMap_append] at hincreasing
    refine (RollEntry.consistent_append.1 hconsistent).2.2.not_called (fun slot hslot => ?_)
      fun slot hslot => ?_
    · exact bne_iff_ne.1 (List.mem_filter.1 hslot).2
    · have hlater : slot ∈ (RollEntry.detached connection :: after).filterMap
          RollEntry.attached? := List.mem_filterMap.2 ⟨_, .tail _ hslot, rfl⟩
      have hlt := (List.pairwise_append.1 hincreasing).2.2 x (List.mem_filterMap.2 ⟨_, hx, rfl⟩)
        slot hlater
      exact hsame ▸ Nat.ne_of_gt hlt
  · obtain ⟨log, hemitted, hcalls⟩ := hsound.emit_tallies happ.attends happ.lawful_rollbook i
    rw [hrunning] at hcalls
    exact ⟨log, hemitted.pages, hcalls⟩
  · have hop : slot.subscriber.operation? = some op := by rw [hsub]; rfl
    obtain ⟨log, hemitted, -⟩ := hsound.emit_tallies happ.attends happ.lawful_rollbook i
    have hemit := hsound.emit happ.lawful_rollbook.upholds happ.lawful_rollbook.connects i
    have hstays : slot ∈ (s.emit app i).slots ↔ (s.emit app i).pending op = true := by
      refine ⟨fun hmem => Accounts.pending_of_slot hemit hmem hop, fun hpending => ?_⟩
      refine (hemitted.watchers slot hslot op hop).resolve_right fun hdecided => ?_
      rw [(Session.isSome_outcome?_iff.1 hdecided).2] at hpending
      cases hpending
    refine ⟨hstays, fun hevent hverdict => ?_⟩
    have hgone := Sound.emit_detaches happ.lawful_rollbook hslot hevent hsub hverdict (i := i)
    exact Bool.eq_false_iff.2 fun hpending => hgone (hstays.2 hpending)

/-! ## A subscriber that detaches another one -/

/-- When the first subscriber is called it detaches the second one and attaches another, and then
emits by hand what it heard. -/
def Application.ousting (i : Indication) : Application (Unit × List RollEntry) :=
  rollbook.acting rollbook.silent fun callback _ =>
    if callback = 0 then [.disconnect 1, .subscribe i.event 3, .emit i] else []

theorem Writing.ousting (i : Indication) :
    Writing (.free _) rollbook (.ousting i) := by
  refine .acting (.silent fun _ => trivial) fun callback _ d hd => ?_
  split at hd
  · simp only [List.mem_cons, List.not_mem_nil, or_false] at hd
    obtain rfl | rfl | rfl := hd <;> exact ⟨⟨trivial, trivial⟩, trivial⟩
  · cases hd

/-- Devices may join for a minute. -/
def Indication.joining : Indication := .permitJoin ⟨60⟩

/-- A session with three subscribers for one event. -/
def Session.attended : Session (Unit × List RollEntry) :=
  [.subscribe .permitJoin 0, .subscribe .permitJoin 1, .subscribe .permitJoin 2].foldl
    (fun s d => rollbook.perform rollbook.silent d s) (.start {} ((), []))

theorem Written.attended : Written (.free _) rollbook (.start {} ((), [])) [] .attended := by
  refine (Written.refl _).deeds (.silent fun _ => trivial) fun d hd => ?_
  fin_cases hd <;> exact ⟨⟨trivial, trivial⟩, trivial, fun _ => trivial⟩

/-- The session after an emission by hand in which the first subscriber ousts the second. -/
def Session.ousted : Session (Unit × List RollEntry) :=
  rollbook.perform (.ousting .joining) (.emit .joining) .attended

theorem Written.ousted : Written (.free _) rollbook (.start {} ((), [])) [] .ousted :=
  Written.attended.deed (.ousting .joining) ⟨trivial, trivial⟩ trivial trivial

/-- The second subscriber is not called. The new one is called by the nested emission only, which
passes over the first, and the third is called by both. It is the nested emission that takes the
second one off the list, while the other emission is still under way. -/
theorem ousted_calls_the_roll :
    let slot (n : Nat) : Slot := ⟨n, .permitJoin, .application n⟩
    Attendance [] [] [.attached (slot 0), .attached (slot 1), .attached (slot 2),
      .emitting .joining, .called 0 .joining, .detached 1, .attached (slot 3),
        .emitting .joining, .called 2 .joining, .called 3 .joining,
        .emitted [slot 0, slot 2, slot 3],
      .called 2 .joining, .emitted [slot 0, slot 2, slot 3]] [slot 0, slot 2, slot 3] ∧
    (∀ i, .called 1 i ∉ Session.ousted.pages.drop 6) ∧
    Session.ousted.stored .permitJoin = [slot 0, slot 2, slot 3] := by
  have hroll := Written.ousted.emissions_call_the_roll
  refine ⟨hroll.attendance, ?_, rfl⟩
  exact hroll.gone (Session.ousted.pages.take 5) _ 1 rfl ⟨_, .tail _ (.head _), rfl⟩

end ZigbeeHost
