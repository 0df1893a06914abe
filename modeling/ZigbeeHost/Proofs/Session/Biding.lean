import ZigbeeHost.Proofs.Session.Chronicle
import ZigbeeHost.Proofs.Session.Listeners
/-!
# Handlers that are out

While a frame is dispatched, the handlers of the chain are out of the session, and nothing
that callbacks do reaches them but the expiry of their timers. `Session.Bides away s t` says
this of the handlers `away` : each that held an operation in `s` still holds it in `t`, until
the same deadline, unless the chronicle has an expiry meanwhile at which the deadline was
over, and then the operation timed out.

Nobody else may disarm a timer of theirs, because each timer has one handler. That is why the
inductions here go along with those for sound sessions. Every run bides (`Uses.bides`).
-/

namespace ZigbeeHost

variable {θ : Type}

/-! ## Holding an operation -/

/-- The handler has the operation, until the deadline if there is one. -/
def Handler.Holds (timers : Timers OperationId) (op : OperationId) (due : Option Nat) :
    Handler → Prop
  | timed id inner =>
    inner.operation? = some op ∧ ∃ deadline, due = some deadline ∧ ⟨id, deadline, op⟩ ∈ timers.armed
  | h => h.operation? = some op ∧ due = none

namespace Handler.Holds

variable {timers timers' : Timers OperationId} {op : OperationId} {due : Option Nat} {h : Handler}

/-- A handler that holds an operation has it. -/
theorem operation? (hh : h.Holds timers op due) : h.operation? = some op := by
  cases h with
  | timed => exact hh.1
  | _ => exact hh.1

theorem carried? (hh : h.Holds timers op due) : h.carried? timers = some op := by
  cases h with
  | timed id inner =>
    obtain ⟨hop, deadline, -, harmed⟩ := hh
    rw [Handler.carried?, if_pos (Timers.active_iff.2 ⟨_, harmed, rfl⟩)]
    exact hop
  | _ => exact hh.1

/-- A handler goes on holding as long as its timer stays armed. -/
theorem mono (hh : h.Holds timers op due)
    (harmed : ∀ e ∈ timers.armed, h.timer? = some e.id → e ∈ timers'.armed) :
    h.Holds timers' op due := by
  cases h with
  | timed id inner =>
    obtain ⟨hop, deadline, hdue, hmem⟩ := hh
    exact ⟨hop, deadline, hdue, harmed _ hmem rfl⟩
  | _ => exact hh

end Handler.Holds

/-- At one of the moments timers expired when the deadline was over. -/
def Overdue (new : List Moment) (due : Option Nat) : Prop :=
  ∃ deadline now, due = some deadline ∧ .expired now ∈ new ∧ deadline ≤ now

/-- In either part of a run a window may have closed. -/
theorem overdue_append {new new' : List Moment} {due : Option Nat} :
    Overdue (new ++ new') due ↔ Overdue new due ∨ Overdue new' due := by
  simp only [Overdue, List.mem_append]
  constructor
  · rintro ⟨deadline, now, hdue, hnow | hnow, hle⟩
    · exact Or.inl ⟨deadline, now, hdue, hnow, hle⟩
    · exact Or.inr ⟨deadline, now, hdue, hnow, hle⟩
  · rintro (⟨deadline, now, hdue, hnow, hle⟩ | ⟨deadline, now, hdue, hnow, hle⟩)
    · exact ⟨deadline, now, hdue, Or.inl hnow, hle⟩
    · exact ⟨deadline, now, hdue, Or.inr hnow, hle⟩

theorem not_overdue {new : List Moment} (hnone : ∀ now, .expired now ∉ new) (due : Option Nat) :
    ¬Overdue new due := fun ⟨_, now, _, hnow, _⟩ => hnone now hnow

/-- Without a deadline nothing is ever overdue. -/
theorem not_overdue_none (new : List Moment) : ¬Overdue new none := fun ⟨_, _, hdue, _⟩ => by
  cases hdue

/-- The handler still holds the operation after the moments `new`, or the operation timed out
at one of them. -/
def Handler.Bides (new : List Moment) (op : OperationId) (due : Option Nat)
    (t : Session (θ × List Moment)) (h : Handler) : Prop :=
  h.Holds t.timers op due ∧ ¬Overdue new due ∨
    Overdue new due ∧ t.outcome? op = some (.error .timeout)

/-- What was held by the handlers `away` in `s` is held in `t`, unless it timed out. -/
structure Session.Bides (away : List Handler) (s t : Session (θ × List Moment)) : Prop where
  outlives : s.Outlives t
  bides : ∃ new, t.chronicle = s.chronicle ++ new ∧
    ∀ h ∈ away, ∀ op due, h.Holds s.timers op due → h.Bides new op due t

namespace Session.Bides

variable {away away' : List Handler} {s t u : Session (θ × List Moment)}

/-- No timer of theirs is disarmed. -/
theorem of_armed (new : List Moment) (houtlives : s.Outlives t)
    (hchronicle : t.chronicle = s.chronicle ++ new) (hnone : ∀ now, .expired now ∉ new)
    (harmed : ∀ h ∈ away, ∀ e ∈ s.timers.armed, h.timer? = some e.id → e ∈ t.timers.armed) :
    Bides away s t :=
  ⟨houtlives, new, hchronicle, fun h hh _ due hholds =>
    Or.inl ⟨hholds.mono (harmed h hh), not_overdue hnone due⟩⟩

/-- What changes neither timers nor operations leaves everyone waiting. -/
theorem of_eq (hhost : t.host.2 = s.host.2) (htimers : t.timers = s.timers)
    (hops : t.operations = s.operations) : Bides away s t :=
  of_armed [] (fun _ _ ho => by rwa [outcome?, hops]) (hhost.trans (List.append_nil _).symm) nofun
    (by rw [htimers]; exact fun _ _ _ he _ => he)

theorem refl (away : List Handler) (s : Session (θ × List Moment)) : Bides away s s :=
  of_eq rfl rfl rfl

theorem trans (h : Bides away s t) (h' : Bides away t u) : Bides away s u := by
  obtain ⟨houtlives, new, hnew, hbides⟩ := h
  obtain ⟨houtlives', new', hnew', hbides'⟩ := h'
  refine ⟨narrow_outlives.trans houtlives houtlives', new ++ new', ?_, ?_⟩
  · rw [hnew', hnew, List.append_assoc]
  · intro h hh op due hholds
    rcases hbides h hh op due hholds with ⟨hheld, hdue⟩ | ⟨hdue, hout⟩
    · rcases hbides' h hh op due hheld with ⟨hheld', hdue'⟩ | ⟨hdue', hout'⟩
      · exact Or.inl ⟨hheld', fun hover => (overdue_append.1 hover).elim hdue hdue'⟩
      · exact Or.inr ⟨overdue_append.2 (Or.inr hdue'), hout'⟩
    · exact Or.inr ⟨overdue_append.2 (Or.inl hdue), houtlives' op _ hout⟩

theorem mono (h : Bides away s t) (hsub : ∀ g ∈ away', g ∈ away) : Bides away' s t :=
  ⟨h.outlives, h.bides.imp fun _ hnew => ⟨hnew.1, fun g hg => hnew.2 g (hsub g hg)⟩⟩

theorem complete (s : Session (θ × List Moment)) (op : OperationId)
    (outcome : Except Failure Outcome) : Bides away s (s.complete op outcome) :=
  of_armed [] (outlives_complete s op outcome) (by simp [Session.chronicle]) nofun
    (by rw [complete_timers]; exact fun _ _ _ he _ => he)

/-- To disarm the timer of another handler makes no difference. -/
theorem disarm {id : TimerId} (hne : ∀ h ∈ away, h.timer? ≠ some id)
    (s : Session (θ × List Moment)) : Bides away s (s.disarm id) :=
  of_armed [] (narrow_outlives.other rfl rfl rfl) (List.append_nil _).symm nofun
    fun h hh _ he ht => List.mem_filter.2 ⟨he, bne_iff_ne.2 fun hid => hne h hh (hid ▸ ht)⟩

/-- What is noted makes no difference, unless it is an expiry. -/
theorem noted {ms : List Moment} (h : Bides away s t) (hnone : ∀ now, .expired now ∉ ms) :
    Bides away s { t with host := (t.host.1, t.host.2 ++ ms) } :=
  h.trans (of_armed ms (fun _ _ ho => ho) rfl hnone fun _ _ _ he _ => he)

theorem foldl {α : Type} {f : Session (θ × List Moment) → α → Session (θ × List Moment)}
    (hf : ∀ s x, Bides away s (f s x)) (xs : List α) (s : Session (θ × List Moment)) :
    Bides away s (xs.foldl f s) :=
  List.foldlRecOn xs f (motive := Bides away s) (refl away s) fun t ht x _ => ht.trans (hf t x)

/-- At the end of a dispatch new timers are armed, and the others stay. -/
theorem leave (chain : List Handler) (waits : List Wait) (tracked : List Tracked)
    (s : Session (θ × List Moment)) : Bides away s (s.leave chain waits tracked) := by
  have hinstall (t : Session (θ × List Moment)) (w : Wait) : Bides away t (t.install w) := by
    refine of_armed [] (narrow_outlives.install t w) (by simp [Session.chronicle]) nofun ?_
    intro _ _ _ he _
    unfold Session.install
    split
    · exact he
    · exact List.mem_append_left _ he
  have hback : Bides away s { s.restore chain with depth := s.depth - 1 } := of_eq rfl rfl rfl
  have htrack (t : Session (θ × List Moment)) (x : Tracked) : Bides away t (t.track x) :=
    of_eq rfl rfl rfl
  exact hback.trans ((foldl hinstall waits _).trans (foldl htrack tracked _))

theorem abortTracked (e : Failure) (ts : List Tracked) (s : Session (θ × List Moment)) :
    Bides away s (ts.foldl (Session.abortTracked e) s) :=
  foldl (f := Session.abortTracked e) (fun s x =>
    (of_eq rfl rfl rfl : Bides away s (s.disconnect x.connection)).trans (complete _ _ _)) ts s

end Session.Bides

/-- Whoever is out while this run is under way bides. -/
def Session.AllBide (s : Session (θ × List Moment)) (_ : List Wait)
    (t : Session (θ × List Moment)) : Prop :=
  ∀ away owed, Sound (.chronicled θ) away owed s → Session.Bides away s t

/-! ## Sound sessions -/

namespace Sound

variable {away : List Handler} {owed : List Tracked} {s : Session (θ × List Moment)}

/-- A timer has one handler. -/
theorem timer?_ne {L : Licence (θ × List Moment)} {id : TimerId} {inner : Handler}
    (hs : Sound L (.timed id inner :: away) owed s) : ∀ h ∈ away, h.timer? ≠ some id := by
  intro h hh hid
  have hnodup := hs.timers.timer_nodup
  simp only [List.cons_append, List.filterMap_cons, Handler.timer?, List.nodup_cons] at hnodup
  exact hnodup.1 (List.mem_filterMap.2 ⟨h, List.mem_append_left _ hh, hid⟩)

/-- Expiry fails what is held until a deadline that is over, and spares the rest. -/
theorem bides_expire {L : Licence (θ × List Moment)} (hs : Sound L away owed s) {h : Handler}
    (hh : h ∈ away ++ s.chain) {op : OperationId} {due : Option Nat}
    (hholds : h.Holds s.timers op due) : h.Bides [.expired s.now] op due s.expireTimers := by
  have hpending := Accounts.pending_of_handler hs hh hholds.carried?
  by_cases hover : ∃ deadline, due = some deadline ∧ deadline ≤ s.now
  · obtain ⟨deadline, rfl, hle⟩ := hover
    refine Or.inr ⟨⟨deadline, s.now, rfl, List.mem_singleton.2 rfl, hle⟩, ?_⟩
    cases h with
    | timed id inner =>
      obtain ⟨-, _, heq, harmed⟩ := hholds
      cases heq
      exact s.outcome?_expireTimers op hpending
        (Timers.mem_alarms_expire.2 ⟨_, harmed, hle, rfl⟩)
    | _ => cases hholds.2
  · have hlate : ¬Overdue [.expired s.now] due := by
      rintro ⟨deadline, now, hdue, hnow, hle⟩
      cases List.mem_singleton.1 hnow
      exact hover ⟨deadline, hdue, hle⟩
    refine Or.inl ⟨?_, hlate⟩
    rw [Session.expireTimers_eq]
    cases h with
    | timed id inner =>
      obtain ⟨hop, deadline, hdue, harmed⟩ := hholds
      have hlt : s.now < deadline := Nat.lt_of_not_le fun hle => hover ⟨deadline, hdue, hle⟩
      exact ⟨hop, deadline, hdue, List.mem_filter.2 ⟨harmed, decide_eq_true hlt⟩⟩
    | _ => exact hholds

variable {app : Application (θ × List Moment)} (hlaw : Lawful (.chronicled θ) app)
  (happ : app.Keeps (.chronicled θ) Session.AllBide)

section Frames

include happ

/-- The turn of a subscriber concerns nobody who is away. -/
theorem notify_bides (hs : Sound (.chronicled θ) away owed s) (i : Indication) (slot : Slot) :
    Session.Bides away s (s.notify app i slot) := by
  rcases Session.notify_cases app i s slot with
    heq | ⟨watch, op, outcome, -, -, -, heq⟩ | ⟨callback, -, heq⟩ <;> rw [heq]
  · exact .refl away s
  · have hgone : Session.Bides away s (s.disconnect slot.connection) := .of_eq rfl rfl rfl
    exact hgone.trans (.complete _ _ _)
  · let calling := { s with running := slot.connection :: s.running }
    have hcalling : Sound (.chronicled θ) away owed calling := Accounts.congr hs rfl rfl rfl rfl
    have hstart : Session.Bides away s calling := .of_eq rfl rfl rfl
    exact (hstart.trans (happ.hear callback slot.connection i calling away owed hcalling)).trans
      (.of_eq rfl rfl rfl)

theorem resume_bides (hs : Sound (.chronicled θ) away owed s) (answer : Except Failure Bytes)
    (a : Aftermath) : Session.Bides away s (a.resume app answer s).1 := by
  rcases a.resume_cases app answer s with ⟨callback, rfl⟩ |
    ⟨op, -, ⟨outcome, -, heq⟩ | ⟨c, -, heq⟩ | ⟨ends, allowed, -, heq⟩⟩
  · exact happ.answered callback answer s away owed hs
  · rw [heq]
    exact .complete s op outcome
  · rw [heq]
    exact .refl away s
  · rw [heq]
    exact .of_eq rfl rfl rfl

/-- A handler that is aborted takes along its own timer only. -/
theorem abort_bides {g : Handler} (hs : Sound (.chronicled θ) (g :: away) owed s) (e : Failure) :
    Session.Bides away s (g.abort app e s) := by
  cases g with
  | indication kind command event lenient => exact .refl away s
  | response accepted a =>
    have hresumed := (resume_bides happ hs (.error e) a).mono fun g hg => List.mem_cons_of_mem _ hg
    exact hresumed.trans (.foldl (fun s (w : Wait) => .complete s w.operation _) _ _)
  | wait pattern op => exact .complete s op _
  | timed id inner =>
    have hne := hs.timer?_ne
    obtain ⟨p, op, rfl⟩ := hs.inner_eq
    simp only [Handler.abort]
    split
    · exact (Session.Bides.disarm hne s).trans (.complete _ op _)
    · exact .refl away s
  | custom callback permanent =>
    exact (happ.abort callback e s _ owed hs).mono fun g hg => List.mem_cons_of_mem _ hg

include hlaw

/-- An emission concerns nobody who waits. -/
theorem emit_bides (hs : Sound (.chronicled θ) away owed s) (i : Indication) :
    Session.Bides away s (s.emit app i) :=
  hs.emit_induct hlaw.upholds hlaw.connects (.refl away s)
    (fun _ slot _ _ ht hbides => hbides.trans (notify_bides happ ht i slot))
    fun _ _ hbides => hbides.trans (.of_eq rfl rfl rfl)

/-- A handler that is offered a frame takes along its own timer only. -/
theorem offer_bides {g : Handler} (hs : Sound (.chronicled θ) (g :: away) owed s) (f : Frame) :
    Session.Bides away s (g.offer app f s).1 := by
  have hsub : ∀ h ∈ away, h ∈ g :: away := fun _ hh => List.mem_cons_of_mem g hh
  rcases Handler.offer_cases (hs.formed g List.mem_cons_self) f app s with
    heq | ⟨i, -, heq⟩ | ⟨accepted, a, answer, rfl, heq⟩ | ⟨p, op, rest, rfl, heq⟩ |
      ⟨id, p, op, rest, rfl, heq⟩ | ⟨callback, permanent, rfl, heq⟩ <;> rw [heq]
  · exact .refl away s
  · exact (emit_bides hlaw happ hs i).mono hsub
  · exact (resume_bides happ hs answer a).mono hsub
  · exact .complete s op _
  · exact (Session.Bides.complete s op _).trans (.disarm hs.timer?_ne _)
  · exact (happ.offer callback f s _ owed hs).mono hsub

/-- Whoever is out and not in the walk bides, also while a walk goes on. -/
theorem dispatch_bides (chain : List Handler) {waits : List Wait} {tracked : List Tracked}
    (hs : Sound (.chronicled θ) (chain ++ (waits.map Wait.handler ++ away)) (tracked ++ owed) s)
    (f : Frame) : Session.Bides away s
      (Chain.dispatch (Session.turn app f) chain (s, waits, tracked)).2.1.1 :=
  hs.dispatch_induct hlaw.upholds hlaw.connects (Q := Session.Bides away s) (.refl away s)
    fun _ _ _ _ _ haway _ ht hbides => hbides.trans ((offer_bides hlaw happ ht f).mono haway)

/-- Whoever is not in the chain goes on waiting while it is walked. -/
theorem walk_bides (chain : List Handler) (hs : Sound (.chronicled θ) (chain ++ away) owed s)
    (f : Frame) : Session.Bides away s (s.walk app f chain).2.1.1 :=
  hs.walk_induct hlaw.upholds hlaw.connects (Q := Session.Bides away s) (.refl away s)
    fun _ _ _ _ _ haway _ ht hbides => hbides.trans ((offer_bides hlaw happ ht f).mono haway)

/-- What is done with a frame before the end of its dispatch. -/
theorem dispatched_bides (hs : Sound (.chronicled θ) away owed s) (f : Frame) :
    Session.Bides away s (s.dispatched app f) := by
  have henter : Session.Bides away s s.enter := .of_eq rfl rfl rfl
  exact (henter.trans (walk_bides hlaw happ s.chain hs.enter f)).trans (.leave _ _ _ _)

/-- And so it is while the chain is drained. -/
theorem drain_bides (chain : List Handler) (hs : Sound (.chronicled θ) (chain ++ away) owed s)
    (e : Failure) :
    Session.Bides away s (Chain.drain Handler.permanent (Handler.abort app e) chain s).2 :=
  hs.drain_induct hlaw.upholds (Q := Session.Bides away s) (.refl away s)
    fun _ _ _ haway ht hbides => hbides.trans ((abort_bides happ ht e).mono haway)

theorem shutdown_bides (hs : Sound (.chronicled θ) away owed s) (e : Failure) :
    Session.Bides away s (s.shutdown app e) := by
  unfold Session.shutdown
  split
  · have hcleared : Session.Bides away s { s with chain := [], tracked := [], outbound := [] } :=
      .of_eq rfl rfl rfl
    exact (hcleared.trans (drain_bides hlaw happ s.chain hs.cleared e)).trans
      ((Session.Bides.abortTracked e s.tracked _).trans (.of_eq rfl rfl rfl))
  · exact .of_eq rfl rfl rfl

/-- A delivery leaves those alone who are away. -/
theorem deliver_bides (hs : Sound (.chronicled θ) away owed s) (f : Frame) :
    Session.Bides away s (s.deliver app f) := by
  have hsound := hs.dispatched hlaw f
  refine (dispatched_bides hlaw happ hs f).trans ?_
  rw [Session.deliver_eq]
  unfold Session.settleDeferred
  split
  · have hcleared : Sound (.chronicled θ) away owed
        { s.dispatched app f with deferred := none } := Accounts.congr hsound rfl rfl rfl rfl
    have hstart : Session.Bides away (s.dispatched app f)
        { s.dispatched app f with deferred := none } := .of_eq rfl rfl rfl
    exact hstart.trans (shutdown_bides hlaw happ hcleared _)
  · exact .refl away _

/-- Each deed leaves those alone who are away. -/
theorem perform_bides (hs : Sound (.chronicled θ) away owed s) {d : Deed (θ × List Moment)}
    (hd : (Licence.chronicled θ).Permits d) :
    Session.Bides away s ((Licence.chronicled θ).perform app d s) := by
  cases hquiet : d.quiet with
  | true =>
    have hdefers := Session.defers_quiet hd hquiet app s
    have houtlives : s.Outlives ((Licence.chronicled θ).perform app d s) :=
      Session.narrow_outlives.perform hlaw.outlives d s
    cases d with
    | expire =>
      exact ⟨houtlives, _, hdefers.chronicle, fun h hh op due hholds =>
        hs.bides_expire (List.mem_append_left _ hh) hholds⟩
    | _ =>
      refine .of_armed _ houtlives hdefers.chronicle (by simp [Deed.moments]) ?_
      exact fun _ _ _ he _ => (Deed.armed_perform hquiet (by rintro ⟨⟩) app s).mem he
  | false =>
    cases d with
    | deliver f => exact (deliver_bides hlaw happ hs f).noted (by simp [Deed.moments])
    | shutdown e => exact (shutdown_bides hlaw happ hs e).noted (by simp [Deed.moments])
    | emit i => exact (emit_bides hlaw happ hs i).noted (by simp [Deed.moments])
    | _ => cases hquiet

end Frames

end Sound

/-! ## Every run -/

/-- Every run does. -/
theorem Session.bides_kept (θ : Type) :
    (Licence.chronicled θ).Kept fun s ws t => Uses (.chronicled θ) s ws t ∧ AllBide s ws t := by
  refine Licence.kept_along (fun s away _ _ => .refl away s) ?_ ?_
  · intro s t ws app d hrun hst hlaw happ hd _ away owed hs
    have ht := hrun.keeps (upholds_kept _) away owed hs
    exact (hst away owed hs).trans
      ((Sound.perform_bides hlaw happ ht hd).mono fun g hg => List.mem_append_right _ hg)
  · intro s t ws p window _ hst _ away owed hs
    have hissue : Session.Bides away t t.issue.2 :=
      .of_armed [] (outlives_issue t) (List.append_nil _).symm nofun fun _ _ _ he _ => he
    exact (hst away owed hs).trans hissue

/-- Whoever is out bides, whatever is done meanwhile. -/
theorem Uses.bides {s t : Session (θ × List Moment)} {ws : List Wait}
    (h : Uses (.chronicled θ) s ws t) {away : List Handler} {owed : List Tracked}
    (hs : Sound (.chronicled θ) away owed s) : Session.Bides away s t :=
  (h.keeps (Session.bides_kept θ)).2 away owed hs

theorem Lawful.bides {app : Application (θ × List Moment)} (happ : Lawful (.chronicled θ) app) :
    app.Keeps (.chronicled θ) Session.AllBide :=
  (happ.keeps (Session.bides_kept θ)).mono fun _ _ _ h => h.2

end ZigbeeHost
