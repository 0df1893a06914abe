import Mathlib.Data.List.Nodup
import ZigbeeHost.Proofs.Session.Timed
import ZigbeeHost.Proofs.Session.Watched
/-!
# Who carries an operation

`Accounts L hs ts s` is the invariant of a session whose handlers are `hs` and whose
tracked operations are `ts` : a pending operation is carried once, by a handler or by a
watcher, and all others are carried by nobody. It speaks of lists and not of the chain,
because while a frame is dispatched the chain is out of the session, and the waits and
tracked operations that the walk asked for are in nobody's list yet.

The lemmas follow the ways of an operation : it is issued to a handler, handed over from a
handler to a watcher, put behind a timer and taken from it, and completed by whoever
carries it.
-/

namespace ZigbeeHost

variable {η : Type} {L : Licence η}

/-! ## Handlers of a session -/

/-- The handlers that a session may have, under a licence. -/
def Handler.Formed (L : Licence η) : Handler → Prop
  | indication kind command event lenient =>
    kind = .areq ∧ command = event.command ∧ lenient = event.lenient
  | response _ (.application _) => L.handlers
  | response _ _ => True
  | wait p _ => p.kind = .areq ∨ L.pattern p
  | timed _ (wait p _) => p.kind = .areq ∨ L.pattern p
  | timed _ _ => False
  | custom _ _ => L.handlers

/-- Permanent handlers have no operation. -/
theorem Handler.Formed.operation?_of_permanent {g : Handler} (hf : g.Formed L)
    (hp : g.permanent = true) : g.operation? = none := by
  cases g with
  | timed id inner =>
    cases inner with
    | wait p op => cases hp
    | _ => exact hf.elim
  | indication | custom => rfl
  | response | wait => cases hp

/-- The operations carried by the handlers `hs` and by the watchers of the session. -/
def Session.carriedBy (hs : List Handler) (s : Session η) : List OperationId :=
  hs.filterMap (Handler.carried? s.timers) ++ s.slots.filterMap (·.subscriber.operation?)

theorem Session.count_carriedBy_cons (g : Handler) (hs : List Handler) (s : Session η)
    (op : OperationId) :
    (s.carriedBy (g :: hs)).count op =
      (if g.carried? s.timers = some op then 1 else 0) + (s.carriedBy hs).count op := by
  unfold carriedBy
  cases hg : g.carried? s.timers with
  | none => simp [hg]
  | some op' =>
    simp only [List.filterMap_cons, hg, List.cons_append, List.count_cons, beq_iff_eq,
      Option.some.injEq]
    omega

/-! ## The invariant -/

/-- Each pending operation is carried once by the handlers `hs` and the watchers, and no
other operation is carried. -/
structure Accounts (L : Licence η) (hs : List Handler) (ts : List Tracked) (s : Session η) :
    Prop where
  formed : ∀ h ∈ hs, h.Formed L
  /-- A handler that has an operation carries it, as long as it is pending. -/
  loyal : ∀ h ∈ hs, ∀ op, h.operation? = some op →
    op < s.operations.size ∧ (s.pending op = true → h.carried? s.timers = some op)
  carried : ∀ op, (s.carriedBy hs).count op = if s.pending op = true then 1 else 0
  timers : TimersFit hs s.timers
  watchers : WatchersFit ts s

namespace Accounts

variable {hs hs' : List Handler} {ts ts' : List Tracked} {s : Session η} {g : Handler}
  {op : OperationId}

/-- Accounts look at timers, subscribers and operations only. -/
theorem congr {t : Session η} (h : Accounts L hs ts s) (htimers : t.timers = s.timers)
    (hslots : t.slots = s.slots) (hfresh : t.freshConnection = s.freshConnection)
    (hops : t.operations = s.operations) : Accounts L hs ts t where
  formed := h.formed
  loyal := by simpa only [Session.pending_of_eq hops, hops, htimers] using h.loyal
  carried op := by
    rw [Session.pending_of_eq hops, ← h.carried op, Session.carriedBy, htimers, hslots]
    rfl
  timers := htimers ▸ h.timers
  watchers := h.watchers.congr hslots hfresh hops

/-- Whoever is away may be listed in any order. -/
theorem perm (h : Accounts L hs ts s) (hp : hs.Perm hs') (ht : ts.Perm ts') :
    Accounts L hs' ts' s where
  formed g hg := h.formed g (hp.mem_iff.2 hg)
  loyal g hg := h.loyal g (hp.mem_iff.2 hg)
  carried op := by
    rw [← h.carried op]
    exact ((hp.filterMap _).append_right _).symm.count_eq op
  timers := h.timers.perm hp
  watchers := h.watchers.perm ht

/-- Whoever carries an operation carries a pending one. -/
theorem pending_of_mem (h : Accounts L hs ts s) (hop : op ∈ s.carriedBy hs) :
    s.pending op = true := by
  have hcount := h.carried op
  have hpos := List.count_pos_iff.2 hop
  by_cases hp : s.pending op = true
  · exact hp
  · rw [if_neg hp] at hcount
    omega

/-- What a handler carries is pending. -/
theorem pending_of_handler (h : Accounts L hs ts s) (hg : g ∈ hs)
    (hop : g.carried? s.timers = some op) : s.pending op = true :=
  h.pending_of_mem (List.mem_append_left _ (List.mem_filterMap.2 ⟨g, hg, hop⟩))

/-- What a subscriber has is pending. -/
theorem pending_of_slot (h : Accounts L hs ts s) {slot : Slot} (hslot : slot ∈ s.slots)
    (hop : slot.subscriber.operation? = some op) : s.pending op = true :=
  h.pending_of_mem (List.mem_append_right _ (List.mem_filterMap.2 ⟨slot, hslot, hop⟩))

/-- Nobody else carries what a handler carries. -/
theorem not_mem_of_head (h : Accounts L (g :: hs) ts s) (hg : g.carried? s.timers = some op) :
    op ∉ s.carriedBy hs := by
  have hcount := h.carried op
  rw [Session.count_carriedBy_cons, if_pos hg] at hcount
  refine List.count_eq_zero.1 ?_
  split at hcount <;> omega

/-! ## Handlers that carry nothing -/

/-- A handler that carries nothing may go, if its timer, should it have one, is not armed. -/
theorem drop (h : Accounts L (g :: hs) ts s) (hg : g.carried? s.timers = none)
    (hi : ∀ id, g.timer? = some id → s.timers.active id = false) : Accounts L hs ts s where
  formed g' hg' := h.formed g' (List.mem_cons_of_mem g hg')
  loyal g' hg' := h.loyal g' (List.mem_cons_of_mem g hg')
  carried op := by
    rw [← h.carried op, Session.count_carriedBy_cons, hg]
    simp
  timers := by
    cases g with
    | timed id inner => exact h.timers.of_cons_inactive (hi id rfl)
    | _ => exact (TimersFit.cons_iff rfl).1 h.timers
  watchers := h.watchers

/-- A handler that carries nothing and has no timer may come. -/
theorem add (h : Accounts L hs ts s) (hf : g.Formed L) (hg : g.operation? = none)
    (ht : g.timer? = none) : Accounts L (g :: hs) ts s where
  formed g' hg' := by
    rcases List.mem_cons.1 hg' with rfl | hg'
    · exact hf
    · exact h.formed g' hg'
  loyal g' hg' := by
    rcases List.mem_cons.1 hg' with rfl | hg'
    · intro op hop
      rw [hg] at hop
      cases hop
    · exact h.loyal g' hg'
  carried op := by
    rw [← h.carried op, Session.count_carriedBy_cons,
      Handler.carried?_of_timer?_eq_none ht, hg]
    simp
  timers := (TimersFit.cons_iff ht).2 h.timers
  watchers := h.watchers

/-! ## Issue and completion -/

/-- An operation is issued to a handler. -/
theorem issue (h : Accounts L hs ts s) (hf : g.Formed L)
    (hop : g.operation? = some s.issue.1) (ht : g.timer? = none) :
    Accounts L (g :: hs) ts s.issue.2 where
  formed g' hg' := by
    rcases List.mem_cons.1 hg' with rfl | hg'
    · exact hf
    · exact h.formed g' hg'
  loyal g' hg' i hi := by
    have hsize : s.issue.2.operations.size = s.operations.size + 1 := Array.size_push ..
    rw [hsize, Session.pending_issue, Bool.or_eq_true]
    rcases List.mem_cons.1 hg' with rfl | hg'
    · rw [hop, Option.some.injEq] at hi
      subst hi
      exact ⟨Nat.lt_succ_self _,
        fun _ => (Handler.carried?_of_timer?_eq_none ht _).trans hop⟩
    · obtain ⟨hlt, hcarried⟩ := h.loyal g' hg' i hi
      refine ⟨Nat.lt_succ_of_lt hlt, fun hp => hcarried (hp.resolve_right fun heq => ?_)⟩
      exact Nat.ne_of_lt hlt (beq_iff_eq.1 heq)
  carried op := by
    rw [Session.count_carriedBy_cons, Handler.carried?_of_timer?_eq_none ht, hop]
    have hcount : (s.issue.2.carriedBy hs).count op = _ := h.carried op
    rw [hcount, Session.pending_issue]
    by_cases hne : op = s.issue.1
    · subst hne
      simp [Session.pending_fresh]
    · simp [hne, Ne.symm hne]
  timers := (TimersFit.cons_iff ht).2 h.timers
  watchers := h.watchers.issue

/-- A handler completes the operation that it carries. -/
theorem complete (h : Accounts L (g :: hs) ts s) (hop : g.operation? = some op)
    (ht : g.timer? = none) (outcome : Except Failure Outcome) :
    Accounts L hs ts (s.complete op outcome) where
  formed g' hg' := h.formed g' (List.mem_cons_of_mem g hg')
  loyal g' hg' i hi := by
    rw [Session.size_operations_complete, Session.pending_complete, Session.complete_timers,
      Bool.and_eq_true]
    exact (h.loyal g' (List.mem_cons_of_mem g hg') i hi).imp_right fun hc hp => hc hp.1
  carried i := by
    have hcount := h.carried i
    rw [Session.count_carriedBy_cons, Handler.carried?_of_timer?_eq_none ht, hop] at hcount
    have hsame : (s.complete op outcome).carriedBy hs = s.carriedBy hs := by
      simp [Session.carriedBy]
    rw [hsame, Session.pending_complete]
    by_cases hi : i = op
    · subst hi
      simp only [if_true, bne_self_eq_false, Bool.and_false, Bool.false_eq_true,
        if_false] at hcount ⊢
      split at hcount <;> omega
    · have hi' : ¬some op = some i := fun heq => hi (Option.some.inj heq).symm
      rw [if_neg hi', Nat.zero_add] at hcount
      simpa [hi] using hcount
  timers := by simpa using (TimersFit.cons_iff ht).1 h.timers
  watchers := h.watchers.complete op outcome

/-- An operation is handed over from one handler to another. -/
theorem swap {g' : Handler} (h : Accounts L (g :: hs) ts s) (hf : g'.Formed L)
    (hop : g'.operation? = g.operation?) (ht : g.timer? = none) (ht' : g'.timer? = none) :
    Accounts L (g' :: hs) ts s where
  formed x hx := by
    rcases List.mem_cons.1 hx with rfl | hx
    · exact hf
    · exact h.formed x (List.mem_cons_of_mem g hx)
  loyal x hx := by
    rcases List.mem_cons.1 hx with rfl | hx
    · rw [Handler.carried?_of_timer?_eq_none ht', hop,
        ← Handler.carried?_of_timer?_eq_none ht s.timers]
      exact fun op hop => h.loyal g List.mem_cons_self op
        ((Handler.carried?_of_timer?_eq_none ht _).symm.trans hop)
    · exact h.loyal x (List.mem_cons_of_mem g hx)
  carried op := by
    rw [← h.carried op, Session.count_carriedBy_cons, Session.count_carriedBy_cons,
      Handler.carried?_of_timer?_eq_none ht, Handler.carried?_of_timer?_eq_none ht', hop]
  timers := (TimersFit.cons_iff ht').2 ((TimersFit.cons_iff ht).1 h.timers)
  watchers := h.watchers

/-! ## Timers -/

/-- Disarming the timer of a wait leaves a plain wait. -/
theorem disarm {id : TimerId} {p : Pattern} (h : Accounts L (.timed id (.wait p op) :: hs) ts s)
    (hid : s.timers.active id = true) : Accounts L (.wait p op :: hs) ts (s.disarm id) where
  formed g' hg' := by
    rcases List.mem_cons.1 hg' with rfl | hg'
    · exact h.formed (.timed id (.wait p op)) List.mem_cons_self
    · exact h.formed g' (List.mem_cons_of_mem _ hg')
  loyal g' hg' i hi := by
    rcases List.mem_cons.1 hg' with rfl | hg'
    · exact ⟨(h.loyal (.timed id (.wait p op)) List.mem_cons_self i hi).1, fun _ => hi⟩
    · have hsame : g'.carried? (s.disarm id).timers = g'.carried? s.timers :=
        h.timers.carried?_disarm hg'
      rw [hsame]
      exact h.loyal g' (List.mem_cons_of_mem _ hg') i hi
  carried i := by
    have hcount : _ = if (s.disarm id).pending i = true then 1 else 0 := h.carried i
    rw [← hcount, Session.count_carriedBy_cons, Session.count_carriedBy_cons]
    have hhead : Handler.carried? s.timers (.timed id (.wait p op)) = some op := by
      simp [Handler.carried?, hid, Handler.operation?]
    have hrest : (s.disarm id).carriedBy hs = s.carriedBy hs := by
      unfold Session.carriedBy
      congr 1
      exact List.filterMap_congr fun g hg => h.timers.carried?_disarm hg
    rw [hhead, hrest]
    rfl
  timers := h.timers.disarm
  watchers := h.watchers.congr rfl rfl rfl

/-- A plain wait is put behind a new timer. -/
theorem arm {p : Pattern} (h : Accounts L (.wait p op :: hs) ts s) (deadline : Nat) :
    Accounts L (.timed s.timers.fresh (.wait p op) :: hs) ts
      { s with timers := (s.timers.arm deadline op).2 } where
  formed g' hg' := by
    rcases List.mem_cons.1 hg' with rfl | hg'
    · exact h.formed (.wait p op) List.mem_cons_self
    · exact h.formed g' (List.mem_cons_of_mem _ hg')
  loyal g' hg' i hi := by
    rcases List.mem_cons.1 hg' with rfl | hg'
    · refine ⟨(h.loyal (.wait p op) List.mem_cons_self i hi).1, fun _ => ?_⟩
      have hactive : (s.timers.arm deadline op).2.active s.timers.fresh = true := by
        simp [Timers.active_arm]
      exact (if_pos hactive).trans hi
    · have hsame := ((TimersFit.cons_iff rfl).1 h.timers).carried?_arm deadline op hg'
      simp only [hsame]
      exact h.loyal g' (List.mem_cons_of_mem _ hg') i hi
  carried i := by
    have hcount : _ = if Session.pending { s with timers := (s.timers.arm deadline op).2 } i = true
      then 1 else 0 := h.carried i
    rw [← hcount, Session.count_carriedBy_cons, Session.count_carriedBy_cons]
    have hhead : Handler.carried? (s.timers.arm deadline op).2
        (.timed s.timers.fresh (.wait p op)) = some op := by
      simp [Handler.carried?, Timers.active_arm, Handler.operation?]
    have hrest : Session.carriedBy hs { s with timers := (s.timers.arm deadline op).2 } =
        s.carriedBy hs := by
      unfold Session.carriedBy
      congr 1
      exact List.filterMap_congr fun g hg =>
        ((TimersFit.cons_iff rfl).1 h.timers).carried?_arm deadline op hg
    rw [hrest]
    simp only [hhead]
    rfl
  timers := h.timers.arm deadline
  watchers := h.watchers.congr rfl rfl rfl

/-- Nobody carries the operation of a timer that was due any longer. -/
theorem not_carried_of_due (h : Accounts L hs ts s)
    (hdue : op ∈ (s.timers.expire s.now).1) : op ∉ s.expireTimers.carriedBy hs := by
  obtain ⟨e, he, hle, rfl⟩ := Timers.mem_alarms_expire.1 hdue
  -- The handler of the timer was the only one to carry the operation.
  obtain ⟨p, hp⟩ := h.timers.armed e he
  have hperm := List.perm_cons_erase hp
  have hother := (h.perm hperm (List.Perm.refl ts)).not_mem_of_head
    ((h.timers.carried?_timed hp).2 ⟨e, he, rfl, rfl⟩)
  refine fun hmem => hother ?_
  rw [Session.carriedBy, Session.expireTimers_eq] at hmem
  rcases List.mem_append.1 hmem with hmem | hmem
  · obtain ⟨g, hg, hc⟩ := List.mem_filterMap.1 hmem
    refine List.mem_append_left _ (List.mem_filterMap.2
      ⟨g, ?_, h.timers.carried?_of_expire hg hc⟩)
    rcases List.mem_cons.1 (hperm.mem_iff.1 hg) with rfl | hg
    · obtain ⟨e', he', hid, -⟩ := ((h.timers.expire s.now).carried?_timed hp).1 hc
      obtain ⟨he', hlt⟩ := List.mem_filter.1 he'
      rw [List.inj_on_of_nodup_map h.timers.armed_nodup he' he hid] at hlt
      exact absurd hle (by simpa using hlt)
    · exact hg
  · exact List.mem_append_right _ hmem

/-- All other operations are carried as before. -/
theorem count_carriedBy_expire (h : Accounts L hs ts s)
    (hdue : op ∉ (s.timers.expire s.now).1) :
    (s.expireTimers.carriedBy hs).count op = (s.carriedBy hs).count op := by
  have hsame (g : Handler) (hg : g ∈ hs) :
      g.carried? (s.timers.expire s.now).2 = some op ↔ g.carried? s.timers = some op :=
    ⟨h.timers.carried?_of_expire hg,
      fun hc => (h.timers.carried?_expire s.now hg hc).resolve_right hdue⟩
  rw [Session.carriedBy, Session.carriedBy, Session.expireTimers_eq, List.count_append,
    List.count_append]
  congr 1
  rw [List.count_filterMap, List.count_filterMap]
  refine List.countP_congr fun g hg => ?_
  rw [beq_iff_eq, beq_iff_eq]
  exact hsame g hg

/-- Expiry fails the operations of the timers that are due, and their handlers carry them
no longer. -/
theorem expire (h : Accounts L hs ts s) : Accounts L hs ts s.expireTimers where
  formed := h.formed
  loyal g hg op hop := by
    have htimers : s.expireTimers.timers = (s.timers.expire s.now).2 := by
      rw [Session.expireTimers_eq]
    rw [Session.size_operations_expireTimers, Session.pending_expireTimers, htimers]
    obtain ⟨hlt, hcarried⟩ := h.loyal g hg op hop
    refine ⟨hlt, fun hp => ?_⟩
    simp only [Bool.and_eq_true, Bool.not_eq_true', decide_eq_false_iff_not] at hp
    exact (h.timers.carried?_expire s.now hg (hcarried hp.1)).resolve_right hp.2
  carried op := by
    rw [Session.pending_expireTimers]
    by_cases hdue : op ∈ (s.timers.expire s.now).1
    · rw [List.count_eq_zero.2 (h.not_carried_of_due hdue)]
      simp [hdue]
    · rw [h.count_carriedBy_expire hdue, h.carried op]
      simp [hdue]
  timers := by
    rw [Session.expireTimers_eq]
    exact h.timers.expire s.now
  watchers := h.watchers.expire

/-! ## Watchers -/

/-- An operation is handed over from a handler to a watcher, which is listed. -/
theorem subscribe_watcher (h : Accounts L (g :: hs) ts s) (hop : g.operation? = some op)
    (ht : g.timer? = none) (event : Event) (watch : Watch) :
    Accounts L hs (⟨s.freshConnection, op⟩ :: ts)
      (s.subscribe event (.watcher watch op)).2 where
  formed g' hg' := h.formed g' (List.mem_cons_of_mem g hg')
  loyal g' hg' := h.loyal g' (List.mem_cons_of_mem g hg')
  carried i := by
    have hcount := h.carried i
    rw [Session.count_carriedBy_cons, Handler.carried?_of_timer?_eq_none ht, hop] at hcount
    have hpending : (s.subscribe event (.watcher watch op)).2.pending i = s.pending i := rfl
    have hcarried : (s.subscribe event (.watcher watch op)).2.carriedBy hs =
        s.carriedBy hs ++ [op] := by
      rw [Session.carriedBy, Session.slots_subscribe, List.filterMap_append, ← List.append_assoc]
      rfl
    rw [hpending, ← hcount, hcarried, List.count_append, List.count_singleton]
    simp only [beq_iff_eq, Option.some.injEq, Nat.add_comm]
  timers := (TimersFit.cons_iff ht).1 h.timers
  watchers := by
    have hpending := h.pending_of_handler List.mem_cons_self
      ((Handler.carried?_of_timer?_eq_none ht s.timers).trans hop)
    refine h.watchers.subscribe event (.watcher watch op) ?_
    rintro _ ⟨⟩
    exact Session.pending_lt hpending

/-- The application attaches a subscriber. -/
theorem subscribe_application (h : Accounts L hs ts s) (event : Event)
    (callback : CallbackId) :
    Accounts L hs ts (s.subscribe event (.application callback)).2 where
  formed := h.formed
  loyal := h.loyal
  carried i := by
    have hcount : _ = if (s.subscribe event (.application callback)).2.pending i = true
      then 1 else 0 := h.carried i
    have htimers : (s.subscribe event (.application callback)).2.timers = s.timers := rfl
    rw [← hcount]
    simp [Session.carriedBy, htimers, Subscriber.operation?]
  timers := h.timers
  watchers := h.watchers.subscribe event (.application callback) (by rintro _ ⟨⟩)

/-- The application detaches a subscriber of its own. -/
theorem disconnect_application (h : Accounts L hs ts s) {connection : Connection}
    (hown : ∀ slot ∈ s.slots, slot.connection = connection →
      slot.subscriber.operation? = none) : Accounts L hs ts (s.disconnect connection) where
  formed := h.formed
  loyal := h.loyal
  carried i := by
    have hcount : _ = if (s.disconnect connection).pending i = true then 1 else 0 :=
      h.carried i
    rw [← hcount]
    unfold Session.carriedBy
    congr 2
    rw [Session.slots_disconnect, List.filterMap_filter]
    refine List.filterMap_congr fun slot hslot => ?_
    by_cases hc : slot.connection = connection
    · simp [hc, hown slot hslot hc]
    · simp [hc]
  timers := h.timers
  watchers := by
    refine h.watchers.disconnect connection fun t ht hc => ?_
    cases hp : s.pending t.operation with
    | false => rfl
    | true =>
      obtain ⟨slot, hslot, heq⟩ := Session.isConnected_iff.1 (h.watchers.attached t ht hp)
      have hop := h.watchers.watcher t ht slot hslot heq
      rw [hown slot hslot (heq.trans hc)] at hop
      cases hop

/-- The slots with that of one connection in front. -/
theorem perm_slots {slots : List Slot} (hn : (slots.map Slot.connection).Nodup) {slot : Slot}
    (hslot : slot ∈ slots) :
    slots.Perm (slot :: slots.filter (·.connection != slot.connection)) := by
  induction slots with
  | nil => cases hslot
  | cons x slots ih =>
    simp only [List.map_cons, List.nodup_cons] at hn
    have hx : ∀ y ∈ slots, y.connection ≠ x.connection := fun y hy heq =>
      hn.1 (heq ▸ List.mem_map_of_mem hy)
    rcases List.mem_cons.1 hslot with rfl | hmem
    · have hall : slots.filter (·.connection != slot.connection) = slots :=
        List.filter_eq_self.2 fun y hy => by simp [hx y hy]
      simp [hall]
    · have hne : x.connection ≠ slot.connection := (hx slot hmem).symm
      rw [List.filter_cons_of_pos (by simp [hne])]
      exact ((ih hn.2 hmem).cons x).trans (List.Perm.swap ..)

/-- A watcher completes the operation that it carries, and detaches. -/
theorem fire (h : Accounts L hs ts s) {slot : Slot} (hslot : slot ∈ s.slots)
    (hop : slot.subscriber.operation? = some op) (outcome : Except Failure Outcome) :
    Accounts L hs ts ((s.disconnect slot.connection).complete op outcome) where
  formed := h.formed
  loyal g hg i hi := by
    rw [Session.size_operations_complete, Session.pending_complete, Session.complete_timers,
      Bool.and_eq_true]
    exact (h.loyal g hg i hi).imp_right fun hc hp => hc hp.1
  carried i := by
    have hcount := h.carried i
    have hperm := (perm_slots s.slots_nodup hslot).filterMap
      (fun x : Slot => x.subscriber.operation?)
    have hhead (rest : List Slot) : (slot :: rest).filterMap (fun x => x.subscriber.operation?) =
        op :: rest.filterMap fun x => x.subscriber.operation? := by
      simp [hop]
    rw [Session.carriedBy, List.count_append, hperm.count_eq, hhead, List.count_cons] at hcount
    have hsame : ((s.disconnect slot.connection).complete op outcome).carriedBy hs =
        hs.filterMap (Handler.carried? s.timers) ++
          (s.slots.filter (·.connection != slot.connection)).filterMap
            (·.subscriber.operation?) := by
      rw [Session.carriedBy, Session.complete_slots, Session.slots_disconnect,
        Session.complete_timers]
      rfl
    have hpending : (s.disconnect slot.connection).pending i = s.pending i := rfl
    rw [hsame, Session.pending_complete, hpending, List.count_append]
    by_cases hi : i = op
    · subst hi
      simp only [beq_self_eq_true, if_true, bne_self_eq_false, Bool.and_false,
        Bool.false_eq_true, if_false] at hcount ⊢
      split at hcount <;> omega
    · have hi' : (op == i) = false := by simpa using Ne.symm hi
      simp only [hi', Bool.false_eq_true, if_false, Nat.add_zero] at hcount
      simpa [hi] using hcount
  timers := by
    rw [Session.complete_timers]
    exact h.timers
  watchers := by
    -- The operation is decided first, so nothing pending depends on the connection.
    have hcomm : (s.disconnect slot.connection).complete op outcome =
        (s.complete op outcome).disconnect slot.connection := rfl
    rw [hcomm]
    refine (h.watchers.complete op outcome).disconnect slot.connection fun t ht hc => ?_
    have heq := h.watchers.watcher t ht slot hslot hc.symm
    rw [hop, Option.some.injEq] at heq
    rw [Session.pending_complete, heq]
    simp

/-- Listed operations that are done may go. -/
theorem sublist (h : Accounts L hs ts s) (hsub : ts'.Sublist ts)
    (hdone : ∀ t ∈ ts, t ∉ ts' → s.isDone t = true) : Accounts L hs ts' s where
  formed := h.formed
  loyal := h.loyal
  carried := h.carried
  timers := h.timers
  watchers := h.watchers.sublist hsub (fun _ hslot _ hop => h.pending_of_slot hslot hop) hdone

end Accounts

end ZigbeeHost
