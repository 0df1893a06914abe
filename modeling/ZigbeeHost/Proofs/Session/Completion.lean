import ZigbeeHost.Proofs.Session.Sound
/-!
# Every operation is completed once

`Session.carriers op` are those who are to complete an operation : handlers of the chain
and watchers. A pending operation has one carrier, all others have none
(`Sound.length_carriers`). A teardown leaves no operation undecided that was pending when
it started (`Sound.shutdown_decides`), whatever the application does when its handlers are
aborted : the handler that has a pending operation carries it until its turn comes, and so
does the watcher that is tracked.
-/

namespace ZigbeeHost

variable {η : Type} {L : Licence η}

/-! ## Carriers -/

/-- Who is to complete an operation. -/
inductive Carrier where
  | handler (h : Handler)
  | watcher (slot : Slot)
  deriving DecidableEq

/-- The handler is to complete the operation : it waits for the answer to a request, or
for another frame, and its timer, should it have one, is armed. -/
def Handler.carries (timers : Timers OperationId) (op : OperationId) : Handler → Bool
  | response _ aftermath => aftermath.operation? == some op
  | wait _ op' => op' == op
  | timed timer (wait _ op') => timers.active timer && op' == op
  | _ => false

/-- The carriers of an operation : handlers in the chain, and subscribers that are
attached and whose operation is tracked. -/
def Session.carriers (s : Session η) (op : OperationId) : List Carrier :=
  (s.chain.filter (Handler.carries s.timers op)).map .handler ++
    (s.slots.filter fun slot => slot.subscriber.operation? == some op &&
      decide (⟨slot.connection, op⟩ ∈ s.tracked)).map .watcher

/-- A handler that is well formed carries what it is reckoned to carry. -/
theorem Handler.Formed.carries_eq {h : Handler} (hf : h.Formed L)
    (timers : Timers OperationId) (op : OperationId) :
    h.carries timers op = (h.carried? timers == some op) := by
  cases h with
  | timed id inner =>
    cases inner with
    | wait p op' =>
      simp only [carries, carried?, operation?]
      cases timers.active id <;> simp
    | _ => exact hf.elim
  | _ => simp [carries, carried?, operation?]

/-- A pending operation has one carrier, and all others have none. -/
theorem Sound.length_carriers {s : Session η} (h : Sound L [] [] s) (op : OperationId) :
    (s.carriers op).length = if s.pending op = true then 1 else 0 := by
  have hhandlers : (s.chain.filter (Handler.carries s.timers op)).length =
      (s.chain.filterMap (Handler.carried? s.timers)).count op := by
    rw [List.count_filterMap, ← List.countP_eq_length_filter]
    refine List.countP_congr fun g hg => ?_
    rw [(h.formed g hg).carries_eq]
  have hwatchers : (s.slots.filter fun slot => slot.subscriber.operation? == some op &&
      decide (⟨slot.connection, op⟩ ∈ s.tracked)).length =
        (s.slots.filterMap (·.subscriber.operation?)).count op := by
    rw [List.count_filterMap, ← List.countP_eq_length_filter]
    refine List.countP_congr fun slot hslot => ?_
    rw [Bool.and_eq_true, beq_iff_eq, decide_eq_true_iff]
    exact and_iff_left_of_imp fun hop => h.watchers.listed slot hslot op hop
  rw [Session.carriers, List.length_append, List.length_map, List.length_map, hhandlers,
    hwatchers, ← List.count_append]
  exact h.carried op

/-! ## Teardowns -/

namespace Session

/-- An operation has an outcome if it was issued and is not pending. -/
theorem isSome_outcome?_iff {s : Session η} {op : OperationId} :
    (s.outcome? op).isSome = true ↔ op < s.operations.size ∧ s.pending op = false := by
  unfold outcome? pending Ledger.outcome? Ledger.pending
  rcases Nat.lt_or_ge op s.operations.size with hop | hop
  · rw [Array.getElem?_eq_getElem hop]
    cases s.operations[op] <;> simp [hop]
  · rw [Array.getElem?_eq_none hop]
    simp [Nat.not_lt.2 hop]

/-- Whoever completes an operation leaves it with an outcome. -/
theorem isSome_outcome?_complete {s : Session η} {op : OperationId}
    (hop : op < s.operations.size) (outcome : Except Failure Outcome) :
    ((s.complete op outcome).outcome? op).isSome = true := by
  rw [isSome_outcome?_iff, size_operations_complete, pending_complete]
  simp [hop]

/-- What has an outcome keeps it. -/
theorem Outlives.isSome {s t : Session η} (h : Outlives s t) {op : OperationId}
    (ho : (s.outcome? op).isSome = true) : (t.outcome? op).isSome = true := by
  obtain ⟨outcome, ho⟩ := Option.isSome_iff_exists.1 ho
  rw [h op outcome ho]
  rfl

end Session

namespace Sound

variable {away : List Handler} {owed : List Tracked} {s : Session η} {app : Application η}

/-- A handler has a pending operation only if it carries it. -/
theorem carried?_of_pending {g : Handler} {op : OperationId} (h : Sound L (g :: away) owed s)
    (hop : g.operation? = some op) (hp : s.pending op = true) :
    g.carried? s.timers = some op :=
  (h.loyal g List.mem_cons_self op hop).2 hp

/-- When a handler is aborted, the operation that it has is decided, if it was not yet. -/
theorem abort_decides {g : Handler} {op : OperationId} (h : Sound L (g :: away) owed s)
    (happ : app.Keeps L fun s _ t => Session.Outlives s t) (e : Failure)
    (hop : g.operation? = some op) : ((g.abort app e s).outcome? op).isSome = true := by
  have hissued := (h.loyal g List.mem_cons_self op hop).1
  cases hp : s.pending op with
  | false =>
    exact (Session.narrow_outlives.stable.abort happ e g s).isSome
      (Session.isSome_outcome?_iff.2 ⟨hissued, hp⟩)
  | true =>
    have hcarried := h.carried?_of_pending hop hp
    cases g with
    | indication kind command event lenient => cases hop
    | response accepted a =>
      cases a with
      | application callback => cases hop
      | _ =>
        cases hop
        exact Session.isSome_outcome?_complete hissued _
    | wait pattern op' =>
      cases hop
      exact Session.isSome_outcome?_complete hissued _
    | timed id inner =>
      obtain ⟨p, op', rfl⟩ := h.inner_eq
      cases hop
      cases hid : s.timers.active id with
      | true =>
        rw [Handler.abort, if_pos hid]
        exact Session.isSome_outcome?_complete (s := s.disarm id) hissued _
      | false => simp [Handler.carried?, hid] at hcarried
    | custom callback permanent => cases hop

/-- When a chain is torn down, the operations that its handlers have are decided. -/
theorem drain_decides (hkeeps : app.Keeps L (Session.Upholds L))
    (happ : app.Keeps L fun s _ t => Session.Outlives s t) (e : Failure)
    (chain : List Handler) (h : Sound L (chain ++ away) owed s) {g : Handler}
    (hg : g ∈ chain) {op : OperationId} (hop : g.operation? = some op) :
    ((Chain.drain Handler.permanent (Handler.abort app e) chain s).2.outcome? op).isSome =
      true := by
  induction chain generalizing s away with
  | nil => cases hg
  | cons x behind ih =>
    cases hperm : x.permanent with
    | true =>
      have hx := (h.formed x List.mem_cons_self).operation?_of_permanent hperm
      have hbehind : g ∈ behind := by
        rcases List.mem_cons.1 hg with rfl | hg
        · rw [hx] at hop
          cases hop
        · exact hg
      rw [Chain.drain_cons_of_permanent behind s hperm]
      exact ih (h.perm List.perm_middle.symm (List.Perm.refl _)) hbehind
    | false =>
      rw [Chain.drain_cons_of_not_permanent behind s hperm]
      rcases List.mem_cons.1 hg with rfl | hbehind
      · exact (Session.narrow_outlives.stable.drain happ e behind _).isSome
          (abort_decides h happ e hop)
      · exact ih (abort hkeeps h e) hbehind

/-- When tracked operations are aborted, they are decided. -/
theorem abortTracked_decides (e : Failure) (ts : List Tracked) (s : Session η) {x : Tracked}
    (hx : x ∈ ts) (hissued : x.operation < s.operations.size) :
    ((ts.foldl (Session.abortTracked e) s).outcome? x.operation).isSome = true := by
  induction ts generalizing s with
  | nil => cases hx
  | cons y ts ih =>
    rcases List.mem_cons.1 hx with rfl | hx
    · exact (Session.narrow_outlives.stable.abortTracked e ts _).isSome
        (Session.isSome_outcome?_complete (s := s.disconnect x.connection) hissued _)
    · refine ih _ hx ?_
      rw [Session.abortTracked, Session.size_operations_complete]
      exact hissued

/-- A teardown outside of dispatches leaves nothing undecided of what was pending. -/
theorem shutdown_decides (h : Sound L [] [] s) (hdepth : s.depth = 0) (happ : Lawful L app)
    (e : Failure) {op : OperationId} (hp : s.pending op = true) :
    ((s.shutdown app e).outcome? op).isSome = true := by
  have hmem : op ∈ s.carriedBy s.chain := by
    have hcount := h.carried op
    rw [if_pos hp] at hcount
    exact List.count_pos_iff.1 (hcount ▸ Nat.one_pos)
  rw [Session.shutdown, if_pos hdepth]
  rcases List.mem_append.1 hmem with hmem | hmem
  · obtain ⟨g, hg, hc⟩ := List.mem_filterMap.1 hmem
    have hdrained := h.cleared.drain_decides happ.upholds happ.outlives e s.chain hg
      (Handler.operation?_of_carried? hc)
    exact (Session.narrow_outlives.stable.abortTracked e s.tracked _).isSome hdrained
  · obtain ⟨slot, hslot, hop⟩ := List.mem_filterMap.1 hmem
    have htracked : ⟨slot.connection, op⟩ ∈ s.tracked := h.watchers.listed slot hslot op hop
    have hdrained := h.cleared.drain happ.upholds s.chain e
    have hissued := hdrained.watchers.issued ⟨slot.connection, op⟩
      (List.mem_append_left _ (List.mem_append_left _ htracked))
    exact abortTracked_decides e s.tracked _ htracked hissued

end Sound

/-! ## Reachable sessions -/

/-- An operation is completed at most once : no run takes its outcome back, and nobody
carries it any more. Until then it has one carrier, a handler of the chain or a watcher that
is attached and tracked. So each operation can be brought to an end : a teardown decides it,
if nothing else does. -/
theorem Reachable.completed_once {s : Session η} (hs : Reachable L s) (op : OperationId) :
    (∀ u ws t outcome, Uses L u ws t → u.outcome? op = some outcome →
      t.outcome? op = some outcome) ∧
    (∀ outcome, s.outcome? op = some outcome → s.carriers op = []) ∧
    (s.pending op = true → ∃ c, s.carriers op = [c]) ∧
    (s.pending op = true → ∀ app e, Lawful L app →
      ((s.shutdown app e).outcome? op).isSome = true) := by
  have hlength := hs.sound.length_carriers op
  refine ⟨fun u ws t outcome h => h.outlives op outcome, fun outcome ho => ?_, fun hp => ?_,
    fun hp app e happ => hs.sound.shutdown_decides hs.calm.1 happ e hp⟩
  · have hdecided : (s.outcome? op).isSome = true := by
      rw [ho]
      rfl
    rw [(Session.isSome_outcome?_iff.1 hdecided).2] at hlength
    exact List.eq_nil_of_length_eq_zero hlength
  · rw [if_pos hp] at hlength
    exact List.length_eq_one_iff.1 hlength

/-- The operation of a ping has a carrier. -/
theorem pinged_carried : ∃ c, Session.pinged.carriers 0 = [c] :=
  (Reachable.completed_once .pinged 0).2.2.1 rfl

end ZigbeeHost
