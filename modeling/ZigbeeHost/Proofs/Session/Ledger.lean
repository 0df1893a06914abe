import ZigbeeHost.Proofs.Ledger
import ZigbeeHost.Proofs.Session.Subscribers
import ZigbeeHost.Proofs.Session.Use
/-!
# The ledger of operations

An operation is `pending` from its issue until it is decided. The lemmas say how issue,
completion and expiry change the ledger, and that they change little else.
-/

namespace ZigbeeHost

variable {η : Type}

namespace Session

/-! ## Fields -/

/-- The operation is issued and not decided. -/
def pending (s : Session η) (op : OperationId) : Bool := s.operations.pending op

theorem pending_iff {s : Session η} {op : OperationId} :
    s.pending op = true ↔ s.operations[op]? = some none := Ledger.pending_iff

theorem pending_of_eq {s t : Session η} (h : t.operations = s.operations) (op : OperationId) :
    t.pending op = s.pending op := by
  unfold pending
  rw [h]

theorem outcome?_eq_some_iff {s : Session η} {op : OperationId}
    {outcome : Except Failure Outcome} :
    s.outcome? op = some outcome ↔ s.operations[op]? = some (some outcome) :=
  Ledger.outcome?_eq_some_iff

theorem outcome?_of_eq {s t : Session η} {op : OperationId}
    (h : t.operations[op]? = s.operations[op]?) : t.outcome? op = s.outcome? op := by
  unfold outcome? Ledger.outcome?
  rw [h]

theorem outcome?_of_pending {s : Session η} {op : OperationId} (h : s.pending op = true) :
    s.outcome? op = none := by
  rw [outcome?, Ledger.outcome?, pending_iff.1 h]
  rfl

section Fields

variable (s : Session η) (op : OperationId) (outcome : Except Failure Outcome)

/-- Completing an operation changes nothing but the ledger. -/
theorem complete_eq :
    s.complete op outcome = { s with operations := (s.complete op outcome).operations } := rfl

@[simp] theorem complete_chain : (s.complete op outcome).chain = s.chain := by
  rw [complete_eq]

@[simp] theorem complete_timers : (s.complete op outcome).timers = s.timers := by
  rw [complete_eq]

@[simp] theorem complete_subscribers : (s.complete op outcome).subscribers = s.subscribers := by
  rw [complete_eq]

@[simp] theorem complete_slots : (s.complete op outcome).slots = s.slots :=
  congrArg Roster.live (complete_subscribers ..)

@[simp] theorem complete_freshConnection :
    (s.complete op outcome).freshConnection = s.freshConnection :=
  congrArg Roster.fresh (complete_subscribers ..)

@[simp] theorem complete_tracked : (s.complete op outcome).tracked = s.tracked := by
  rw [complete_eq]

@[simp] theorem complete_outbound : (s.complete op outcome).outbound = s.outbound := by
  rw [complete_eq]

@[simp] theorem complete_depth : (s.complete op outcome).depth = s.depth := by
  rw [complete_eq]

@[simp] theorem complete_deferred : (s.complete op outcome).deferred = s.deferred := by
  rw [complete_eq]

@[simp] theorem complete_host : (s.complete op outcome).host = s.host := by
  rw [complete_eq]

/-- A pending operation takes the outcome. All other entries of the ledger stay. -/
theorem operations_complete (i : OperationId) :
    (s.complete op outcome).operations[i]? =
      if i = op ∧ s.pending op = true then some (some outcome) else s.operations[i]? :=
  Ledger.getElem?_complete i

theorem outcome?_complete (hp : s.pending op = true) :
    (s.complete op outcome).outcome? op = some outcome := by
  rw [outcome?_eq_some_iff, operations_complete, if_pos ⟨rfl, hp⟩]

theorem pending_complete (i : OperationId) :
    (s.complete op outcome).pending i = (s.pending i && i != op) := by
  rw [Bool.eq_iff_iff, pending_iff, operations_complete]
  by_cases hi : i = op
  · subst hi
    cases hp : s.pending i with
    | true => simp
    | false => simp [← pending_iff, hp]
  · simp [hi, pending_iff]

theorem size_operations_complete :
    (s.complete op outcome).operations.size = s.operations.size := Ledger.size_complete ..

theorem disarm_complete (timer : TimerId) :
    (s.complete op outcome).disarm timer = (s.disarm timer).complete op outcome := rfl

/-- An operation that is not pending takes no outcome. -/
theorem complete_of_not_pending (hp : s.pending op = false) : s.complete op outcome = s := by
  simp only [complete, Ledger.complete_of_not_pending hp]

theorem operations_issue (i : OperationId) :
    s.issue.2.operations[i]? =
      if i = s.operations.size then some none else s.operations[i]? :=
  Array.getElem?_push

theorem pending_issue (i : OperationId) :
    s.issue.2.pending i = (s.pending i || i == s.issue.1) := by
  unfold pending Ledger.pending
  rw [operations_issue]
  by_cases hi : i = s.operations.size
  · simp [hi, issue]
  · simp [hi, issue]

/-- An operation that is not issued yet is not pending. -/
theorem pending_fresh : s.pending s.issue.1 = false := by
  simp [pending, Ledger.pending, issue]

variable (w : Wait)

/-- Installing a wait changes nothing but the chain and the timers. -/
theorem install_eq :
    s.install w = { s with chain := (s.install w).chain, timers := (s.install w).timers } := by
  unfold install
  split <;> rfl

@[simp] theorem install_operations : (s.install w).operations = s.operations := by
  rw [install_eq]

@[simp] theorem install_subscribers : (s.install w).subscribers = s.subscribers := by
  rw [install_eq]

@[simp] theorem install_slots : (s.install w).slots = s.slots :=
  congrArg Roster.live (install_subscribers ..)

@[simp] theorem install_freshConnection :
    (s.install w).freshConnection = s.freshConnection :=
  congrArg Roster.fresh (install_subscribers ..)

@[simp] theorem install_outbound : (s.install w).outbound = s.outbound := by
  rw [install_eq]

@[simp] theorem install_depth : (s.install w).depth = s.depth := by
  rw [install_eq]

@[simp] theorem install_deferred : (s.install w).deferred = s.deferred := by
  rw [install_eq]

@[simp] theorem install_host : (s.install w).host = s.host := by
  rw [install_eq]

/-- Expiry changes nothing but the ledger and the timers. -/
theorem expireTimers_eq :
    s.expireTimers = { s with
      operations := s.expireTimers.operations
      timers := (s.timers.expire s.now).2 } := by
  let fired := { s with timers := (s.timers.expire s.now).2 }
  exact List.foldlRecOn (s.timers.expire s.now).1 (fun t op => t.complete op (.error .timeout))
    (motive := fun t : Session η => t = { fired with operations := t.operations }) rfl
    fun t ht op _ => (complete_eq t op _).trans (congrArg (fun u : Session η =>
      { u with operations := (t.complete op (.error .timeout)).operations }) ht)

theorem size_operations_expireTimers :
    s.expireTimers.operations.size = s.operations.size :=
  List.foldlRecOn (s.timers.expire s.now).1 (fun t op => t.complete op (.error .timeout))
    (motive := fun t : Session η => t.operations.size = s.operations.size) rfl
    fun t ht op _ => (size_operations_complete t op _).trans ht

/-- Expiry fails the operations of the timers that are due. -/
theorem pending_expireTimers :
    s.expireTimers.pending op = (s.pending op && !decide (op ∈ (s.timers.expire s.now).1)) := by
  have hfold : ∀ (alarms : List OperationId) (t : Session η),
      (alarms.foldl (fun t i => t.complete i (.error .timeout)) t).pending op =
        (t.pending op && !decide (op ∈ alarms)) := by
    intro alarms
    induction alarms with
    | nil => simp
    | cons i alarms ih =>
      intro t
      rw [List.foldl_cons, ih, pending_complete]
      by_cases hi : op = i
      · simp [hi]
      · simp [hi, bne_iff_ne.2 hi]
  exact hfold _ _

theorem outcome?_expireTimers (hp : s.pending op = true)
    (hdue : op ∈ (s.timers.expire s.now).1) :
    s.expireTimers.outcome? op = some (.error .timeout) := by
  have hfold : ∀ (alarms : List OperationId) (t : Session η),
      t.outcome? op = some (.error .timeout) ∨ t.pending op = true ∧ op ∈ alarms →
      (alarms.foldl (fun t i => t.complete i (.error .timeout)) t).outcome? op =
        some (.error .timeout) := by
    intro alarms
    induction alarms with
    | nil =>
      rintro t (ho | ⟨-, hmem⟩)
      · exact ho
      · cases hmem
    | cons i alarms ih =>
      intro t ht
      rw [List.foldl_cons]
      refine ih _ ?_
      rw [outcome?_eq_some_iff, operations_complete, pending_complete]
      by_cases hi : op = i
      · subst hi
        rcases ht with ho | ⟨hp, -⟩
        · have hdecided : t.pending op = false := by
            rw [Bool.eq_false_iff, Ne, pending_iff, outcome?_eq_some_iff.1 ho]
            simp
          exact Or.inl (by rw [hdecided, if_neg (by simp), outcome?_eq_some_iff.1 ho])
        · exact Or.inl (by rw [if_pos ⟨rfl, hp⟩])
      · rw [if_neg fun h => hi h.1, ← outcome?_eq_some_iff]
        refine ht.imp_right fun ⟨hp, hmem⟩ => ⟨?_, (List.mem_cons.1 hmem).resolve_left hi⟩
        simpa [hp] using hi
  exact hfold _ _ (Or.inr ⟨hp, hdue⟩)

end Fields

end Session

end ZigbeeHost
