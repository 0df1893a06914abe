import ZigbeeHost.Ledger
/-!
# What ledgers keep

To complete an operation changes its own entry at most, and only if it was not decided
(`Ledger.getElem?_complete`). So the first attempt decides, and an outcome never changes.
-/

namespace ZigbeeHost.Ledger

variable {α : Type} {l : Ledger α} {op : Nat} {outcome : Except Failure α}

/-- The operation is issued and not decided. -/
def pending (l : Ledger α) (op : Nat) : Bool :=
  match l[op]? with
  | some none => true
  | _ => false

theorem pending_iff : l.pending op = true ↔ l[op]? = some none := by
  unfold pending
  split <;> simp_all

theorem outcome?_eq_some_iff : l.outcome? op = some outcome ↔ l[op]? = some (some outcome) := by
  unfold outcome?
  cases l[op]? <;> simp

theorem outcome?_eq_none_iff (h : op < l.size) : l.outcome? op = none ↔ l.pending op = true := by
  rw [pending_iff, outcome?, Array.getElem?_eq_getElem h]
  simp

/-- An operation that is not pending takes no outcome. -/
theorem complete_of_not_pending (h : l.pending op = false) :
    l.complete op outcome = (false, l) := by
  unfold complete
  split
  · rename_i hopen
    rw [pending_iff.2 hopen] at h
    cases h
  · rfl

/-- Whoever completes an operation learns whether it was pending. -/
theorem complete_fst (l : Ledger α) (op : Nat) (outcome : Except Failure α) :
    (l.complete op outcome).1 = l.pending op := by
  unfold complete pending
  rcases l[op]? with _ | _ | _ <;> rfl

/-- A pending operation takes the outcome. All other entries stay. -/
theorem getElem?_complete (i : Nat) :
    (l.complete op outcome).2[i]? =
      if i = op ∧ l.pending op = true then some (some outcome) else l[i]? := by
  cases hp : l.pending op with
  | false => simp [complete_of_not_pending hp]
  | true =>
    have hopen : l[op]? = some none := pending_iff.1 hp
    have hlt : op < l.size := (Array.getElem?_eq_some_iff.1 hopen).1
    simp only [complete, hopen]
    by_cases hi : i = op
    · subst hi
      rw [if_pos ⟨rfl, trivial⟩, Array.getElem?_setIfInBounds_self_of_lt hlt]
    · simp [Array.getElem?_setIfInBounds_ne (Ne.symm hi), hi]

/-- To complete an operation issues none. -/
theorem size_complete (l : Ledger α) (op : Nat) (outcome : Except Failure α) :
    (l.complete op outcome).2.size = l.size := by
  unfold complete
  split
  · exact Array.size_setIfInBounds
  · rfl

/-- A pending operation takes the outcome. -/
theorem outcome?_complete_self (h : l.pending op = true) :
    (l.complete op outcome).2.outcome? op = some outcome := by
  rw [outcome?, getElem?_complete, if_pos ⟨rfl, h⟩]
  rfl

/-- When all are dropped that are pending, an operation keeps its outcome, or it was dropped. -/
theorem outcome?_abandon (h : op < l.size) :
    l.abandon.outcome? op = some ((l.outcome? op).getD (.error .dropped)) := by
  simp [outcome?, abandon, h]

@[simp] theorem size_abandon (l : Ledger α) : l.abandon.size = l.size := Array.size_map

end ZigbeeHost.Ledger
