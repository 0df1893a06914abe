import ZigbeeHost.Failure
/-!
# Ledgers of operations

A ledger holds what became of operations, which are told apart by numbers. An operation has no
outcome at first. Several may try to complete it, and the first who does decides it: the others
are told that they came too late.
-/

namespace ZigbeeHost

/-- The outcome of every operation that was issued, once it is decided. -/
abbrev Ledger (α : Type) := Array (Option (Except Failure α))

namespace Ledger

variable {α : Type}

/-- The outcome of an operation, once it is decided. -/
def outcome? (l : Ledger α) (op : Nat) : Option (Except Failure α) := l[op]?.join

/-- Decides an operation, unless it is decided already. The answer is whether it was not. -/
def complete (op : Nat) (outcome : Except Failure α) (l : Ledger α) : Bool × Ledger α :=
  match l[op]? with
  | some none => (true, l.setIfInBounds op (some outcome))
  | _ => (false, l)

/-- Drops all operations that are not decided: nobody is left to complete them. -/
def abandon (l : Ledger α) : Ledger α := l.map fun o => some (o.getD (.error .dropped))

end Ledger

end ZigbeeHost
