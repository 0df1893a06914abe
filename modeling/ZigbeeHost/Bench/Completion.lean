import ZigbeeHost.Ledger
/-!
# A bench for operations

A ledger with one operation, the slots of its producers, and its consumer. The consumer collects
the outcome once. When no producer is left, the operation is dropped.
-/

namespace ZigbeeHost.Bench

/-- The consumer's end of the operation. -/
inductive Consumer where
  | listening
  /-- It has collected the outcome. -/
  | served
  /-- The operation failed before there was anything to wait for. The failure is there until it
  is collected. -/
  | failed (failure : Option Failure)

/-- An operation that yields a number. A slot tells whether it still has its producer. -/
structure Completion where
  ledger : Ledger UInt32 := #[none]
  slots : List Bool := [true]
  consumer : Option Consumer := some .listening

/-- A step at the operation. -/
inductive CompletionStep where
  | complete (slot : Nat) (outcome : Except Failure UInt32)
  | clone (slot : Nat)
  | isCompleted (slot : Nat)
  | drop (slot : Nat)
  | dropConsumer
  | poll

/-- What a step yields. -/
inductive CompletionAnswer where
  /-- The slot has no producer. -/
  | vacant
  | truth (value : Bool)
  | slot (number : Nat)
  | pending
  /-- There is no consumer. -/
  | dropped
  | ready (outcome : Except Failure UInt32)

namespace Completion

/-- The slot has its producer. -/
def filled (c : Completion) (slot : Nat) : Bool := c.slots[slot]?.getD false

/-- The outcome of the operation, once it is decided. -/
def outcome? (c : Completion) : Option (Except Failure UInt32) := c.ledger.outcome? 0

/-- A producer goes. The last one drops the operation. -/
def release (c : Completion) (slot : Nat) : Completion :=
  let slots := c.slots.set slot false
  { c with slots, ledger := if slots.any id then c.ledger else c.ledger.abandon }

/-- What the consumer finds, and what becomes of it. -/
def collect (c : Completion) : Consumer → CompletionAnswer × Consumer
  | .listening =>
    match c.outcome? with
    | none => (.pending, .listening)
    | some outcome => (.ready outcome, .served)
  | .served => (.ready (.error .dropped), .served)
  | .failed (some failure) => (.ready (.error failure), .failed none)
  | .failed none => (.ready (.error (.shutdown "polled after completion")), .failed none)

/-- Takes a step. -/
def perform (c : Completion) : CompletionStep → CompletionAnswer × Completion
  | .complete slot outcome =>
    if c.filled slot then
      let (first, ledger) := c.ledger.complete 0 outcome
      (.truth first, { c with ledger })
    else (.vacant, c)
  | .clone slot =>
    if c.filled slot then (.slot c.slots.length, { c with slots := c.slots ++ [true] })
    else (.vacant, c)
  | .isCompleted slot =>
    (if c.filled slot then .truth c.outcome?.isSome else .vacant, c)
  | .drop slot =>
    if c.filled slot then (.truth true, c.release slot) else (.truth false, c)
  | .dropConsumer => (.truth c.consumer.isSome, { c with consumer := none })
  | .poll =>
    match c.consumer with
    | none => (.dropped, c)
    | some consumer =>
      let (answer, consumer) := c.collect consumer
      (answer, { c with consumer := some consumer })

end Completion

end ZigbeeHost.Bench
