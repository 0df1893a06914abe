import ZigbeeHost.Config.Number
/-!
# Skipping values

Keys that a configuration does not know may have any value. `skipValue` passes over one
of any depth, with a stack of the brackets that are open. It is less particular than the
reader of values : a string may hold half a surrogate pair and a number may be beyond any
range; and it takes a number that ends too early for no number at all.
-/

namespace ZigbeeHost.Config.Reader

/-! ## Strings and numbers -/

/-- Passes over a string, behind its opening quote. `owed` counts the digits that an
escape still needs. -/
def skipString (escape : Bool) (owed : Nat) : (text : List Char) →
    Except Fault (Unit × List Char)
  | [] => .error .truncated
  | c :: text =>
    if 0 < owed then
      if (hexDigit? c).isSome then skipString false (owed - 1) text
      else .error (codeUnitFault (4 - owed) (c :: text))
    else if escape then
      if c = 'u' then skipString false 4 text
      else if (escaped? c).isSome then skipString false 0 text
      else .error .malformed
    else if c = '\x22' then .ok ((), text)
    else if c = '\x5c' then skipString true 0 text
    else if c.toNat < 0x20 then .error .malformed
    else skipString false 0 text

/-- Passes over digits, of which there must be one. -/
def skipDigits : Reader Unit := do
  let ds ← digits
  if ds.isEmpty then throw .malformed

/-- Passes over an exponent, if there is one. -/
def skipExponent : Reader Unit := do
  if (← get).head? = some 'e' ∨ (← get).head? = some 'E' then
    skip
    if (← get).head? = some '+' ∨ (← get).head? = some '-' then skip
    skipDigits

/-- Passes over a number without its sign. -/
def skipNumber : Reader Unit := do
  let whole ← digits
  if whole.isEmpty ∨ (whole.head? = some '0' ∧ whole.length > 1) then throw .malformed
  if (← get).head? = some '.' then
    skip
    skipDigits
  skipExponent

/-! ## Values -/

/-- An open bracket. -/
inductive Bracket where
  | list
  | object

/-- The character that closes what the bracket opens. -/
def Bracket.closing : Bracket → Char
  | list => ']'
  | object => '}'

/-- Takes the colon behind a key. -/
def colon : Reader Unit := do
  match ← peek with
  | none => throw .truncated
  | some c => if c = ':' then skip else throw .malformed

/-- Goes to the next value within a bracket, past its key in an object. -/
def skipToValue : Bracket → Reader Unit
  | .list => pure ()
  | .object => do
    match ← peek with
    | none => throw .truncated
    | some c =>
      if c ≠ '\x22' then throw .malformed
      skip
      skipString false 0
      colon

/-- Behind a value : closes brackets, and goes on to the next value if one follows. The
answer is whether there is one, and the brackets that are open then. -/
def skipClosings : (stack : List Bracket) → Reader (Bool × List Bracket)
  | [] => pure (false, [])
  | bracket :: stack => do
    match ← peek with
    | none => throw .truncated
    | some c =>
      if c = ',' then
        skip
        skipToValue bracket
        pure (true, bracket :: stack)
      else if c = bracket.closing then
        skip
        skipClosings stack
      else throw .malformed

/-- Opens a bracket : goes to its first value, or closes it if it is empty. -/
def skipOpening (bracket : Bracket) (stack : List Bracket) : Reader (Bool × List Bracket) := do
  skip
  match ← peek with
  | none => throw .truncated
  | some c =>
    if c = bracket.closing then
      skip
      skipClosings stack
    else
      skipToValue bracket
      pure (true, bracket :: stack)

/-- Passes over a value that is no list or object, or opens a bracket. -/
def skipOne (stack : List Bracket) : Reader (Bool × List Bracket) := do
  match ← peek with
  | none => throw .truncated
  | some '[' => skipOpening .list stack
  | some '{' => skipOpening .object stack
  | some c =>
    if c = 'n' then word "null".toList
    else if c = 't' then word "true".toList
    else if c = 'f' then word "false".toList
    else if c = '\x22' then
      skip
      skipString false 0
    else if c = '-' then
      skip
      skipNumber
    else if isDigit c then skipNumber
    else throw .malformed
    skipClosings stack

/-- Passes over values until no bracket is open. Each round takes at least one character,
so as many rounds as there are characters are enough. -/
def skipValues : (rounds : Nat) → (stack : List Bracket) → Reader Unit
  | 0, _ => throw .truncated
  | rounds + 1, stack => do
    let (more, stack) ← skipOne stack
    if more then skipValues rounds stack

/-- Passes over one value. -/
def skipValue : Reader Unit := do
  let rounds := (← get).length + 1
  skipValues rounds []

end ZigbeeHost.Config.Reader
