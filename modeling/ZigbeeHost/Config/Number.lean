import ZigbeeHost.Config.Reader
/-!
# Numbers in JSON text

A configuration asks for natural numbers below a bound. Any other number is a value of
the wrong kind, except one beyond the range of double precision, which no reader takes
for a number at all. To tell the two apart, `exceedsDouble` works out in whole numbers
whether a significand of at most 64 bits times a power of ten overflows, each of the two
factors rounded to the nearest number of 53 significant bits.
-/

namespace ZigbeeHost.Config

/-! ## The range of double precision -/

/-- The nearest number of at most 53 significant bits; of two, the even one. -/
def roundToDouble (n : Nat) : Nat :=
  let shift := n.log2 + 1 - 53
  let unit := 1 <<< shift
  let (q, r) := (n / unit, n % unit)
  let up := 2 * r > unit || (2 * r == unit && q % 2 == 1)
  (if up then q + 1 else q) * unit

/-- The least number that rounds beyond double precision. -/
def doubleLimit : Nat := 1 <<< 1024 - 1 <<< 970

/-- The significand times the power of ten is beyond double precision. -/
def exceedsDouble (significand : Nat) (exponent : Int) : Bool :=
  if significand = 0 ∨ exponent < 0 then false
  else if exponent > 308 then true
  else roundToDouble significand * roundToDouble (Nat.pow 10 exponent.toNat) ≥ doubleLimit

/-! ## Reading -/

namespace Reader

/-- The largest significand that is kept exactly. -/
def significandLimit : Nat := 0xFFFFFFFFFFFFFFFF

/-- The largest exponent that is kept exactly. -/
def exponentLimit : Nat := 0x7FFFFFFF

/-- What a number is : a natural number of 64 bits, or something else. -/
inductive Number where
  | natural (n : Nat)
  | other

/-- A decimal digit. -/
def isDigit (c : Char) : Bool := '0' ≤ c && c ≤ '9'

/-- The value of a decimal digit. -/
def digitValue (c : Char) : Nat := c.toNat - 48

/-- Extends a number by digits as long as it stays within the limit; the answer counts
the digits taken and those left over. -/
def extend (limit : Nat) (value : Nat) : (digits : List Char) → Nat × Nat × Nat
  | [] => (value, 0, 0)
  | d :: digits =>
    let longer := 10 * value + digitValue d
    if longer ≤ limit then
      let (value, taken, left) := extend limit longer digits
      (value, taken + 1, left)
    else (value, 0, digits.length + 1)

/-- Takes digits from the front. -/
def digits : Reader (List Char) := fun text => .ok (text.takeWhile isDigit, text.dropWhile isDigit)

/-- Fails where a digit is needed and something else, or nothing, stands. -/
def needDigit : Reader Unit := fun text =>
  match text with
  | [] => .error .truncated
  | c :: _ => if isDigit c then .ok ((), text) else .error .malformed

/-- A number with a fraction or an exponent, if it is within the range of double
precision. -/
def scaled (significand : Nat) (exponent : Int) : Reader Number :=
  if exceedsDouble significand exponent then throw .malformed else pure .other

/-- Reads an exponent behind its letter. -/
def exponent (significand : Nat) (start : Int) : Reader Number := do
  let negative := (← get).head? = some '-'
  if negative ∨ (← get).head? = some '+' then skip
  needDigit
  let (size, _, left) := extend exponentLimit 0 (← digits)
  if left = 0 then scaled significand (if negative then start - size else start + size)
  else if significand ≠ 0 ∧ ¬ negative then throw .malformed
  else pure .other

/-- Reads an exponent, if there is one, behind the digits of a number that is `plain`
without it. -/
def optionalExponent (significand : Nat) (start : Int) (plain : Reader Number) :
    Reader Number := do
  if (← get).head? = some 'e' ∨ (← get).head? = some 'E' then
    skip
    exponent significand start
  else plain

/-- Reads a number from its first digit on. -/
def number (negative : Bool) : Reader Number := do
  needDigit
  let whole ← digits
  if whole.head? = some '0' ∧ whole.length > 1 then throw .malformed
  let (significand, _, left) := extend significandLimit 0 whole
  if (← get).head? = some '.' then
    skip
    needDigit
    let (significand, taken, _) := extend significandLimit significand (← digits)
    let start := (left : Int) - taken
    optionalExponent significand start (scaled significand start)
  else
    optionalExponent significand left <|
      if left = 0 ∧ ¬ negative then pure (.natural significand) else scaled significand left

end Reader

end ZigbeeHost.Config
