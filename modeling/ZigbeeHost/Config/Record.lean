import ZigbeeHost.Config.Skip
/-!
# Values and records

Readers of the values that a configuration holds, and of a record : an object with the
record's fields as keys, in any order and among unknown ones, or a list with the fields
in order, of which the last may be missing. A field that is not given keeps its default.
-/

namespace ZigbeeHost.Config.Reader

/-! ## Values -/

/-- Takes the value that stands where another kind is asked for. It is read far enough to
know that it is JSON. -/
def wrongKind {α : Type} : Reader α := do
  match (← get).head? with
  | some '\x22' =>
    skip
    let _ ← string
    throw .mistyped
  | some '[' | some '{' => throw .mistyped
  | some c =>
    if c = 'n' then word "null".toList
    else if c = 't' then word "true".toList
    else if c = 'f' then word "false".toList
    else if c = '-' then
      skip
      let _ ← number true
    else if isDigit c then
      let _ ← number false
    else throw .malformed
    throw .mistyped
  | none => throw .malformed

/-- Reads a natural number up to a bound. -/
def natural (bound : Nat) : Reader Nat := do
  match ← peek with
  | none => throw .truncated
  | some c =>
    if isDigit c then
      match ← number false with
      | .natural n => if n ≤ bound then return n else throw .mistyped
      | .other => throw .mistyped
    else wrongKind

/-- Reads a number of 8 bits. -/
def u8 : Reader UInt8 := UInt8.ofNat <$> natural 0xFF
/-- Reads a number of 32 bits. -/
def u32 : Reader UInt32 := UInt32.ofNat <$> natural 0xFFFFFFFF
/-- Reads a number of 64 bits. -/
def u64 : Reader UInt64 := UInt64.ofNat <$> natural 0xFFFFFFFFFFFFFFFF

/-- Reads a truth value. -/
def truth : Reader Bool := do
  match ← peek with
  | none => throw .truncated
  | some c =>
    if c = 't' then
      word "true".toList
      return true
    else if c = 'f' then
      word "false".toList
      return false
    else wrongKind

/-- Reads a text. -/
def text : Reader String := do
  match ← peek with
  | none => throw .truncated
  | some c =>
    if c = '\x22' then
      skip
      string
    else wrongKind

/-- Reads a value that may be given as null. -/
def optional {α : Type} (value : Reader α) : Reader (Option α) := do
  if (← peek) = some 'n' then
    word "null".toList
    return none
  else some <$> value

/-! ## Records -/

/-- A field of a record : its name, and a reader that puts its value in its place. -/
structure RecordField (γ : Type) where
  name : String
  read : Reader (γ → γ)
  required : Bool := false

/-- A field whose value is put in place by `put`. -/
def RecordField.of {γ α : Type} (name : String) (value : Reader α) (put : α → γ → γ) :
    RecordField γ where
  name := name
  read := put <$> value

variable {γ : Type}

/-- Fails if one of the fields is needed. -/
def allOptional (fields : List (RecordField γ)) : Reader Unit :=
  if fields.any RecordField.required then throw .mistyped else pure ()

/-- Reads the elements of a list in the order of the fields, behind the opening bracket. -/
def elements (first : Bool) (record : γ) : (fields : List (RecordField γ)) → Reader γ
  | [] => do
    match ← peek with
    | none => throw .truncated
    | some c =>
      if c = ']' then
        skip
        return record
      else throw .malformed
  | field :: fields => do
    match ← peek with
    | none => throw .truncated
    | some c =>
      if c = ']' then
        allOptional (field :: fields)
        skip
        return record
      if ¬ first then
        if c ≠ ',' then throw .malformed
        skip
        match ← peek with
        | none => throw .truncated
        | some d => if d = ']' then throw .malformed
      let put ← field.read
      elements false (put record) fields

/-- Goes to the next key of an object; the answer is whether there is one. -/
def nextKey (first : Bool) : Reader Bool := do
  match ← peek with
  | none => throw .truncated
  | some c =>
    if c = '}' then return false
    if ¬ first then
      if c ≠ ',' then throw .malformed
      skip
    match ← peek with
    | none => throw .truncated
    | some d => if d = '\x22' then return true else throw .malformed

/-- Reads the members of an object, behind the opening bracket. `seen` are the fields
that were given. Each round takes a key, so as many rounds as there are characters are
enough. -/
def members (fields : List (RecordField γ)) :
    (rounds : Nat) → (first : Bool) → (seen : List String) → (record : γ) → Reader γ
  | 0, _, _, _ => throw .truncated
  | rounds + 1, first, seen, record => do
    if ← nextKey first then
      skip
      let key ← string
      match fields.find? (·.name == key) with
      | none =>
        colon
        skipValue
        members fields rounds false seen record
      | some field =>
        if key ∈ seen then throw .mistyped
        colon
        let put ← field.read
        members fields rounds false (key :: seen) (put record)
    else
      allOptional (fields.filter (·.name ∉ seen))
      skip
      return record

/-- Reads a record, starting from its defaults. -/
def record (fields : List (RecordField γ)) (defaults : γ) : Reader γ := do
  match ← peek with
  | none => throw .truncated
  | some '[' =>
    skip
    elements true defaults fields
  | some '{' =>
    skip
    members fields ((← get).length + 1) true [] defaults
  | some _ => wrongKind

/-- What a reader makes of a whole text. -/
def run {α : Type} (reader : Reader α) (text : String) : Except Fault α :=
  match reader text.toList with
  | .error e => .error e
  | .ok (value, rest) =>
    if rest.all isBlank then .ok value else .error .malformed

end ZigbeeHost.Config.Reader
