import ZigbeeHost.Bytes.Hex
/-!
# Values as data

A `Datum` is a value taken apart into named fields, numbers and texts, so that programs
can exchange it and people can read it. `describe` writes it on one line : a record with
its name and its fields in order, `Name { a: 1, b: [2, 3] }`, numbers in decimal.

A datum that comes from elsewhere has no bytes and no addresses, only texts and numbers;
`bytes?` and `wide?` read them from hexadecimal. What is missing there counts as null,
which stands for the empty list and for no bytes.
-/

namespace ZigbeeHost

/-- A value taken apart. -/
inductive Datum where
  | null
  | flag (value : Bool)
  | number (n : Nat)
  /-- A number of 64 bits, such as an address. -/
  | wide (n : UInt64)
  | text (s : String)
  | bytes (b : Bytes)
  | list (items : List Datum)
  | record (name : String) (fields : List (String × Datum))
  deriving Inhabited

namespace Datum

/-- The datum on one line. -/
def describe : Datum → String
  | null => "None"
  | flag b => if b then "true" else "false"
  | number n => toString n
  | wide n => toString n
  | text s => s
  | bytes b => enclose (b.map fun x => toString x)
  | list items => enclose (describeAll items)
  | record name fields => name ++ " \x7b " ++ ", ".intercalate (describeFields fields) ++ " \x7d"
where
  enclose (items : List String) : String := "[" ++ ", ".intercalate items ++ "]"
  describeAll : List Datum → List String
    | [] => []
    | d :: ds => describe d :: describeAll ds
  describeFields : List (String × Datum) → List String
    | [] => []
    | (name, d) :: fields => (name ++ ": " ++ describe d) :: describeFields fields

/-- The fields of a record; another datum has none. -/
def fields : Datum → List (String × Datum)
  | record _ fields => fields
  | _ => []

/-- The field of a record, or null. -/
def field (d : Datum) (name : String) : Datum := (d.fields.lookup name).getD null

/-- A truth value. -/
def flag? : Datum → Option Bool
  | flag b => some b
  | _ => none

/-- A number. -/
def number? : Datum → Option Nat
  | number n => some n
  | _ => none

/-- A text. -/
def text? : Datum → Option String
  | text s => some s
  | _ => none

/-- A list. Null counts as an empty one. -/
def list? : Datum → Option (List Datum)
  | null => some []
  | list items => some items
  | _ => none

/-- A number of 64 bits : a number, or a text of hexadecimal digits behind `0x`. -/
def wide? : Datum → Option UInt64
  | number n => some (UInt64.ofNat n)
  | wide n => some n
  | text s => do
    let digits ← (s.toList.drop 2).mapM hexDigit?
    return UInt64.ofNat (digits.foldl (fun n d => 16 * n + d) 0)
  | _ => none

/-- Bytes : a text of pairs of hexadecimal digits. -/
def bytes? : Datum → Option Bytes
  | null => some []
  | bytes b => some b
  | text s => Bytes.ofHexChars? s.toList
  | _ => none

/-- A value that may be missing. -/
def optional? {α : Type} (parse : Datum → Option α) : Datum → Option (Option α)
  | null => some none
  | d => (parse d).map some

/-- A list of values. -/
def listOf? {α : Type} (parse : Datum → Option α) (d : Datum) : Option (List α) := do
  (← d.list?).mapM parse

end Datum

end ZigbeeHost
