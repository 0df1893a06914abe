import Mathlib.Data.List.Forall2
import ZigbeeHost.Config.Skip
/-!
# The texts of JSON values

The grammar that configurations are written in. `IsValue` are the texts of all values, from the
first character to the last. A list or an object has parts, and each part holds a value
(`Enclosed`, `IsPart`). A key and its colon stand in front of the values of an object.

The grammar takes four hexadecimal digits for any code unit, also for half a surrogate pair. Not
every string of it is a text in Unicode, therefore; `SpellsText` says which text a string spells.

What follows a value does not say that the value is over, except for a number, which goes on as
long as digits come (`Stops`).
-/

namespace ZigbeeHost.Config

open Reader (Bracket isBlank)

/-! ## Blanks and numbers -/

/-- What may stand between the parts of a text. -/
def IsBlanks (ws : List Char) : Prop := ∀ c ∈ ws, c ∈ [' ', '\t', '\n', '\r']

/-- Some digits. -/
def IsDigits (ds : List Char) : Prop := ds ≠ [] ∧ ∀ d ∈ ds, d.isDigit = true

/-- The digits of a natural number. A zero in front stands alone. -/
def IsWhole (ds : List Char) : Prop := IsDigits ds ∧ (ds.head? = some '0' → ds = ['0'])

/-- A fraction, or nothing. -/
inductive IsFraction : List Char → Prop
  | none : IsFraction []
  | some {ds : List Char} : IsDigits ds → IsFraction ('.' :: ds)

/-- An exponent, or nothing. -/
inductive IsExponent : List Char → Prop
  | none : IsExponent []
  | some {e : Char} {sign ds : List Char} : e ∈ ['e', 'E'] → sign ∈ [[], ['+'], ['-']] →
      IsDigits ds → IsExponent (e :: (sign ++ ds))

/-- A number without its sign. -/
inductive IsUnsigned : List Char → Prop
  | mk {whole fraction exponent : List Char} : IsWhole whole → IsFraction fraction →
      IsExponent exponent → IsUnsigned (whole ++ (fraction ++ exponent))

/-- A number does not go on with these characters. -/
def Stops (rest : List Char) : Prop :=
  ∀ c ∈ rest.head?, c.isDigit = false ∧ c ∉ ['.', 'e', 'E']

/-! ## Strings -/

/-- The letters behind a backslash, and the characters that they stand for. -/
def escapes : List (Char × Char) :=
  [('\x22', '\x22'), ('\x5c', '\x5c'), ('/', '/'), ('b', '\x08'), ('f', '\x0c'), ('n', '\n'),
    ('r', '\r'), ('t', '\t')]

/-- The character stands for itself in a string. -/
def IsPlain (c : Char) : Prop := c ≠ '\x22' ∧ c ≠ '\x5c' ∧ 0x20 ≤ c.toNat

/-- The four digits of a code unit. -/
inductive IsUnit : Nat → List Char → Prop
  | mk {a b c d : Char} {p q r s : Nat} : hexDigit? a = some p → hexDigit? b = some q →
      hexDigit? c = some r → hexDigit? d = some s →
      IsUnit (16 * (16 * (16 * p + q) + r) + s) [a, b, c, d]

/-- What may stand between the quotes of a string. -/
inductive IsBody : List Char → Prop
  | nil : IsBody []
  | plain {c : Char} {body : List Char} : IsPlain c → IsBody body → IsBody (c :: body)
  | escape {letter c : Char} {body : List Char} : (letter, c) ∈ escapes → IsBody body →
      IsBody ('\x5c' :: letter :: body)
  | unit {n : Nat} {ds body : List Char} : IsUnit n ds → IsBody body →
      IsBody ('\x5c' :: 'u' :: (ds ++ body))

/-- The characters stand in a string for one character. Two code units stand for one that lies
beyond the first `0x10000`. -/
inductive SpellsChar : Char → List Char → Prop
  | plain {c : Char} : IsPlain c → SpellsChar c [c]
  | escape {letter c : Char} : (letter, c) ∈ escapes → SpellsChar c ['\x5c', letter]
  | unit {c : Char} {ds : List Char} : IsUnit c.toNat ds → SpellsChar c ('\x5c' :: 'u' :: ds)
  | pair {c : Char} {lead trail : List Char} : 0x10000 ≤ c.toNat →
      IsUnit (0xD800 + (c.toNat - 0x10000) / 0x400) lead →
      IsUnit (0xDC00 + (c.toNat - 0x10000) % 0x400) trail →
      SpellsChar c ('\x5c' :: 'u' :: (lead ++ '\x5c' :: 'u' :: trail))

/-- What stands between the quotes spells the characters. -/
inductive SpellsBody : List Char → List Char → Prop
  | nil : SpellsBody [] []
  | cons {c : Char} {cs part body : List Char} : SpellsChar c part → SpellsBody cs body →
      SpellsBody (c :: cs) (part ++ body)

/-- A string spells a text. -/
inductive SpellsText (s : String) : List Char → Prop
  | mk {body : List Char} : SpellsBody s.toList body → SpellsText s ('\x22' :: (body ++ ['\x22']))

/-- A spelled character may stand in front of the rest of a body. -/
theorem SpellsChar.isBody {c : Char} {part body : List Char} (h : SpellsChar c part)
    (hbody : IsBody body) : IsBody (part ++ body) := by
  cases h with
  | plain hplain => exact .plain hplain hbody
  | escape hletter => exact .escape hletter hbody
  | unit hunit => exact .unit hunit hbody
  | pair _ hlead htrail =>
    have hpair := IsBody.unit hlead (.unit htrail hbody)
    simpa using hpair

/-- What spells characters is the body of a string. -/
theorem SpellsBody.isBody {cs body : List Char} (h : SpellsBody cs body) : IsBody body := by
  induction h with
  | nil => exact .nil
  | cons hchar _ ih => exact hchar.isBody ih

/-- Characters that stand for themselves spell themselves. -/
theorem SpellsBody.of_plain {cs : List Char} (h : ∀ c ∈ cs, IsPlain c) : SpellsBody cs cs := by
  induction cs with
  | nil => exact .nil
  | cons c cs ih =>
    obtain ⟨hc, hcs⟩ := List.forall_mem_cons.1 h
    exact .cons (.plain hc) (ih hcs)

/-! ## Lists and objects -/

/-- The opening bracket. -/
def Reader.Bracket.opening : Bracket → Char
  | .list => '['
  | .object => '{'

/-- What stands in front of a part : a comma, unless it is the first. -/
inductive Lead : Bool → List Char → Prop
  | first {ws : List Char} : IsBlanks ws → Lead true ws
  | further {ws ws' : List Char} : IsBlanks ws → IsBlanks ws' → Lead false (ws ++ ',' :: ws')

/-- Parts up to the closing bracket. -/
inductive Parts (bracket : Bracket) : Bool → List (List Char) → List Char → Prop
  | close {first : Bool} {ws : List Char} : IsBlanks ws →
      Parts bracket first [] (ws ++ [bracket.closing])
  | part {first : Bool} {lead part cs : List Char} {parts : List (List Char)} : Lead first lead →
      Parts bracket false parts cs → Parts bracket first (part :: parts) (lead ++ (part ++ cs))

/-- Parts in brackets. -/
inductive Enclosed (bracket : Bracket) (parts : List (List Char)) : List Char → Prop
  | mk {cs : List Char} : Parts bracket true parts cs →
      Enclosed bracket parts (bracket.opening :: cs)

/-- A key, given by what stands between its quotes, and the value behind its colon. -/
inductive IsMember (body value : List Char) : List Char → Prop
  | mk {ws ws' : List Char} : IsBlanks ws → IsBlanks ws' →
      IsMember body value ('\x22' :: (body ++ '\x22' :: (ws ++ ':' :: (ws' ++ value))))

/-- A part and the value that it holds. -/
inductive IsPart : Bracket → List Char → List Char → Prop
  | item {value : List Char} : IsPart .list value value
  | member {body value part : List Char} : IsBody body → IsMember body value part →
      IsPart .object value part

/-! ## Values -/

/-- The text of a value. -/
inductive IsValue : List Char → Prop
  | word {w : String} : w ∈ ["null", "true", "false"] → IsValue w.toList
  | unsigned {cs : List Char} : IsUnsigned cs → IsValue cs
  | negative {cs : List Char} : IsUnsigned cs → IsValue ('-' :: cs)
  | string {body : List Char} : IsBody body → IsValue ('\x22' :: (body ++ ['\x22']))
  | bracket {bracket : Bracket} {parts values : List (List Char)} {cs : List Char} :
      Enclosed bracket parts cs → List.Forall₂ (IsPart bracket) values parts →
      (∀ value ∈ values, IsValue value) → IsValue cs

/-! ## What parts begin with -/

theorem ne_of_isDigit {c d : Char} (hc : c.isDigit = true) (hd : d.isDigit = false) : c ≠ d := by
  rintro rfl
  rw [hc] at hd
  cases hd

theorem IsDigits.exists_cons {ds : List Char} (h : IsDigits ds) :
    ∃ d rest, ds = d :: rest ∧ d.isDigit = true := by
  obtain ⟨d, rest, rfl⟩ := List.exists_cons_of_ne_nil h.1
  exact ⟨d, rest, rfl, h.2 d List.mem_cons_self⟩

theorem IsUnsigned.exists_cons {cs : List Char} (h : IsUnsigned cs) :
    ∃ d rest, cs = d :: rest ∧ d.isDigit = true := by
  obtain ⟨⟨hdigits, -⟩, -, -⟩ := h
  obtain ⟨d, rest, rfl, hd⟩ := hdigits.exists_cons
  exact ⟨d, _, rfl, hd⟩

/-- A value begins with a character of its own, not with one that could stand behind a value. -/
theorem IsValue.exists_cons {cs : List Char} (h : IsValue cs) :
    ∃ c rest, cs = c :: rest ∧ isBlank c = false ∧ c ∉ [',', ':', ']', '}'] := by
  cases h with
  | word hw =>
    simp only [List.mem_cons, List.not_mem_nil, or_false] at hw
    obtain rfl | rfl | rfl := hw <;> exact ⟨_, _, rfl, by decide, by decide⟩
  | unsigned hcs =>
    obtain ⟨d, rest, rfl, hd⟩ := hcs.exists_cons
    have hne {e : Char} (he : e.isDigit = false) : d ≠ e := ne_of_isDigit hd he
    exact ⟨d, rest, rfl, by simp [isBlank, hne], by simp [hne]⟩
  | negative | string => exact ⟨_, _, rfl, by decide, by decide⟩
  | @bracket bracket _ _ _ henclosed =>
    obtain ⟨-⟩ := henclosed
    cases bracket <;> exact ⟨_, _, rfl, by decide, by decide⟩

/-! ## What a value is by its first character -/

section Heads

variable {c : Char} {rest : List Char}

/-- The first character of a value tells its kind. -/
theorem IsValue.kinds (h : IsValue (c :: rest)) :
    (c ∈ ['n', 't', 'f'] ∧ ∃ w ∈ ["null", "true", "false"], c :: rest = w.toList) ∨
    (c.isDigit = true ∧ IsUnsigned (c :: rest)) ∨ c = '-' ∨
    (c = '\x22' ∧ ∃ body, IsBody body ∧ rest = body ++ ['\x22']) ∨
    ∃ bracket, c = Bracket.opening bracket ∧ ∃ values parts, Enclosed bracket parts (c :: rest) ∧
      List.Forall₂ (IsPart bracket) values parts ∧ ∀ value ∈ values, IsValue value := by
  generalize hcs : c :: rest = cs at h
  cases h with
  | @word w hw =>
    refine .inl ⟨?_, w, hw, rfl⟩
    simp only [List.mem_cons, List.not_mem_nil, or_false] at hw
    obtain rfl | rfl | rfl := hw <;> cases hcs <;> decide
  | unsigned hunsigned =>
    obtain ⟨d, ds, rfl, hd⟩ := hunsigned.exists_cons
    cases hcs
    exact .inr (.inl ⟨hd, hunsigned⟩)
  | negative =>
    cases hcs
    exact .inr (.inr (.inl rfl))
  | string hbody =>
    cases hcs
    exact .inr (.inr (.inr (.inl ⟨rfl, _, hbody, rfl⟩)))
  | @bracket bracket parts values cs henclosed hparts hvalues =>
    refine .inr (.inr (.inr (.inr ⟨bracket, ?_, values, parts, henclosed, hparts, hvalues⟩)))
    obtain ⟨-⟩ := henclosed
    cases hcs
    rfl

/-- A value that begins with a digit is a number without a sign. -/
theorem IsValue.unsigned_of_digit (h : IsValue (c :: rest)) (hc : c.isDigit = true) :
    IsUnsigned (c :: rest) := by
  obtain ⟨hword, -⟩ | ⟨-, hunsigned⟩ | rfl | ⟨rfl, -⟩ | ⟨bracket, rfl, -⟩ := h.kinds
  · simp only [List.mem_cons, List.not_mem_nil, or_false] at hword
    obtain rfl | rfl | rfl := hword <;> cases hc
  · exact hunsigned
  · cases hc
  · cases hc
  · cases bracket <;> cases hc

/-- A value that begins with the letter of a word is that word. -/
theorem IsValue.eq_word {w : String} (h : IsValue (c :: rest)) (hw : w ∈ ["null", "true", "false"])
    (hc : w.toList.head? = some c) : c :: rest = w.toList := by
  have hletter : c ∈ ['n', 't', 'f'] := by
    simp only [List.mem_cons, List.not_mem_nil, or_false] at hw
    obtain rfl | rfl | rfl := hw <;> cases hc <;> decide
  obtain ⟨-, w', hw', hword⟩ | ⟨hdigit, -⟩ | rfl | ⟨rfl, -⟩ | ⟨bracket, rfl, -⟩ := h.kinds
  · have hhead : w'.toList.head? = w.toList.head? := by rw [hc, ← hword]; rfl
    rw [hword]
    simp only [List.mem_cons, List.not_mem_nil, or_false] at hw hw'
    obtain rfl | rfl | rfl := hw <;> obtain rfl | rfl | rfl := hw' <;>
      first | rfl | exact absurd hhead (by decide)
  · simp only [List.mem_cons, List.not_mem_nil, or_false] at hletter
    obtain rfl | rfl | rfl := hletter <;> cases hdigit
  · exact absurd hletter (by decide)
  · exact absurd hletter (by decide)
  · cases bracket <;> exact absurd hletter (by decide)

/-- A value that begins with a quote is a string. -/
theorem IsValue.string_of_quote (h : IsValue ('\x22' :: rest)) :
    ∃ body, IsBody body ∧ rest = body ++ ['\x22'] := by
  obtain ⟨hword, -⟩ | ⟨hdigit, -⟩ | hminus | ⟨-, hstring⟩ | ⟨bracket, hbracket, -⟩ := h.kinds
  · exact absurd hword (by decide)
  · cases hdigit
  · cases hminus
  · exact hstring
  · cases bracket <;> cases hbracket

/-- A value that begins with a bracket is what the bracket encloses, and its parts are values. -/
theorem IsValue.of_opening (bracket : Bracket) (h : IsValue (bracket.opening :: rest)) :
    ∃ values parts, Enclosed bracket parts (bracket.opening :: rest) ∧
      List.Forall₂ (IsPart bracket) values parts ∧ ∀ value ∈ values, IsValue value := by
  obtain ⟨hword, -⟩ | ⟨hdigit, -⟩ | hminus | ⟨hquote, -⟩ | ⟨bracket', hbracket, henclosed⟩ :=
    h.kinds
  · exact absurd hword (by cases bracket <;> decide)
  · cases bracket <;> cases hdigit
  · cases bracket <;> cases hminus
  · cases bracket <;> cases hquote
  · cases bracket <;> cases bracket' <;> first | exact henclosed | cases hbracket

end Heads

theorem isBlanks_nil : IsBlanks [] := nofun

theorem stops_nil : Stops [] := by
  intro c hc
  cases hc

/-- White space, commas and closing brackets end a number. -/
theorem stops_of_head {c : Char} (hc : c ∈ [' ', '\t', '\n', '\r', ',', ']', '}'])
    (rest : List Char) : Stops (c :: rest) := by
  intro d hd
  obtain rfl := Option.some.inj hd
  simp only [List.mem_cons, List.not_mem_nil, or_false] at hc
  obtain rfl | rfl | rfl | rfl | rfl | rfl | rfl := hc <;> decide

theorem IsBlanks.stops {ws rest : List Char} (hws : IsBlanks ws) (hrest : Stops rest) :
    Stops (ws ++ rest) := by
  cases ws with
  | nil => exact hrest
  | cons c ws =>
    refine stops_of_head ?_ _
    have hc := hws c List.mem_cons_self
    simp only [List.mem_cons, List.not_mem_nil, or_false] at hc ⊢
    obtain rfl | rfl | rfl | rfl := hc <;> simp

/-- What stands behind a part does not go on with it. -/
theorem Parts.stops {bracket : Bracket} {parts : List (List Char)} {cs : List Char}
    (h : Parts bracket false parts cs) (rest : List Char) : Stops (cs ++ rest) := by
  cases h with
  | close hws =>
    rw [List.append_assoc]
    exact hws.stops (stops_of_head (by cases bracket <;> decide) _)
  | part hlead =>
    obtain ⟨-⟩ | ⟨hws, -⟩ := hlead
    rw [List.append_assoc, List.append_assoc]
    exact hws.stops (stops_of_head (by decide) _)

theorem IsPart.length_le {bracket : Bracket} {value part : List Char}
    (h : IsPart bracket value part) : value.length ≤ part.length := by
  cases h with
  | item => exact Nat.le_refl _
  | member _ hmember =>
    cases hmember
    simp only [List.length_append, List.length_cons]
    omega

/-- The parts of a list are its values. -/
theorem eq_of_items {values parts : List (List Char)}
    (h : List.Forall₂ (IsPart .list) values parts) : values = parts := by
  induction h with
  | nil => rfl
  | cons hitem _ ih =>
    cases hitem
    rw [ih]

/-- A part of an object begins with a key. -/
theorem IsPart.quote {value part : List Char} (h : IsPart .object value part) :
    ∃ rest, part = '\x22' :: rest := by
  cases h with | member _ hmember =>
  cases hmember
  exact ⟨_, rfl⟩

/-- An object has no more members than characters. -/
theorem Parts.length_le {first : Bool} {values parts : List (List Char)} {cs : List Char}
    (h : Parts .object first parts cs) (hparts : List.Forall₂ (IsPart .object) values parts) :
    parts.length ≤ cs.length := by
  induction h generalizing values with
  | close => exact Nat.zero_le _
  | part _ _ ih =>
    obtain ⟨value, values, hpart, htail, rfl⟩ := List.forall₂_cons_right_iff.1 hparts
    obtain ⟨rest, rfl⟩ := hpart.quote
    have hrest := ih htail
    simp only [List.length_append, List.length_cons]
    omega

/-- A part begins with a character of its own, too. -/
theorem IsPart.exists_cons {bracket : Bracket} {value part : List Char}
    (h : IsPart bracket value part) (hvalue : IsValue value) :
    ∃ c rest, part = c :: rest ∧ isBlank c = false ∧ c ≠ bracket.closing := by
  cases h with
  | item =>
    obtain ⟨c, rest, rfl, hblank, hc⟩ := hvalue.exists_cons
    exact ⟨c, rest, rfl, hblank, by rintro rfl; exact hc (by decide)⟩
  | member _ hmember =>
    cases hmember
    exact ⟨_, _, rfl, rfl, by decide⟩

end ZigbeeHost.Config
