import ZigbeeHost.Proofs.Config.Slots
/-!
# Readers of records

The reader of a record follows the texts of the record (`Describes.follows`). It reads an object
member by member, and one member is taken or not as `Takes` has it (`Describes.members_step`), so
a whole object is, too (`Describes.members_iff`). A list is read value by value in the same way
(`Describes.elements_iff`).
-/

namespace ZigbeeHost.Config

open Reader

variable {γ : Type} {slots : List (Slot γ)} {fields : List (RecordField γ)}

/-- What a reader makes of the text of a value. -/
theorem Reader.Follows.read_iff {α : Type} {reader : Reader α} {spells : Spelling α}
    (h : Follows reader spells) {v : α} {value ws cs rest : List Char} (hvalue : IsValue value)
    (hws : IsBlanks ws) (hcs : Stops cs) :
    reader (ws ++ (value ++ cs)) = .ok (v, rest) ↔ spells v value ∧ rest = cs := by
  constructor
  · intro hread
    have hv := h.sound hvalue hws hcs hread
    rw [h.accepts hv hws hcs] at hread
    cases hread
    exact ⟨hv, rfl⟩
  · rintro ⟨hv, rfl⟩
    exact h.accepts hv hws hcs

/-! ## Objects -/

/-- Where a key leads, there is another member. -/
theorem nextKey_lead {first : Bool} {lead : List Char} (h : Lead first lead) (text : List Char) :
    nextKey first (lead ++ '\x22' :: text) = .ok (true, '\x22' :: text) := by
  cases h with
  | first hws =>
    unfold nextKey
    rw [hws.peek_bind]
    rfl
  | further hws hws' =>
    unfold nextKey
    rw [List.append_assoc, List.cons_append, hws.peek_bind_cons rfl]
    dsimp only
    rw [if_neg (by decide), if_pos Bool.false_ne_true, if_neg (by decide), skip_bind,
      hws'.peek_bind]
    rfl

/-- Where the bracket closes, there is none. -/
theorem nextKey_close {ws : List Char} (hws : IsBlanks ws) (first : Bool) (text : List Char) :
    nextKey first (ws ++ '}' :: text) = .ok (false, '}' :: text) := by
  unfold nextKey
  rw [hws.peek_bind]
  rfl

theorem allOptional_iff {fields : List (RecordField γ)} {text : List Char}
    {out : Unit × List Char} : allOptional fields text = .ok out ↔
      (∀ field ∈ fields, field.required = false) ∧ out = ((), text) := by
  have hany : fields.any RecordField.required = false ↔
      ∀ field ∈ fields, field.required = false := by
    simp [List.any_eq_false]
  rw [← hany]
  unfold allOptional
  cases fields.any RecordField.required
  · exact ⟨fun hread => ⟨rfl, (Except.ok.inj hread).symm⟩, fun hout => hout.2 ▸ rfl⟩
  · exact ⟨nofun, nofun⟩

/-- A key is what the string in front of the colon spells. -/
theorem isKeyed_iff {key : String} {body ws ws' value : List Char} (hbody : IsBody body)
    (hws : IsBlanks ws) (hws' : IsBlanks ws') :
    IsKeyed (key, value) ('\x22' :: (body ++ '\x22' :: (ws ++ ':' :: (ws' ++ value)))) ↔
      SpellsBody key.toList body := by
  constructor
  · intro hkeyed
    generalize hpart : '\x22' :: (body ++ '\x22' :: (ws ++ ':' :: (ws' ++ value))) = part at hkeyed
    obtain ⟨hspells, hmember⟩ := hkeyed
    cases hmember with | @mk before behind =>
    have hread := string_spells hspells (before ++ ':' :: (behind ++ value))
    rw [← List.tail_eq_of_cons_eq hpart, string_iff hbody] at hread
    exact hread.1
  · exact fun hspells => .mk hspells (.mk hws hws')

/-- A part of an object has one key. -/
theorem IsKeyed.key_unique {key key' : String} {value part : List Char}
    (h : IsKeyed (key, value) part) (h' : IsKeyed (key', value) part) : key = key' := by
  obtain ⟨hspells, hmember⟩ := h
  cases hmember with | @mk ws ws' hws hws' =>
  have hspells' := (isKeyed_iff hspells.isBody hws hws').1 h'
  have hread := string_spells hspells []
  rw [string_spells hspells' []] at hread
  exact congrArg Prod.fst (Except.ok.inj hread).symm

/-- Members are told apart by their parts. -/
theorem IsKeyed.members_unique {ms ms' : List Member} {parts : List (List Char)}
    (h : List.Forall₂ IsKeyed ms parts) (h' : List.Forall₂ IsKeyed ms' parts)
    (hvalues : ms'.map Prod.snd = ms.map Prod.snd) : ms' = ms := by
  induction h generalizing ms' with
  | nil => cases h'; rfl
  | @cons m part ms parts hkeyed _ ih =>
    obtain ⟨m', ms', hkeyed', htail', rfl⟩ := List.forall₂_cons_right_iff.1 h'
    obtain ⟨hvalue, hrest⟩ := List.cons.inj hvalues
    obtain ⟨key, value⟩ := m
    obtain ⟨key', value'⟩ := m'
    obtain rfl : value' = value := hvalue
    rw [hkeyed.key_unique hkeyed', ih htail' hrest]

/-- A key is that of a field, and the field fits its slot, or no slot has it. -/
theorem find?_fits {fields : List (RecordField γ)} {described : List (Slot γ)}
    (h : List.Forall₂ (Slot.Describes slots) described fields) (key : String) :
    (fields.find? (·.name == key) = none ∧ ∀ slot ∈ described, slot.key ≠ key) ∨
      ∃ field slot reader put, fields.find? (·.name == key) = some field ∧ slot ∈ described ∧
        slot.key = key ∧ slot.Fits slots field reader put := by
  induction h with
  | nil => exact .inl ⟨rfl, nofun⟩
  | @cons slot field described fields hfits _ ih =>
    obtain ⟨reader, put, hfits⟩ := hfits
    by_cases hkey : slot.key = key
    · refine .inr ⟨field, slot, reader, put, ?_, List.mem_cons_self, hkey, hfits⟩
      simp [hfits.name, hkey]
    · rw [List.find?_cons_of_neg (by simpa [hfits.name] using hkey)]
      obtain ⟨hnone, hother⟩ | ⟨field', slot', reader', put', hsome, hslot, hfound⟩ := ih
      · exact .inl ⟨hnone, List.forall_mem_cons.2 ⟨hkey, hother⟩⟩
      · exact .inr ⟨field', slot', reader', put', hsome, List.mem_cons_of_mem _ hslot, hfound⟩

/-- What holds of all fields holds of all slots. -/
theorem forall_fits {fields : List (RecordField γ)} {described : List (Slot γ)}
    (h : List.Forall₂ (Slot.Describes slots) described fields) (p : String → Bool → Prop) :
    (∀ field ∈ fields, p field.name field.required) ↔
      ∀ slot ∈ described, p slot.key slot.required := by
  induction h with
  | nil => exact ⟨fun _ => nofun, fun _ => nofun⟩
  | cons hfits _ ih =>
    obtain ⟨reader, put, hfits⟩ := hfits
    rw [List.forall_mem_cons, List.forall_mem_cons, ih, hfits.name, hfits.required]

namespace Describes

variable (h : Describes slots fields)
include h

theorem find?_cases (key : String) :
    (fields.find? (·.name == key) = none ∧ ∀ slot ∈ slots, slot.key ≠ key) ∨
      ∃ field slot reader put, fields.find? (·.name == key) = some field ∧ slot ∈ slots ∧
        slot.key = key ∧ slot.Fits slots field reader put :=
  find?_fits h.fits key

/-- The next member is taken, or nothing is read. -/
theorem members_step {first : Bool} {text part value cs : List Char}
    (hnext : nextKey first text = .ok (true, part ++ cs)) (hpart : IsPart .object value part)
    (hvalue : IsValue value) (hcs : Stops cs) {rounds : Nat} {seen : List String} {c : γ}
    {out : γ × List Char} :
    members fields (rounds + 1) first seen c text = .ok out ↔
      ∃ key, IsKeyed (key, value) part ∧
        ((∀ slot ∈ slots, slot.key ≠ key) ∧ members fields rounds false seen c cs = .ok out ∨
          ∃ slot ∈ slots, slot.key = key ∧ key ∉ seen ∧ ∃ v c₁, slot.spells v value ∧
            slot.Sets slots v c c₁ ∧
              members fields rounds false (key :: seen) c₁ cs = .ok out) := by
  cases hpart with | member hbody hmember =>
  cases hmember with | @mk ws ws' hws hws' =>
  rw [members, bind_of_ok hnext, if_pos rfl]
  simp only [List.cons_append, List.append_assoc]
  rw [skip_bind, bind_eq_ok]
  refine exists_congr fun key => ?_
  rw [isKeyed_iff hbody hws hws']
  simp only [string_iff hbody, and_assoc, exists_and_left, exists_eq_left]
  refine and_congr_right fun _ => ?_
  obtain ⟨hnone, hunknown⟩ | ⟨field, slot, reader, put, hsome, hslot, rfl, hfits⟩ :=
    h.find?_cases key
  · simp only [hnone]
    rw [bind_of_ok (colon_append hws _), bind_of_ok (skipValue_append hvalue hws' hcs)]
    refine ⟨fun hread => .inl ⟨hunknown, hread⟩, ?_⟩
    rintro (⟨-, hread⟩ | ⟨slot, hslot, hkey, -⟩)
    · exact hread
    · exact absurd hkey (hunknown slot hslot)
  · simp only [hsome]
    split
    · rename_i hseen
      refine ⟨nofun, ?_⟩
      rintro (⟨hunknown, -⟩ | ⟨-, -, -, hfresh, -⟩)
      · exact absurd rfl (hunknown slot hslot)
      · exact absurd hseen hfresh
    · rename_i hfresh
      rw [bind_of_ok (colon_append hws _), hfits.read, bind_eq_ok]
      simp only [map_eq_ok, hfits.follows.read_iff hvalue hws' hcs]
      constructor
      · rintro ⟨_, _, ⟨v, _, ⟨hv, rfl⟩, hput⟩, hread⟩
        cases hput
        exact .inr ⟨slot, hslot, rfl, hfresh, v, hv, _, hfits.sets v c, hread⟩
      · rintro (⟨hunknown, -⟩ | ⟨other, hother, hkey, -, v, hv, c₁, hsets, hread⟩)
        · exact absurd rfl (hunknown slot hslot)
        · obtain rfl := h.eq_of_key hslot hother hkey
          obtain rfl := h.sets_unique hslot hsets (hfits.sets v c)
          exact ⟨_, _, ⟨v, _, ⟨hv, rfl⟩, rfl⟩, hread⟩

/-- At the closing bracket all members that are required must have been seen. -/
theorem members_close {first : Bool} {text cs : List Char}
    (hnext : nextKey first text = .ok (false, '}' :: cs)) {rounds : Nat} {seen : List String}
    {c : γ} {out : γ × List Char} :
    members fields (rounds + 1) first seen c text = .ok out ↔
      (∀ slot ∈ slots, slot.required = true → slot.key ∈ seen) ∧ out = (c, cs) := by
  have hfields : (∀ field ∈ fields.filter (·.name ∉ seen), field.required = false) ↔
      ∀ slot ∈ slots, slot.required = true → slot.key ∈ seen := by
    rw [← forall_fits h.fits fun key required => required = true → key ∈ seen]
    simp only [List.mem_filter, decide_eq_true_eq, ← Bool.not_eq_true, and_imp]
    exact forall₂_congr fun _ _ => not_imp_not
  rw [members, bind_of_ok hnext, if_neg Bool.false_ne_true, bind_eq_ok]
  simp only [allOptional_iff, hfields]
  constructor
  · rintro ⟨_, _, ⟨hrequired, hout⟩, hread⟩
    cases hout
    exact ⟨hrequired, (Except.ok.inj hread).symm⟩
  · rintro ⟨hrequired, rfl⟩
    exact ⟨_, _, ⟨hrequired, rfl⟩, rfl⟩

/-- An object is read if its members are taken. -/
theorem members_iff {first : Bool} {parts values : List (List Char)} {cs : List Char}
    (hparts : Parts .object first parts cs) (hvalues : List.Forall₂ (IsPart .object) values parts)
    (hisValue : ∀ value ∈ values, IsValue value) {rounds : Nat} (hrounds : parts.length < rounds)
    {rest : List Char} {seen : List String} {c : γ} {out : γ × List Char} :
    members fields rounds first seen c (cs ++ rest) = .ok out ↔
      ∃ ms : List Member, ms.map Prod.snd = values ∧ List.Forall₂ IsKeyed ms parts ∧
        ∃ c', Takes slots ms seen c c' ∧ out = (c', rest) := by
  induction hparts generalizing values rounds seen c with
  | @close first ws hws =>
    obtain ⟨rounds, rfl⟩ := Nat.exists_eq_succ_of_ne_zero (Nat.ne_zero_of_lt hrounds)
    cases hvalues
    have hnext : nextKey first (ws ++ [Bracket.object.closing] ++ rest) =
        .ok (false, '}' :: rest) := by
      rw [List.append_assoc]
      exact nextKey_close hws first rest
    rw [h.members_close hnext]
    constructor
    · rintro ⟨hrequired, rfl⟩
      exact ⟨[], rfl, .nil, c, .done hrequired, rfl⟩
    · rintro ⟨ms, -, hkeyed, c', htakes, rfl⟩
      cases hkeyed
      cases htakes with | done hrequired => exact ⟨hrequired, rfl⟩
  | @part first lead part cs parts hlead hparts ih =>
    obtain ⟨rounds, rfl⟩ := Nat.exists_eq_succ_of_ne_zero (Nat.ne_zero_of_lt hrounds)
    obtain ⟨value, values, hpart, htail, rfl⟩ := List.forall₂_cons_right_iff.1 hvalues
    obtain ⟨hvalue, hisValue⟩ := List.forall_mem_cons.1 hisValue
    have hnext : nextKey first (lead ++ (part ++ cs) ++ rest) =
        .ok (true, part ++ (cs ++ rest)) := by
      obtain ⟨text, rfl⟩ := hpart.quote
      simp only [List.append_assoc, List.cons_append]
      exact nextKey_lead hlead _
    rw [h.members_step hnext hpart hvalue (hparts.stops rest)]
    simp only [ih htail hisValue (Nat.lt_of_succ_lt_succ hrounds)]
    constructor
    · rintro ⟨key, hkeyed, ⟨hunknown, ms, rfl, htail, c', htakes, rfl⟩ |
        ⟨slot, hslot, hkey, hfresh, v, c₁, hv, hsets, ms, rfl, htail, c', htakes, rfl⟩⟩
      · exact ⟨(key, value) :: ms, rfl, .cons hkeyed htail, c', .unknown hunknown htakes, rfl⟩
      · exact ⟨(key, value) :: ms, rfl, .cons hkeyed htail, c',
          .known hslot hkey hfresh hv hsets htakes, rfl⟩
    · rintro ⟨ms, hms, hkeyed, c', htakes, rfl⟩
      obtain ⟨⟨key, value'⟩, ms, hfirst, hbehind, rfl⟩ := List.forall₂_cons_right_iff.1 hkeyed
      obtain ⟨rfl, rfl⟩ := List.cons.inj hms
      refine ⟨key, hfirst, ?_⟩
      cases htakes with
      | unknown hunknown htakes => exact .inl ⟨hunknown, ms, rfl, hbehind, c', htakes, rfl⟩
      | known hslot hkey hfresh hv hsets htakes =>
        exact .inr ⟨_, hslot, hkey, hfresh, _, _, hv, hsets, ms, rfl, hbehind, c', htakes, rfl⟩

end Describes

/-! ## Lists -/

/-- At the closing bracket no field may be left that is required. -/
theorem elements_close {ws : List Char} (hws : IsBlanks ws) {first : Bool}
    {fields : List (RecordField γ)} {rest : List Char} {c : γ} {out : γ × List Char} :
    elements first c fields (ws ++ ']' :: rest) = .ok out ↔
      (∀ field ∈ fields, field.required = false) ∧ out = (c, rest) := by
  cases fields with
  | nil =>
    rw [elements, hws.peek_bind]
    exact ⟨fun hread => ⟨nofun, (Except.ok.inj hread).symm⟩, fun hout => hout.2 ▸ rfl⟩
  | cons field fields =>
    rw [elements, hws.peek_bind_cons rfl]
    dsimp only
    rw [if_pos rfl, bind_eq_ok]
    simp only [allOptional_iff]
    constructor
    · rintro ⟨_, _, ⟨hoptional, hout⟩, hread⟩
      cases hout
      exact ⟨hoptional, (Except.ok.inj hread).symm⟩
    · rintro ⟨hoptional, rfl⟩
      exact ⟨_, _, ⟨hoptional, rfl⟩, rfl⟩

/-- A value goes to the next field. -/
theorem elements_value {first : Bool} {lead value : List Char} (hlead : Lead first lead)
    (hvalue : IsValue value) (field : RecordField γ) (fields : List (RecordField γ)) (c : γ)
    (cs : List Char) : elements first c (field :: fields) (lead ++ (value ++ cs)) =
      (field.read >>= fun put => elements false (put c) fields) (value ++ cs) := by
  obtain ⟨d, value, rfl, hblank, hd⟩ := hvalue.exists_cons
  have hclosing : d ≠ ']' := by rintro rfl; exact hd (by decide)
  rw [elements]
  cases hlead with
  | first hws =>
    rw [List.cons_append, hws.peek_bind_cons hblank]
    dsimp only
    rw [if_neg hclosing]
    rfl
  | further hws hws' =>
    rw [List.append_assoc, List.cons_append, hws.peek_bind_cons rfl]
    dsimp only
    rw [if_neg (by decide), if_pos Bool.false_ne_true, if_neg (by decide), skip_bind]
    rw [List.cons_append, hws'.peek_bind_cons hblank]
    dsimp only
    rw [if_neg hclosing]

/-- There may be no more values than fields. -/
theorem elements_surplus {first : Bool} {lead value : List Char} (hlead : Lead first lead)
    (hvalue : IsValue value) (c : γ) (cs : List Char) (out : γ × List Char) :
    elements first c [] (lead ++ (value ++ cs)) ≠ .ok out := by
  obtain ⟨d, value, rfl, hblank, hd⟩ := hvalue.exists_cons
  have hclosing : d ≠ ']' := by rintro rfl; exact hd (by decide)
  rw [elements]
  cases hlead with
  | first hws =>
    rw [List.cons_append, hws.peek_bind_cons hblank]
    dsimp only
    rw [if_neg hclosing]
    nofun
  | further hws =>
    rw [List.append_assoc, hws.peek_bind]
    nofun

namespace Describes

variable (h : Describes slots fields)
include h

/-- A list is read if its values are taken. -/
theorem elements_iff {first : Bool} {values : List (List Char)} {cs : List Char}
    (hparts : Parts .list first values cs) (hisValue : ∀ value ∈ values, IsValue value)
    {remaining : List (RecordField γ)} {behind : List (Slot γ)}
    (hfits : List.Forall₂ (Slot.Describes slots) behind remaining)
    (hbehind : ∀ slot ∈ behind, slot ∈ slots) {rest : List Char} {c : γ} {out : γ × List Char} :
    elements first c remaining (cs ++ rest) = .ok out ↔
      ∃ c', Lists slots behind values c c' ∧ out = (c', rest) := by
  generalize hbracket : Bracket.list = bracket at hparts
  induction hparts generalizing remaining behind c with
  | @close first ws hws =>
    subst hbracket
    have hoptional : (∀ field ∈ remaining, field.required = false) ↔
        ∀ slot ∈ behind, slot.required = false :=
      forall_fits hfits fun _ required => required = false
    have hclose : elements first c remaining (ws ++ [Bracket.list.closing] ++ rest) = .ok out ↔
        (∀ field ∈ remaining, field.required = false) ∧ out = (c, rest) := by
      rw [List.append_assoc]
      exact elements_close hws
    rw [hclose, hoptional]
    constructor
    · rintro ⟨hoptional, rfl⟩
      exact ⟨c, .done hoptional, rfl⟩
    · rintro ⟨c', ⟨hoptional⟩, rfl⟩
      exact ⟨hoptional, rfl⟩
  | @part first lead value cs values hlead hparts ih =>
    subst hbracket
    obtain ⟨hvalue, hisValue⟩ := List.forall_mem_cons.1 hisValue
    rw [List.append_assoc, List.append_assoc]
    cases hfits with
    | nil =>
      refine ⟨fun hread => absurd hread (elements_surplus hlead hvalue c _ out), ?_⟩
      rintro ⟨c', ⟨⟩, -⟩
    | @cons slot field behind remaining hfirst hfits =>
      obtain ⟨reader, put, hfirst⟩ := hfirst
      obtain ⟨hslot, hbehind⟩ := List.forall_mem_cons.1 hbehind
      have hread {v : slot.α} {rest' : List Char} :
          reader (value ++ (cs ++ rest)) = .ok (v, rest') ↔
            slot.spells v value ∧ rest' = cs ++ rest :=
        hfirst.follows.read_iff hvalue isBlanks_nil (hparts.stops rest)
      rw [elements_value hlead hvalue, hfirst.read, bind_eq_ok]
      simp only [map_eq_ok, hread]
      constructor
      · rintro ⟨_, _, ⟨v, _, ⟨hv, rfl⟩, hput⟩, hrest⟩
        cases hput
        obtain ⟨c', hlists, rfl⟩ := (ih hisValue hfits hbehind).1 hrest
        exact ⟨c', .item hv (hfirst.sets v c) hlists, rfl⟩
      · rintro ⟨c', hlists, rfl⟩
        cases hlists with | item hv hsets hlists =>
        obtain rfl := h.sets_unique hslot hsets (hfirst.sets _ c)
        exact ⟨_, _, ⟨_, _, ⟨hv, rfl⟩, rfl⟩, (ih hisValue hfits hbehind).2 ⟨c', hlists, rfl⟩⟩

/-! ## Records -/

/-- An object is read as what its members give. -/
theorem record_object {ws cs : List Char} {parts values : List (List Char)} (hws : IsBlanks ws)
    (hcs : Enclosed .object parts cs) (hvalues : List.Forall₂ (IsPart .object) values parts)
    (hisValue : ∀ value ∈ values, IsValue value) (rest : List Char) (defaults : γ)
    {out : γ × List Char} :
    record fields defaults (ws ++ (cs ++ rest)) = .ok out ↔
      ∃ ms : List Member, ms.map Prod.snd = values ∧ List.Forall₂ IsKeyed ms parts ∧
        ∃ c, GivenBy slots defaults ms c ∧ out = (c, rest) := by
  obtain ⟨hparts⟩ := hcs
  rename_i inner
  have hrounds : parts.length < (inner ++ rest).length + 1 := by
    have hlength := hparts.length_le hvalues
    rw [List.length_append]
    omega
  have hrecord : record fields defaults (ws ++ (Bracket.object.opening :: inner ++ rest)) =
      members fields ((inner ++ rest).length + 1) true [] defaults (inner ++ rest) :=
    (hws.peek_bind _ _).trans rfl
  simp only [hrecord, h.members_iff hparts hvalues hisValue hrounds, h.takes_iff]

/-- A list is read as what its values give. -/
theorem record_list {ws cs : List Char} {values : List (List Char)} (hws : IsBlanks ws)
    (hcs : Enclosed .list values cs) (hisValue : ∀ value ∈ values, IsValue value)
    (rest : List Char) (defaults : γ) {out : γ × List Char} :
    record fields defaults (ws ++ (cs ++ rest)) = .ok out ↔
      ∃ c, (values.length ≤ slots.length ∧ GivenBy slots defaults (named slots values) c) ∧
        out = (c, rest) := by
  obtain ⟨hparts⟩ := hcs
  rename_i inner
  have hrecord : record fields defaults (ws ++ (Bracket.list.opening :: inner ++ rest)) =
      elements true defaults fields (inner ++ rest) :=
    (hws.peek_bind _ _).trans rfl
  simp only [hrecord, h.elements_iff hparts hisValue h.fits fun _ hslot => hslot, h.lists_iff]

/-- **Records.** The reader of a record takes the texts of the record, and no others. -/
theorem follows (defaults : γ) :
    Follows (record fields defaults) (SpellsRecord slots defaults) where
  isValue := by
    rintro c cs (⟨hobject, -⟩ | ⟨hlist, -⟩)
    · exact hobject.isValue
    · exact hlist.isValue
  accepts := by
    rintro c cs ws rest (⟨hobject, hgiven⟩ | ⟨hlist, hlength, hgiven⟩) hws -
    · obtain ⟨parts, henclosed, hkeyed⟩ := hobject.enclosed
      refine (h.record_object hws henclosed (IsKeyed.isPart hkeyed) ?_ rest defaults).2
        ⟨_, rfl, hkeyed, c, hgiven, rfl⟩
      exact List.forall_mem_map.2 hobject.values
    · exact (h.record_list hws hlist.enclosed hlist.values rest defaults).2
        ⟨c, ⟨hlength, hgiven⟩, rfl⟩
  sound := by
    intro c cs ws rest rest' hvalue hws hrest hread
    obtain ⟨d, t, rfl, hblank, -⟩ := hvalue.exists_cons
    by_cases hobject : d = '{'
    · obtain rfl := hobject
      obtain ⟨values, parts, henclosed, hparts, hisValue⟩ := hvalue.of_opening .object
      obtain ⟨ms, rfl, hkeyed, c', hgiven, hout⟩ :=
        (h.record_object hws henclosed hparts hisValue rest defaults).1 hread
      cases hout
      exact .object ⟨⟨parts, henclosed, hkeyed⟩, List.forall_mem_map.1 hisValue⟩ hgiven
    by_cases hlist : d = '['
    · obtain rfl := hlist
      obtain ⟨values, parts, henclosed, hparts, hisValue⟩ := hvalue.of_opening .list
      obtain rfl := eq_of_items hparts
      obtain ⟨c', ⟨hlength, hgiven⟩, hout⟩ :=
        (h.record_list hws henclosed hisValue rest defaults).1 hread
      cases hout
      exact .list ⟨henclosed, hisValue⟩ hlength hgiven
    · have hwrong : record fields defaults (ws ++ (d :: t ++ rest)) =
          wrongKind (d :: t ++ rest) := by
        refine (hws.peek_bind_cons hblank _ (t ++ rest)).trans (congrFun ?_ (d :: (t ++ rest)))
        split
        · contradiction
        · exact absurd (Option.some.inj ‹_›) hlist
        · exact absurd (Option.some.inj ‹_›) hobject
        · rfl
      exact absurd (hwrong ▸ hread) (fails_wrongKind _ _)

/-- An object has the text of the record that its members give. -/
theorem spells_object_iff {ms : List Member} {cs : List Char} (hobject : IsObject ms cs)
    {defaults c : γ} : SpellsRecord slots defaults c cs ↔ GivenBy slots defaults ms c := by
  refine ⟨fun hspells => ?_, .object hobject⟩
  obtain ⟨parts, henclosed, hkeyed⟩ := hobject.enclosed
  obtain ⟨ms', hvalues, hkeyed', c', hgiven, hout⟩ :=
    (h.record_object isBlanks_nil henclosed (IsKeyed.isPart hkeyed)
      (List.forall_mem_map.2 hobject.values) [] defaults).1
        ((h.follows defaults).accepts hspells isBlanks_nil stops_nil)
  cases hout
  exact IsKeyed.members_unique hkeyed hkeyed' hvalues ▸ hgiven

/-- A list spells what its values give, each to the slot in its place. -/
theorem spells_list_iff {values : List (List Char)} {cs : List Char} (hlist : IsList values cs)
    {defaults c : γ} : SpellsRecord slots defaults c cs ↔
      values.length ≤ slots.length ∧ GivenBy slots defaults (named slots values) c := by
  refine ⟨fun hspells => ?_, fun hgiven => .list hlist hgiven.1 hgiven.2⟩
  obtain ⟨c', hgiven, hout⟩ :=
    (h.record_list isBlanks_nil hlist.enclosed hlist.values [] defaults).1
      ((h.follows defaults).accepts hspells isBlanks_nil stops_nil)
  cases hout
  exact hgiven

end Describes

end ZigbeeHost.Config
