import Mathlib.Data.List.Nodup
import ZigbeeHost.Proofs.Config.Values
/-!
# What the members of an object give

A record is described by its `Slot`s, one for each field : the key, the texts of the values, and
where the value is in the record. `GivenBy` says that the members of an object give a record,
without regard to their order, and `SpellsRecord` which texts the record has.

A reader takes the members one after the other, and keeps track of the keys that it has seen
(`Takes`). It comes to the record that the members give, and fails where they give none
(`Describes.takes_iff`). A list of values is taken like members that name the first fields
(`Describes.lists_iff`).
-/

namespace ZigbeeHost.Config

open Reader (RecordField Follows)

/-! ## Members -/

/-- A member of an object : its key, and the text of its value. -/
abbrev Member := String × List Char

/-- The key stands in front of the value in any spelling. -/
inductive IsKeyed (m : Member) (part : List Char) : Prop
  | mk {body : List Char} : SpellsBody m.1.toList body → IsMember body m.2 part → IsKeyed m part

/-- An object with the members, in their order. -/
structure IsObject (ms : List Member) (cs : List Char) : Prop where
  enclosed : ∃ parts, Enclosed .object parts cs ∧ List.Forall₂ IsKeyed ms parts
  values : ∀ m ∈ ms, IsValue m.2

/-- A list of the values. -/
structure IsList (values : List (List Char)) (cs : List Char) : Prop where
  enclosed : Enclosed .list values cs
  values : ∀ value ∈ values, IsValue value

/-- Members with keys are parts of an object. -/
theorem IsKeyed.isPart {ms : List Member} {parts : List (List Char)}
    (h : List.Forall₂ IsKeyed ms parts) :
    List.Forall₂ (IsPart .object) (ms.map Prod.snd) parts := by
  induction h with
  | nil => exact .nil
  | cons hkeyed _ ih =>
    obtain ⟨hbody, hmember⟩ := hkeyed
    exact .cons (.member hbody.isBody hmember) ih

/-- An object is a value. -/
theorem IsObject.isValue {ms : List Member} {cs : List Char} (h : IsObject ms cs) : IsValue cs := by
  obtain ⟨parts, henclosed, hkeyed⟩ := h.enclosed
  refine .bracket henclosed (IsKeyed.isPart hkeyed) fun value hvalue => ?_
  obtain ⟨m, hm, rfl⟩ := List.mem_map.1 hvalue
  exact h.values m hm

/-- A list is a value. -/
theorem IsList.isValue {values : List (List Char)} {cs : List Char} (h : IsList values cs) :
    IsValue cs :=
  .bracket h.enclosed (List.forall₂_same.2 fun _ _ => .item) h.values

/-! ## Slots -/

/-- A field of a record. -/
structure Slot (γ : Type) where
  {α : Type}
  key : String
  /-- The texts of its values. -/
  spells : Spelling α
  /-- Its value in a record. -/
  get : γ → α
  required : Bool := false

variable {γ : Type} {slots : List (Slot γ)} {defaults c c' : γ} {ms : List Member}

/-- The members give the record its value of the field, or leave the default. -/
inductive Slot.Given (slot : Slot γ) (defaults : γ) (ms : List Member) (c : γ) : Prop
  | given {value : List Char} : (slot.key, value) ∈ ms → slot.spells (slot.get c) value →
      Given slot defaults ms c
  | missing : slot.required = false → (∀ m ∈ ms, m.1 ≠ slot.key) →
      slot.get c = slot.get defaults → Given slot defaults ms c

/-- How many members have the key. -/
def occurrences (key : String) (ms : List Member) : Nat := ms.countP (·.1 = key)

/-- The members give the field at most once, and with one of its values. They do not leave it out
if it is needed. -/
structure Slot.Admits (slot : Slot γ) (ms : List Member) : Prop where
  once : occurrences slot.key ms ≤ 1
  valid : ∀ value, (slot.key, value) ∈ ms → ∃ v, slot.spells v value
  needed : slot.required = true → occurrences slot.key ms ≠ 0

/-- The members give the record. No field may be given twice, but any other key may. -/
structure GivenBy (slots : List (Slot γ)) (defaults : γ) (ms : List Member) (c : γ) : Prop where
  once : ∀ slot ∈ slots, occurrences slot.key ms ≤ 1
  given : ∀ slot ∈ slots, slot.Given defaults ms c

/-- Values under the names of the first fields. -/
def named (slots : List (Slot γ)) (values : List (List Char)) : List Member :=
  (slots.map Slot.key).zip values

/-- The texts of a record : objects whose members give it, and lists of the values of its first
fields. -/
inductive SpellsRecord (slots : List (Slot γ)) (defaults c : γ) (cs : List Char) : Prop
  | object {ms : List Member} : IsObject ms cs → GivenBy slots defaults ms c →
      SpellsRecord slots defaults c cs
  | list {values : List (List Char)} : IsList values cs → values.length ≤ slots.length →
      GivenBy slots defaults (named slots values) c → SpellsRecord slots defaults c cs

/-! ## Fields and their slots -/

/-- `c'` is `c` with another value of the field. -/
structure Slot.Sets (slots : List (Slot γ)) (slot : Slot γ) (v : slot.α) (c c' : γ) : Prop where
  self : slot.get c' = v
  other : ∀ other ∈ slots, other.key ≠ slot.key → other.get c' = other.get c

/-- What the field of a slot is. -/
structure Slot.Fits (slots : List (Slot γ)) (field : RecordField γ) (slot : Slot γ)
    (reader : Reader slot.α) (put : slot.α → γ → γ) : Prop where
  name : field.name = slot.key
  required : field.required = slot.required
  read : field.read = put <$> reader
  follows : Follows reader slot.spells
  sets : ∀ v c, slot.Sets slots v c (put v c)

/-- A field whose reader follows its slot fits it, if it changes nothing else. -/
theorem Slot.Fits.of {α : Type} {key : String} {reader : Reader α}
    {spells : Spelling α} {get : γ → α} {put : α → γ → γ} {required : Bool}
    (hfollows : Follows reader spells) (hself : ∀ v c, get (put v c) = v)
    (hother : ∀ v c, ∀ other ∈ slots, other.key ≠ key → other.get (put v c) = other.get c) :
    Slot.Fits slots { RecordField.of key reader put with required }
      { key, spells, get, required } reader put where
  name := rfl
  required := rfl
  read := rfl
  follows := hfollows
  sets v c := ⟨hself v c, hother v c⟩

/-- The slot describes the field. -/
def Slot.Describes (slots : List (Slot γ)) (slot : Slot γ) (field : RecordField γ) : Prop :=
  ∃ reader put, slot.Fits slots field reader put

/-- The slots describe a record with the fields. -/
structure Describes (slots : List (Slot γ)) (fields : List (RecordField γ)) : Prop where
  fits : List.Forall₂ (Slot.Describes slots) slots fields
  keys : (slots.map Slot.key).Nodup
  /-- Nothing else is in a record. -/
  ext : ∀ c c', (∀ slot ∈ slots, slot.get c = slot.get c') → c = c'

namespace Describes

variable {fields : List (RecordField γ)} (h : Describes slots fields)
include h

/-- Every slot has a field that reads it. -/
theorem exists_fits {slot : Slot γ} (hslot : slot ∈ slots) :
    ∃ field reader put, slot.Fits slots field reader put := by
  obtain ⟨i, hi, rfl⟩ := List.getElem_of_mem hslot
  have hlength := h.fits.length_eq
  exact ⟨fields[i], h.fits.get (i := i) hi (by omega)⟩

/-- A slot is told apart by its key. -/
theorem eq_of_key {slot other : Slot γ} (hslot : slot ∈ slots) (hother : other ∈ slots)
    (hkey : other.key = slot.key) : other = slot :=
  List.inj_on_of_nodup_map h.keys hother hslot hkey

/-- What is spelled for a slot has one reading. -/
theorem unique {slot : Slot γ} (hslot : slot ∈ slots) {v v' : slot.α} {value : List Char}
    (hv : slot.spells v value) (hv' : slot.spells v' value) : v = v' := by
  obtain ⟨field, reader, put, hfits⟩ := h.exists_fits hslot
  have hread := hfits.follows.accepts hv isBlanks_nil stops_nil
  rw [hfits.follows.accepts hv' isBlanks_nil stops_nil] at hread
  cases hread
  rfl

/-- A slot is set in one way. -/
theorem sets_unique {slot : Slot γ} (hslot : slot ∈ slots) {v : slot.α} {c₁ c₂ : γ}
    (h₁ : slot.Sets slots v c c₁) (h₂ : slot.Sets slots v c c₂) : c₁ = c₂ := by
  refine h.ext c₁ c₂ fun other hother => ?_
  by_cases hkey : other.key = slot.key
  · obtain rfl := h.eq_of_key hslot hother hkey
    rw [h₁.self, h₂.self]
  · rw [h₁.other other hother hkey, h₂.other other hother hkey]

end Describes

/-- A member of another slot gives nothing to this one. -/
theorem Slot.Given.cons {slot : Slot γ} {m : Member} (hkey : m.1 ≠ slot.key)
    (h : slot.Given defaults ms c) : slot.Given defaults (m :: ms) c := by
  cases h with
  | given hmem hvalue => exact .given (List.mem_cons_of_mem _ hmem) hvalue
  | missing hrequired hnone hget =>
    exact .missing hrequired (List.forall_mem_cons.2 ⟨hkey, hnone⟩) hget

theorem Slot.Given.of_eq {slot : Slot γ} (hget : slot.get c' = slot.get defaults)
    (h : slot.Given c' ms c) : slot.Given defaults ms c := by
  cases h with
  | given hmem hvalue => exact .given hmem hvalue
  | missing hrequired hnone heq => exact .missing hrequired hnone (heq.trans hget)

/-! ## Members one after the other -/

/-- The members are taken one after the other, when those with the keys `seen` were before. They
change `c` into `c'`. -/
inductive Takes (slots : List (Slot γ)) : List Member → List String → γ → γ → Prop
  | done {seen : List String} {c : γ} :
      (∀ slot ∈ slots, slot.required = true → slot.key ∈ seen) → Takes slots [] seen c c
  | unknown {m : Member} {ms : List Member} {seen : List String} {c c' : γ} :
      (∀ slot ∈ slots, slot.key ≠ m.1) → Takes slots ms seen c c' → Takes slots (m :: ms) seen c c'
  | known {slot : Slot γ} {v : slot.α} {m : Member} {ms : List Member} {seen : List String}
      {c c₁ c' : γ} : slot ∈ slots → slot.key = m.1 → m.1 ∉ seen → slot.spells v m.2 →
      slot.Sets slots v c c₁ → Takes slots ms (m.1 :: seen) c₁ c' →
      Takes slots (m :: ms) seen c c'

theorem occurrences_cons (key : String) (m : Member) (ms : List Member) :
    occurrences key (m :: ms) = occurrences key ms + if m.1 = key then 1 else 0 := by
  simp [occurrences, List.countP_cons]

theorem occurrences_eq_zero {key : String} {ms : List Member} :
    occurrences key ms = 0 ↔ ∀ m ∈ ms, m.1 ≠ key := by
  simp [occurrences, List.countP_eq_zero]

/-- A key that comes once has one value. -/
theorem value_unique {key : String} {value value' : List Char} (honce : occurrences key ms ≤ 1)
    (hvalue : (key, value) ∈ ms) (hvalue' : (key, value') ∈ ms) : value = value' := by
  induction ms with
  | nil => cases hvalue
  | cons m ms ih =>
    rw [occurrences_cons] at honce
    by_cases hkey : m.1 = key
    · rw [if_pos hkey] at honce
      have hnone := occurrences_eq_zero.1 (Nat.le_zero.1 (Nat.le_of_succ_le_succ honce))
      have hfirst {value : List Char} (h : (key, value) ∈ m :: ms) : (key, value) = m :=
        (List.mem_cons.1 h).resolve_right fun hmem => hnone _ hmem rfl
      exact congrArg Prod.snd ((hfirst hvalue).trans (hfirst hvalue').symm)
    · rw [if_neg hkey] at honce
      have hrest {value : List Char} (h : (key, value) ∈ m :: ms) : (key, value) ∈ ms :=
        (List.mem_cons.1 h).resolve_left fun heq => hkey (heq ▸ rfl)
      exact ih honce (hrest hvalue) (hrest hvalue')

/-- The value that stands for a field is the only one. -/
theorem Slot.Given.spells_of_mem {slot : Slot γ} {value : List Char}
    (h : slot.Given defaults ms c) (honce : occurrences slot.key ms ≤ 1)
    (hvalue : (slot.key, value) ∈ ms) : slot.spells (slot.get c) value := by
  cases h with
  | given hmem hspells => exact value_unique honce hmem hvalue ▸ hspells
  | missing _ hnone => exact absurd rfl (hnone _ hvalue)

/-- What the members give to a slot, the slot admits. -/
theorem GivenBy.admits (h : GivenBy slots defaults ms c) {slot : Slot γ} (hslot : slot ∈ slots) :
    slot.Admits ms where
  once := h.once slot hslot
  valid _ hvalue := ⟨_, (h.given slot hslot).spells_of_mem (h.once slot hslot) hvalue⟩
  needed hneeded hnone := by
    cases h.given slot hslot with
    | given hmem => exact occurrences_eq_zero.1 hnone _ hmem rfl
    | missing hoptional =>
      rw [hneeded] at hoptional
      cases hoptional

namespace Describes

variable {fields : List (RecordField γ)} (h : Describes slots fields)
include h

/-- Members that were taken gave each field once. Those that were seen before are not given
again. -/
theorem given_of_takes {seen : List String} (htakes : Takes slots ms seen c c') {slot : Slot γ}
    (hslot : slot ∈ slots) :
    (slot.key ∈ seen → occurrences slot.key ms = 0 ∧ slot.get c' = slot.get c) ∧
      (slot.key ∉ seen → occurrences slot.key ms ≤ 1 ∧ slot.Given c ms c') := by
  induction htakes with
  | done hrequired =>
    refine ⟨fun _ => ⟨rfl, rfl⟩, fun hnew => ⟨Nat.zero_le _, .missing ?_ nofun rfl⟩⟩
    exact Bool.eq_false_iff.2 fun hneeded => hnew (hrequired slot hslot hneeded)
  | unknown hunknown _ ih =>
    have hkey := (hunknown slot hslot).symm
    rw [occurrences_cons, if_neg hkey]
    exact ⟨ih.1, fun hnew => ⟨(ih.2 hnew).1, (ih.2 hnew).2.cons hkey⟩⟩
  | @known other v m ms seen c c₁ c' hother hnamed hfresh hv hsets _ ih =>
    obtain ⟨key, value⟩ := m
    obtain rfl : other.key = key := hnamed
    rw [occurrences_cons]
    by_cases hkey : slot.key = other.key
    · obtain rfl := h.eq_of_key hother hslot hkey
      obtain ⟨hnone, hget⟩ := ih.1 List.mem_cons_self
      refine ⟨fun hseen => absurd hseen hfresh, fun _ => ⟨?_, ?_⟩⟩
      · simp [hnone]
      · exact .given List.mem_cons_self (by rwa [hget, hsets.self])
    · have hget := hsets.other slot hslot hkey
      rw [if_neg (Ne.symm hkey)]
      refine ⟨fun hseen => ?_, fun hnew => ?_⟩
      · obtain ⟨hnone, hstays⟩ := ih.1 (List.mem_cons_of_mem _ hseen)
        exact ⟨hnone, hstays.trans hget⟩
      · obtain ⟨honce, hgiven⟩ := ih.2 (by simp [hkey, hnew])
        exact ⟨honce, (hgiven.of_eq hget).cons (Ne.symm hkey)⟩

/-- Members that every field admits are taken. -/
theorem exists_takes {seen : List String}
    (hseen : ∀ slot ∈ slots, slot.key ∈ seen → occurrences slot.key ms = 0)
    (hnew : ∀ slot ∈ slots, slot.key ∉ seen → slot.Admits ms) (c : γ) :
    ∃ c', Takes slots ms seen c c' := by
  induction ms generalizing seen c with
  | nil =>
    refine ⟨c, .done fun slot hslot hneeded => ?_⟩
    by_contra hmissing
    exact (hnew slot hslot hmissing).needed hneeded rfl
  | cons m ms ih =>
    obtain ⟨key, value⟩ := m
    have hother (slot : Slot γ) (hslot : slot ∈ slots) (hkey : key ≠ slot.key)
        (hmissing : slot.key ∉ seen) : slot.Admits ms := by
      obtain ⟨honce, hvalid, hneeded⟩ := hnew slot hslot hmissing
      rw [occurrences_cons, if_neg hkey] at honce hneeded
      exact ⟨honce, fun value hvalue => hvalid value (List.mem_cons_of_mem _ hvalue), hneeded⟩
    have hgone (slot : Slot γ) (hslot : slot ∈ slots) (hkey : key ≠ slot.key)
        (hmem : slot.key ∈ seen) : occurrences slot.key ms = 0 := by
      have hnone := hseen slot hslot hmem
      rwa [occurrences_cons, if_neg hkey] at hnone
    by_cases hknown : ∃ slot ∈ slots, slot.key = key
    · obtain ⟨slot, hslot, rfl⟩ := hknown
      have hfresh : slot.key ∉ seen := fun hmem => by
        have hnone := hseen slot hslot hmem
        rw [occurrences_cons, if_pos rfl] at hnone
        cases hnone
      obtain ⟨honce, hvalid, -⟩ := hnew slot hslot hfresh
      obtain ⟨v, hv⟩ := hvalid value List.mem_cons_self
      obtain ⟨field, reader, put, hfits⟩ := h.exists_fits hslot
      rw [occurrences_cons, if_pos rfl] at honce
      have hnone : occurrences slot.key ms = 0 := by omega
      obtain ⟨c', hrest⟩ : ∃ c', Takes slots ms (slot.key :: seen) (put v c) c' := ih
        (fun other hslot' hmem => by
          by_cases hkey : slot.key = other.key
          · exact hkey ▸ hnone
          · exact hgone other hslot' hkey ((List.mem_cons.1 hmem).resolve_left (Ne.symm hkey)))
        (fun other hslot' hmissing => by
          obtain ⟨hkey, hmissing⟩ := not_or.1 (mt List.mem_cons.2 hmissing)
          exact hother other hslot' (Ne.symm hkey) hmissing) _
      exact ⟨c', .known hslot rfl hfresh hv (hfits.sets v c) hrest⟩
    · have hunknown : ∀ slot ∈ slots, slot.key ≠ key := fun slot hslot hkey =>
        hknown ⟨slot, hslot, hkey⟩
      obtain ⟨c', hrest⟩ := ih
        (fun slot hslot hmem => hgone slot hslot (hunknown slot hslot).symm hmem)
        (fun slot hslot hmissing => hother slot hslot (hunknown slot hslot).symm hmissing) c
      exact ⟨c', .unknown hunknown hrest⟩

/-- What takes the members in turn is what they give. -/
theorem givenBy_of_takes (htakes : Takes slots ms [] defaults c) : GivenBy slots defaults ms c where
  once _ hslot := ((h.given_of_takes htakes hslot).2 List.not_mem_nil).1
  given _ hslot := ((h.given_of_takes htakes hslot).2 List.not_mem_nil).2

/-- Members give one configuration at most. -/
theorem givenBy_unique (hgiven : GivenBy slots defaults ms c)
    (hgiven' : GivenBy slots defaults ms c') : c = c' := by
  refine h.ext _ _ fun slot hslot => ?_
  have honce := hgiven.once slot hslot
  cases hgiven'.given slot hslot with
  | given hmem hspells =>
    exact h.unique hslot ((hgiven.given slot hslot).spells_of_mem honce hmem) hspells
  | missing _ hnone hget' =>
    cases hgiven.given slot hslot with
    | given hmem => exact absurd rfl (hnone _ hmem)
    | missing _ _ hget => exact hget.trans hget'.symm

/-- Members that every field admits give a record. -/
theorem exists_givenBy (hadmits : ∀ slot ∈ slots, slot.Admits ms) (defaults : γ) :
    ∃ c, GivenBy slots defaults ms c := by
  obtain ⟨c, htakes⟩ := h.exists_takes (fun _ _ hmem => absurd hmem List.not_mem_nil)
    (fun slot hslot _ => hadmits slot hslot) defaults
  exact ⟨c, h.givenBy_of_takes htakes⟩

/-- Members are taken if they give a record, and lead to that. -/
theorem takes_iff : Takes slots ms [] defaults c ↔ GivenBy slots defaults ms c := by
  refine ⟨h.givenBy_of_takes, fun hgiven => ?_⟩
  obtain ⟨c', htakes⟩ := h.exists_takes (fun _ _ hmem => absurd hmem List.not_mem_nil)
    (fun slot hslot _ => hgiven.admits hslot) defaults
  exact h.givenBy_unique (h.givenBy_of_takes htakes) hgiven ▸ htakes

end Describes

/-! ## Values one after the other -/

/-- The values of a list are taken for the fields, which are the last ones of the record. -/
inductive Lists (slots : List (Slot γ)) : List (Slot γ) → List (List Char) → γ → γ → Prop
  | done {behind : List (Slot γ)} {c : γ} : (∀ slot ∈ behind, slot.required = false) →
      Lists slots behind [] c c
  | item {slot : Slot γ} {behind : List (Slot γ)} {v : slot.α} {value : List Char}
      {values : List (List Char)} {c c₁ c' : γ} : slot.spells v value → slot.Sets slots v c c₁ →
      Lists slots behind values c₁ c' → Lists slots (slot :: behind) (value :: values) c c'

section Fronts

variable {front behind : List (Slot γ)} {seen : List String}
  (hkeys : ((front ++ behind).map Slot.key).Nodup)
  (hseen : ∀ key, key ∈ seen ↔ key ∈ front.map Slot.key)
include hkeys hseen

/-- Slots that are still to come were not seen. -/
theorem not_mem_seen {slot : Slot γ} (hslot : slot ∈ behind) : slot.key ∉ seen := by
  intro hmem
  rw [List.map_append] at hkeys
  exact (List.nodup_append.1 hkeys).2.2 _ ((hseen _).1 hmem) _ (List.mem_map_of_mem hslot) rfl

/-- A list that is over leaves out the same fields as members that are. -/
theorem lists_nil_iff : Lists (front ++ behind) behind [] c c' ↔
    Takes (front ++ behind) [] seen c c' := by
  constructor
  · rintro ⟨hoptional⟩
    refine .done fun slot hslot hneeded => ?_
    obtain hfront | hbehind := List.mem_append.1 hslot
    · exact (hseen _).2 (List.mem_map_of_mem hfront)
    · rw [hoptional slot hbehind] at hneeded
      cases hneeded
  · rintro ⟨hrequired⟩
    refine .done fun slot hslot => Bool.eq_false_iff.2 fun hneeded => ?_
    exact not_mem_seen hkeys hseen hslot (hrequired slot (List.mem_append_right _ hslot) hneeded)

/-- A list is taken like members that name its values. -/
theorem lists_iff_takes {values : List (List Char)} :
    Lists (front ++ behind) behind values c c' ↔
      values.length ≤ behind.length ∧ Takes (front ++ behind) (named behind values) seen c c' := by
  induction values generalizing front behind seen c with
  | nil =>
    have hnamed : named behind [] = [] := List.zip_nil_right
    rw [lists_nil_iff hkeys hseen, hnamed]
    exact ⟨fun htakes => ⟨Nat.zero_le _, htakes⟩, And.right⟩
  | cons value values ih =>
    cases behind with
    | nil =>
      refine ⟨?_, fun hlong => absurd hlong.1 (Nat.not_succ_le_zero _)⟩
      rintro ⟨⟩
    | cons slot behind =>
      have hslots : front ++ slot :: behind = (front ++ [slot]) ++ behind := by simp
      have hrest (c : γ) : Lists (front ++ slot :: behind) behind values c c' ↔
          values.length ≤ behind.length ∧
            Takes (front ++ slot :: behind) (named behind values) (slot.key :: seen) c c' := by
        rw [hslots] at hkeys ⊢
        exact ih hkeys (by simp [hseen, or_comm])
      constructor
      · intro hlists
        cases hlists with
        | item hv hsets hlists =>
          obtain ⟨hlength, htakes⟩ := (hrest _).1 hlists
          have hfresh := not_mem_seen hkeys hseen List.mem_cons_self
          exact ⟨Nat.succ_le_succ hlength, .known (by simp) rfl hfresh hv hsets htakes⟩
      · rintro ⟨hlength, htakes⟩
        cases htakes with
        | unknown hunknown => exact absurd rfl (hunknown slot (by simp))
        | @known other v _ _ _ _ c₁ _ hother hkey _ hv hsets htakes =>
          have heq : other = slot := List.inj_on_of_nodup_map hkeys hother (by simp) hkey
          subst heq
          exact .item hv hsets ((hrest _).2 ⟨Nat.le_of_succ_le_succ hlength, htakes⟩)

end Fronts

/-- Values in a list are taken in turn as what they give to the slots in their places. -/
theorem Describes.lists_iff {fields : List (RecordField γ)} (h : Describes slots fields)
    {values : List (List Char)} : Lists slots slots values defaults c ↔
      values.length ≤ slots.length ∧ GivenBy slots defaults (named slots values) c := by
  have hkeys : (([] ++ slots).map Slot.key).Nodup := h.keys
  rw [← h.takes_iff]
  exact lists_iff_takes hkeys fun key => by simp

end ZigbeeHost.Config
