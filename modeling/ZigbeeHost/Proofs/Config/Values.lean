import Mathlib.Data.List.Induction
import ZigbeeHost.Config.Record
import ZigbeeHost.Proofs.Config.Skip
/-!
# Readers of values

A `Spelling` says which texts a value has, and a reader `Follows` it if it reads the texts of the
values as these values, up to their ends, and fails on every other text of the grammar. The
readers of numbers, truth values and texts do, and optional values may be null besides.

Only the decimal digits of a number spell it. A fraction or an exponent makes another kind of
value of it, whatever it amounts to.
-/

namespace ZigbeeHost.Config

open Reader

variable {α : Type}

/-- The texts that spell a value. -/
abbrev Spelling (α : Type) := α → List Char → Prop

/-- The reader takes the texts that spell a value, and no others. -/
structure Reader.Follows (reader : Reader α) (spells : Spelling α) : Prop where
  isValue : ∀ {v cs}, spells v cs → IsValue cs
  /-- What spells a value is read as the value, up to its end. -/
  accepts : ∀ {v cs ws rest}, spells v cs → IsBlanks ws → Stops rest →
    reader (ws ++ (cs ++ rest)) = .ok (v, rest)
  /-- What is read spells what it is read as. -/
  sound : ∀ {v cs ws rest rest'}, IsValue cs → IsBlanks ws → Stops rest →
    reader (ws ++ (cs ++ rest)) = .ok (v, rest') → spells v cs

namespace Spelling

/-- The decimal digits of a number. -/
def number (toNat : α → Nat) : Spelling α := fun v cs => cs = Nat.toDigits 10 (toNat v)

/-- The spelling of a truth value. -/
def truth : Spelling Bool := fun b cs => cs = (toString b).toList

/-- Null, or a value. -/
def optional (spells : Spelling α) : Spelling (Option α)
  | none, cs => cs = "null".toList
  | some v, cs => spells v cs

end Spelling

/-! ## Values of another kind -/

/-- The reader reads nothing. -/
def Reader.Fails (reader : Reader α) : Prop := ∀ text out, reader text ≠ .ok out

theorem Reader.fails_throw (e : Fault) : Fails (throw e : Reader α) := nofun

theorem Reader.Fails.behind {β : Type} {reader : β → Reader α} (h : ∀ v, Fails (reader v))
    (r : Reader β) : Fails (r >>= reader) := by
  intro text out hread
  obtain ⟨v, rest, -, hread⟩ := bind_eq_ok.1 hread
  exact h v rest out hread

theorem fails_wrongKind : Fails (wrongKind : Reader α) := by
  have hmistyped {β : Type} (r : Reader β) :
      Fails (r >>= fun _ => (throw .mistyped : Reader α)) :=
    .behind (fun _ => fails_throw _) r
  unfold wrongKind
  refine .behind (fun text => ?_) get
  repeat' split
  all_goals first
    | exact fails_throw _
    | exact hmistyped _

/-! ## Natural numbers -/

/-- A number as it is printed is a whole number. -/
theorem isWhole_toDigits (n : Nat) : IsWhole (Nat.toDigits 10 n) := by
  have hdigits : ∀ d ∈ Nat.toDigits 10 n, d.isDigit = true := fun d hd =>
    Nat.isDigit_of_mem_toDigits (by decide) (by decide) hd
  refine ⟨⟨Nat.toDigits_ne_nil, hdigits⟩, ?_⟩
  clear hdigits
  induction n using Nat.strongRecOn with
  | ind n ih =>
    intro hhead
    by_cases hn : n < 10
    · rw [Nat.toDigits_of_lt_base hn] at hhead ⊢
      simpa using hhead
    · have hmore := Nat.toDigits_of_base_le (b := 10) (n := n) (by decide) (by omega)
      rw [hmore, List.head?_append_of_ne_nil _ Nat.toDigits_ne_nil] at hhead
      have hzero := ih (n / 10) (by omega) hhead
      have hvalue : n / 10 = 0 := by
        rw [← Nat.ofDigitChars_toDigits (b := 10) (n := n / 10) (by decide) (by decide), hzero]
        rfl
      omega

theorem digitChar_of_isDigit {d : Char} (hd : d.isDigit = true) :
    d.toNat - 48 < 10 ∧ (d.toNat - 48).digitChar = d := by
  have hrange : 48 ≤ d.toNat ∧ d.toNat ≤ 57 := Char.isDigit_iff_toNat.1 hd
  have hchars : ∀ k < 10, Nat.digitChar k = Char.ofNat (48 + k) := by decide
  have hlt : d.toNat - 48 < 10 := by omega
  refine ⟨hlt, ?_⟩
  rw [hchars _ hlt, Nat.add_sub_cancel' hrange.1, Char.ofNat_toNat]

/-- A whole number is printed as it is spelled. -/
theorem IsWhole.eq_toDigits {ds : List Char} (h : IsWhole ds) :
    ds = Nat.toDigits 10 (Nat.ofDigitChars 10 ds 0) := by
  induction ds using List.reverseRecOn with
  | nil => exact absurd rfl h.1.1
  | append_singleton ds d ih =>
    obtain ⟨⟨-, hdigits⟩, hzero⟩ := h
    obtain ⟨hlt, hd⟩ := digitChar_of_isDigit (hdigits d (by simp))
    have hvalue : Nat.ofDigitChars 10 (ds ++ [d]) 0 =
        10 * Nat.ofDigitChars 10 ds 0 + (d.toNat - 48) := by
      rw [Nat.ofDigitChars_append]
      rfl
    rw [hvalue]
    rcases eq_or_ne ds [] with rfl | hne
    · change [d] = Nat.toDigits 10 (10 * 0 + (d.toNat - 48))
      rw [Nat.mul_zero, Nat.zero_add, Nat.toDigits_of_lt_base hlt, hd]
    · have hwhole : IsWhole ds := by
        refine ⟨⟨hne, fun c hc => hdigits c (by simp [hc])⟩, fun hhead => ?_⟩
        have hshort := hzero (by rw [List.head?_append_of_ne_nil _ hne, hhead])
        exact absurd (congrArg List.length hshort) (by simp [hne])
      have hpos : 0 < Nat.ofDigitChars 10 ds 0 := by
        refine Nat.pos_of_ne_zero fun hvalue => ?_
        have hds : ds = ['0'] := by rw [ih hwhole, hvalue]; rfl
        have hshort := hzero (by rw [hds]; rfl)
        exact hne (List.append_eq_singleton_iff.1 hshort |>.resolve_right (by simp [hds]) |>.1)
      have hlast : Nat.toDigits 10 (d.toNat - 48) = [d] := by
        rw [Nat.toDigits_of_lt_base hlt, hd]
      rw [← Nat.toDigits_append_toDigits (by decide) hpos hlt, hlast, ← ih hwhole]

/-! ## Numbers -/

/-- Digits make a number no less. -/
theorem le_ofDigitChars (ds : List Char) (value : Nat) : value ≤ Nat.ofDigitChars 10 ds value := by
  induction ds generalizing value with
  | nil => exact Nat.le_refl _
  | cons d ds ih =>
    rw [Nat.ofDigitChars_cons]
    exact Nat.le_trans (by omega) (ih _)

/-- All digits are taken if the number is within the limit. -/
theorem extend_left_of_le {limit : Nat} {ds : List Char} {value : Nat}
    (h : Nat.ofDigitChars 10 ds value ≤ limit) : (extend limit value ds).2.2 = 0 := by
  induction ds generalizing value with
  | nil => rfl
  | cons d ds ih =>
    rw [Nat.ofDigitChars_cons] at h
    have hle : 10 * value + digitValue d ≤ limit := Nat.le_trans (le_ofDigitChars ds _) h
    simp only [extend, if_pos hle]
    exact ih h

/-- If no digit is left over, the number is the one that the digits spell. -/
theorem extend_value {limit : Nat} {ds : List Char} {value : Nat}
    (h : (extend limit value ds).2.2 = 0) :
    (extend limit value ds).1 = Nat.ofDigitChars 10 ds value := by
  induction ds generalizing value with
  | nil => rfl
  | cons d ds ih =>
    by_cases hle : 10 * value + digitValue d ≤ limit
    · simp only [extend, if_pos hle] at h ⊢
      exact ih h
    · simp only [extend, if_neg hle] at h
      cases h

/-- The reader does not take what it reads for a natural number. -/
def Reader.Rejects (reader : Reader Number) : Prop :=
  ∀ text n rest, reader text ≠ .ok (.natural n, rest)

theorem Reader.Rejects.behind {β : Type} {reader : β → Reader Number} (h : ∀ v, Rejects (reader v))
    (r : Reader β) : Rejects (r >>= reader) := by
  intro text n rest hread
  obtain ⟨v, rest', -, hread⟩ := bind_eq_ok.1 hread
  exact h v rest' n rest hread

theorem rejects_scaled (significand : Nat) (exponent : Int) :
    Rejects (scaled significand exponent) := by
  unfold scaled
  split <;> nofun

/-- A number with an exponent is no natural number. -/
theorem rejects_exponent (significand : Nat) (start : Int) :
    Rejects (exponent significand start) := by
  unfold exponent
  refine .behind (fun text => .behind (fun text' => ?_) get) get
  dsimp only
  have hscaled (shift : Int) (left : Nat) (p : Prop) [Decidable p] : Rejects
      (if left = 0 then scaled significand shift
      else if p then throw .malformed else pure .other) := by
    split
    · exact rejects_scaled _ _
    · split <;> nofun
  split
  · exact .behind (fun _ => .behind (fun _ => .behind (fun ds => hscaled _ _ _) _) _) _
  · exact .behind (fun _ => .behind (fun ds => hscaled _ _ _) _) _

/-- With an exponent, a number is not a natural one. -/
theorem optionalExponent_iff {significand : Nat} {start : Int} {plain : Reader Number}
    {text rest : List Char} {n : Nat} :
    optionalExponent significand start plain text = .ok (.natural n, rest) ↔
      (text.head? ≠ some 'e' ∧ text.head? ≠ some 'E') ∧ plain text = .ok (.natural n, rest) := by
  unfold optionalExponent
  rw [get_bind, get_bind]
  split
  · rename_i hexponent
    have hrejects : Rejects (skip >>= fun _ => exponent significand start) :=
      .behind (fun _ => rejects_exponent _ _) _
    exact ⟨fun hread => absurd hread (hrejects _ _ _),
      fun hplain => absurd hexponent (not_or.2 hplain.1)⟩
  · rename_i hexponent
    exact (and_iff_right (not_or.1 hexponent)).symm

theorem rejects_optionalExponent (significand : Nat) (start : Int) {plain : Reader Number}
    (h : Rejects plain) : Rejects (optionalExponent significand start plain) :=
  fun text n rest hread => h text n rest (optionalExponent_iff.1 hread).2

/-- A number ends where neither an exponent nor more digits follow. -/
theorem stops_iff {text : List Char} (hdigit : ∀ c ∈ text.head?, c.isDigit = false)
    (hpoint : text.head? ≠ some '.') :
    Stops text ↔ text.head? ≠ some 'e' ∧ text.head? ≠ some 'E' := by
  constructor
  · intro hstops
    exact ⟨fun hc => (hstops 'e' hc).2 (by simp), fun hc => (hstops 'E' hc).2 (by simp)⟩
  · rintro ⟨he, hE⟩ c hc
    refine ⟨hdigit c hc, ?_⟩
    simp only [List.mem_cons, List.not_mem_nil, or_false]
    rintro (rfl | rfl | rfl)
    · exact hpoint hc
    · exact he hc
    · exact hE hc

/-- A number is read as a natural one if its digits are all of it and few enough. -/
theorem number_append {whole : List Char} (h : IsWhole whole) {text : List Char}
    (htext : ∀ c ∈ text.head?, c.isDigit = false) {n : Nat} {rest : List Char} :
    number false (whole ++ text) = .ok (.natural n, rest) ↔
      Stops text ∧ (extend significandLimit 0 whole).2.2 = 0 ∧
        n = Nat.ofDigitChars 10 whole 0 ∧ rest = text := by
  have hzero : ¬(whole.head? = some '0' ∧ whole.length > 1) := fun hbad => h.sound (.inr hbad)
  unfold number
  rw [bind_of_ok (needDigit_append h.1 text), bind_of_ok (digits_append h.1.2 htext)]
  simp only [if_neg hzero, get_bind]
  by_cases hpoint : text.head? = some '.'
  · rw [if_pos hpoint]
    refine ⟨fun hread => absurd hread ?_, fun hend => absurd (hend.1 '.' hpoint).2 (by simp)⟩
    have hrejects (significand : Nat) (start : Int) :
        Rejects (optionalExponent significand start (scaled significand start)) :=
      rejects_optionalExponent _ _ (rejects_scaled _ _)
    exact Rejects.behind (fun _ => .behind (fun _ => .behind (fun _ => hrejects _ _) _) _) _ _ _ _
  rw [if_neg hpoint, optionalExponent_iff, stops_iff htext hpoint]
  refine and_congr_right fun _ => ?_
  by_cases hleft : (extend significandLimit 0 whole).2.2 = 0
  · rw [if_pos ⟨hleft, Bool.false_ne_true⟩, extend_value hleft]
    constructor
    · intro hread
      cases hread
      exact ⟨hleft, rfl, rfl⟩
    · rintro ⟨-, rfl, rfl⟩
      rfl
  · rw [if_neg fun hplain => hleft hplain.1]
    exact ⟨fun hread => absurd hread (rejects_scaled _ _ _ _ _),
      fun hplain => absurd hplain.1 hleft⟩

/-- A number that is read as a natural one is spelled as it is printed. -/
theorem IsUnsigned.eq_toDigits {cs rest rest' : List Char} {n : Nat} (h : IsUnsigned cs)
    (hrest : Stops rest) (hread : number false (cs ++ rest) = .ok (.natural n, rest')) :
    cs = Nat.toDigits 10 n := by
  obtain ⟨hwhole, hfraction, hexponent⟩ := h
  rename_i whole fraction exponent
  rw [List.append_assoc, List.append_assoc,
    number_append hwhole (hfraction.head_append hexponent hrest)] at hread
  obtain ⟨hstops, -, rfl, -⟩ := hread
  have hfraction : fraction = [] := by
    cases hfraction with
    | none => rfl
    | some => exact absurd (hstops '.' rfl).2 (by decide)
  subst hfraction
  have hexponent : exponent = [] := by
    cases hexponent with
    | none => rfl
    | some he => exact absurd he (fun he => (hstops _ rfl).2 (List.mem_cons_of_mem _ he))
  subst hexponent
  rw [List.append_nil, List.append_nil]
  exact hwhole.eq_toDigits

theorem natural_blanks {ws : List Char} (hws : IsBlanks ws) (bound : Nat) (text : List Char) :
    natural bound (ws ++ text) = natural bound text := hws.peek_bind _ text

/-- What begins with a digit is read as a number within the bound. -/
theorem natural_digit {c : Char} (hc : c.isDigit = true) (bound : Nat) {text rest : List Char}
    {n : Nat} : natural bound (c :: text) = .ok (n, rest) ↔
      number false (c :: text) = .ok (.natural n, rest) ∧ n ≤ bound := by
  have hne {e : Char} (he : e.isDigit = false) : c ≠ e := ne_of_isDigit hc he
  have hblank : isBlank c = false := by simp [isBlank, hne]
  unfold natural
  rw [bind_of_ok (peek_cons hblank _)]
  simp only [isDigit_eq, hc, if_true, bind_eq_ok]
  constructor
  · rintro ⟨v, rest', hnumber, hv⟩
    cases v with
    | natural m =>
      dsimp only at hv
      split at hv
      · cases hv
        exact ⟨hnumber, by assumption⟩
      · cases hv
    | other => cases hv
  · rintro ⟨hnumber, hn⟩
    refine ⟨_, _, hnumber, ?_⟩
    dsimp only
    rw [if_pos hn]
    rfl

/-- What does not begin with a digit is no number. -/
theorem natural_other {c : Char} (hblank : isBlank c = false) (hc : c.isDigit = false)
    (bound : Nat) (text : List Char) : natural bound (c :: text) = wrongKind (c :: text) := by
  unfold natural
  rw [bind_of_ok (peek_cons hblank _)]
  simp [isDigit_eq, hc]

/-- A natural number is read from its decimal spelling, and from nothing else. -/
theorem follows_natural {bound : Nat} (hbound : bound ≤ significandLimit) :
    Follows (natural bound) fun n cs => n ≤ bound ∧ cs = Nat.toDigits 10 n where
  isValue := by
    rintro n _ ⟨-, rfl⟩
    have hunsigned := IsUnsigned.mk (isWhole_toDigits n) .none .none
    rw [List.append_nil, List.append_nil] at hunsigned
    exact .unsigned hunsigned
  accepts := by
    rintro n _ ws rest ⟨hn, rfl⟩ hws hrest
    have hwhole := isWhole_toDigits n
    have hvalue : Nat.ofDigitChars 10 (Nat.toDigits 10 n) 0 = n :=
      Nat.ofDigitChars_toDigits (by decide) (by decide)
    have hleft : (extend significandLimit 0 (Nat.toDigits 10 n)).2.2 = 0 :=
      extend_left_of_le (by omega)
    have hnumber := (number_append hwhole (fun c hc => (hrest c hc).1)).2
      ⟨hrest, hleft, hvalue.symm, rfl⟩
    obtain ⟨d, ds, hds, hd⟩ := hwhole.1.exists_cons
    rw [natural_blanks hws]
    rw [hds] at hnumber ⊢
    exact (natural_digit hd bound).2 ⟨hnumber, hn⟩
  sound := by
    rintro n cs ws rest rest' hvalue hws hrest hread
    rw [natural_blanks hws] at hread
    obtain ⟨c, t, rfl, hblank, -⟩ := hvalue.exists_cons
    cases hdigit : c.isDigit with
    | false =>
      rw [List.cons_append, natural_other hblank hdigit] at hread
      exact absurd hread (fails_wrongKind _ _)
    | true =>
      obtain ⟨hnumber, hn⟩ := (natural_digit hdigit bound).1 hread
      exact ⟨hn, (hvalue.unsigned_of_digit hdigit).eq_toDigits hrest hnumber⟩

theorem follows_number {bound : Nat} (hbound : bound ≤ significandLimit) {ofNat : Nat → α}
    {toNat : α → Nat} (hle : ∀ v, toNat v ≤ bound) (hof : ∀ v, ofNat (toNat v) = v)
    (hto : ∀ n ≤ bound, toNat (ofNat n) = n) :
    Follows (ofNat <$> natural bound) (.number toNat) where
  isValue := by
    intro v cs hv
    exact (follows_natural hbound).isValue ⟨hle v, hv⟩
  accepts := by
    intro v cs ws rest hv hws hrest
    have hread := (follows_natural hbound).accepts ⟨hle v, hv⟩ hws hrest
    exact map_eq_ok.2 ⟨_, _, hread, by rw [hof]⟩
  sound := by
    intro v cs ws rest rest' hvalue hws hrest hread
    obtain ⟨n, _, hread, hv⟩ := map_eq_ok.1 hread
    obtain ⟨hn, rfl⟩ := (follows_natural hbound).sound hvalue hws hrest hread
    obtain rfl := congrArg Prod.fst hv
    exact congrArg (Nat.toDigits 10) (hto n hn).symm

theorem follows_u8 : Follows u8 (.number UInt8.toNat) :=
  follows_number (by decide) (fun v => Nat.le_of_lt_succ v.toNat_lt) (fun _ => UInt8.ofNat_toNat)
    fun n hn => UInt8.toNat_ofNat_of_lt' (Nat.lt_succ_of_le hn)

theorem follows_u32 : Follows u32 (.number UInt32.toNat) :=
  follows_number (by decide) (fun v => Nat.le_of_lt_succ v.toNat_lt) (fun _ => UInt32.ofNat_toNat)
    fun n hn => UInt32.toNat_ofNat_of_lt' (Nat.lt_succ_of_le hn)

theorem follows_u64 : Follows u64 (.number UInt64.toNat) :=
  follows_number (by decide) (fun v => Nat.le_of_lt_succ v.toNat_lt) (fun _ => UInt64.ofNat_toNat)
    fun n hn => UInt64.toNat_ofNat_of_lt' (Nat.lt_succ_of_le hn)

/-! ## Other values -/

theorem follows_truth : Follows truth .truth where
  isValue := by
    rintro b _ rfl
    cases b <;> exact .word (by decide)
  accepts := by
    rintro b _ ws rest rfl hws -
    refine (hws.peek_bind _ _).trans ?_
    cases b <;> rfl
  sound := by
    intro b cs ws rest rest' hvalue hws hrest hread
    obtain ⟨c, t, rfl, hblank, -⟩ := hvalue.exists_cons
    replace hread := (hws.peek_bind_cons hblank _ (t ++ rest)).symm.trans hread
    dsimp only at hread
    split at hread
    · rename_i hc
      obtain rfl := hc
      have hword := hvalue.eq_word (w := "true") (by decide) rfl
      rw [← List.cons_append, hword, bind_of_ok (word_append _ rest)] at hread
      cases hread
      exact hword
    split at hread
    · rename_i hc
      obtain rfl := hc
      have hword := hvalue.eq_word (w := "false") (by decide) rfl
      rw [← List.cons_append, hword, bind_of_ok (word_append _ rest)] at hread
      cases hread
      exact hword
    · exact absurd hread (fails_wrongKind _ _)

/-- A text is read from what spells it, and from nothing else. -/
theorem follows_text : Follows text SpellsText where
  isValue := by
    rintro s _ ⟨hbody⟩
    exact .string hbody.isBody
  accepts := by
    rintro s _ ws rest ⟨hbody⟩ hws -
    refine (hws.peek_bind _ _).trans ?_
    rw [List.cons_append, List.append_assoc]
    exact string_spells hbody rest
  sound := by
    intro s cs ws rest rest' hvalue hws hrest hread
    obtain ⟨c, t, rfl, hblank, -⟩ := hvalue.exists_cons
    replace hread := (hws.peek_bind_cons hblank _ (t ++ rest)).symm.trans hread
    dsimp only at hread
    split at hread
    · rename_i hc
      obtain rfl := hc
      obtain ⟨body, hbody, rfl⟩ := hvalue.string_of_quote
      rw [skip_bind, List.append_assoc] at hread
      exact ⟨((string_iff hbody).1 hread).1⟩
    · exact absurd hread (fails_wrongKind _ _)

/-- What does not begin as null does is the value itself. -/
theorem optional_cons {reader : Reader α} {ws : List Char} (hws : IsBlanks ws) {c : Char}
    (hblank : isBlank c = false) (hc : c ≠ 'n') (text : List Char) :
    Reader.optional reader (ws ++ c :: text) = (some <$> reader) (c :: text) := by
  unfold Reader.optional
  rw [hws.peek_bind_cons hblank, if_neg (by simpa using hc)]

/-- Null stands for no value, so it should not stand for a value. -/
theorem follows_optional {reader : Reader α} {spells : Spelling α} (h : Follows reader spells)
    (hnull : ∀ v, ¬spells v "null".toList) :
    Follows (Reader.optional reader) (.optional spells) where
  isValue := by
    rintro (_ | v) cs hv
    · obtain rfl := hv
      exact .word (by decide)
    · exact h.isValue hv
  accepts := by
    rintro (_ | v) cs ws rest hv hws hrest
    · obtain rfl := hv
      exact (hws.peek_bind _ _).trans rfl
    · obtain ⟨c, t, rfl, hblank, -⟩ := (h.isValue hv).exists_cons
      have hc : c ≠ 'n' := by
        rintro rfl
        have hword := (h.isValue hv).eq_word (w := "null") (by decide) rfl
        exact hnull v (hword ▸ hv)
      have hread := h.accepts hv isBlanks_nil hrest
      exact (optional_cons hws hblank hc _).trans (map_eq_ok.2 ⟨_, _, hread, rfl⟩)
  sound := by
    intro v cs ws rest rest' hvalue hws hrest hread
    obtain ⟨c, t, rfl, hblank, -⟩ := hvalue.exists_cons
    by_cases hc : c = 'n'
    · obtain rfl := hc
      have hword := hvalue.eq_word (w := "null") (by decide) rfl
      replace hread := (hws.peek_bind _ _).symm.trans hread
      rw [hword] at hread
      cases hread
      exact hword
    · obtain ⟨w, _, hsome, hv⟩ := map_eq_ok.1 ((optional_cons hws hblank hc _).symm.trans hread)
      obtain rfl := congrArg Prod.fst hv
      exact h.sound hvalue isBlanks_nil hrest hsome

/-- No number is spelled as null. -/
theorem not_number_null (toNat : α → Nat) (v : α) : ¬Spelling.number toNat v "null".toList := by
  intro h
  have hdigit := Nat.isDigit_of_mem_toDigits (b := 10) (n := toNat v) (c := 'n') (by decide)
    (by decide) (h ▸ by decide)
  cases hdigit

end ZigbeeHost.Config
