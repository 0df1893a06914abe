import ZigbeeHost.Proofs.Config.Grammar
/-!
# Readers on the grammar

What the small readers do with the parts of the grammar. A string is read if what stands between
its quotes spells some characters, and those are its text (`string_iff`); `skipString` passes
over any.
-/

namespace ZigbeeHost.Config.Reader

variable {α β : Type}

/-! ## Steps -/

theorem bind_apply (r : Reader α) (f : α → Reader β) (text : List Char) :
    (r >>= f) text =
      match r text with
      | .ok (v, rest) => f v rest
      | .error e => .error e := by
  change StateT.bind r f text = _
  unfold StateT.bind
  rcases r text with e | ⟨v, rest⟩ <;> rfl

/-- A reader that succeeds hands over what it left. -/
theorem bind_of_ok {r : Reader α} {v : α} {text rest : List Char} (h : r text = .ok (v, rest))
    (f : α → Reader β) : (r >>= f) text = f v rest := by
  rw [bind_apply, h]

/-- A sequence succeeds if its parts do. -/
theorem bind_eq_ok {r : Reader α} {f : α → Reader β} {text : List Char} {out : β × List Char} :
    (r >>= f) text = .ok out ↔ ∃ v rest, r text = .ok (v, rest) ∧ f v rest = .ok out := by
  rw [bind_apply]
  rcases r text with e | ⟨v, rest⟩ <;> simp

theorem get_bind (f : List Char → Reader α) (text : List Char) :
    (get >>= f) text = f text text := rfl

theorem skip_bind (f : Unit → Reader α) (c : Char) (text : List Char) :
    (skip >>= f) (c :: text) = f () text := rfl

theorem map_eq_ok {f : α → β} {r : Reader α} {text : List Char} {out : β × List Char} :
    (f <$> r) text = .ok out ↔ ∃ v rest, r text = .ok (v, rest) ∧ out = (f v, rest) := by
  change StateT.map f r text = _ ↔ _
  unfold StateT.map
  rcases r text with e | ⟨v, rest⟩ <;> simp [bind, Except.bind, pure, Except.pure, eq_comm]

end ZigbeeHost.Config.Reader

namespace ZigbeeHost.Config

open Reader

/-! ## Blanks, words and digits -/

/-- The blanks of JSON. -/
theorem isBlank_iff {c : Char} : isBlank c = true ↔ c ∈ [' ', '\t', '\n', '\r'] := by
  simp only [isBlank, Bool.or_eq_true, decide_eq_true_eq, List.mem_cons, List.not_mem_nil]
  grind

theorem isDigit_eq (c : Char) : Reader.isDigit c = c.isDigit := by
  simp only [Reader.isDigit, Char.isDigit, Char.le_def]

/-- Blanks in front make no difference to a reader that looks for the next character. -/
theorem IsBlanks.peek_bind {ws : List Char} (hws : IsBlanks ws) {α : Type}
    (f : Option Char → Reader α) (text : List Char) :
    (peek >>= f) (ws ++ text) = (peek >>= f) text := by
  have hpeek : peek (ws ++ text) = peek text := by
    unfold peek
    rw [List.dropWhile_append_of_pos fun c hc => isBlank_iff.2 (hws c hc)]
  rw [bind_apply, bind_apply, hpeek]

/-- What stands in front is seen, if it is not white space. -/
theorem peek_cons {c : Char} (hc : isBlank c = false) (text : List Char) :
    peek (c :: text) = .ok (some c, c :: text) := by
  unfold peek
  rw [List.dropWhile_cons_of_neg (by simp [hc])]
  rfl

/-- White space in front of it is skipped. -/
theorem IsBlanks.peek_bind_cons {ws : List Char} (hws : IsBlanks ws) {c : Char}
    (hc : isBlank c = false) {α : Type} (f : Option Char → Reader α) (text : List Char) :
    (peek >>= f) (ws ++ c :: text) = f (some c) (c :: text) := by
  rw [hws.peek_bind, bind_of_ok (peek_cons hc text)]

/-- A word that stands there is read. -/
theorem word_append (w rest : List Char) : word w (w ++ rest) = .ok ((), rest) := by
  induction w with
  | nil => rfl
  | cons c w ih => simpa [word] using ih

/-- Digits are read as far as they go. -/
theorem digits_append {ds : List Char} (hds : ∀ d ∈ ds, d.isDigit = true) {rest : List Char}
    (hrest : ∀ c ∈ rest.head?, c.isDigit = false) : digits (ds ++ rest) = .ok (ds, rest) := by
  have hpos : ∀ d ∈ ds, Reader.isDigit d = true := fun d hd => isDigit_eq d ▸ hds d hd
  have htake : rest.takeWhile Reader.isDigit = [] ∧ rest.dropWhile Reader.isDigit = rest := by
    cases rest with
    | nil => exact ⟨rfl, rfl⟩
    | cons c rest => simp [isDigit_eq, hrest c rfl]
  unfold digits
  rw [List.takeWhile_append_of_pos hpos, List.dropWhile_append_of_pos hpos, htake.1, htake.2,
    List.append_nil]

theorem needDigit_append {ds : List Char} (hds : IsDigits ds) (rest : List Char) :
    needDigit (ds ++ rest) = .ok ((), ds ++ rest) := by
  obtain ⟨d, ds, rfl⟩ := List.exists_cons_of_ne_nil hds.1
  simp [needDigit, isDigit_eq, hds.2 d]

/-! ## Strings -/

/-- The table says which letters stand for which characters. -/
theorem escaped?_eq_some_iff {letter c : Char} :
    escaped? letter = some c ↔ (letter, c) ∈ escapes := by
  unfold escaped? escapes
  split <;> simp_all [eq_comm]

/-- The letter of code units is not in the table. -/
theorem ne_u_of_escape {letter c : Char} (h : (letter, c) ∈ escapes) : letter ≠ 'u' := by
  rintro rfl
  cases escaped?_eq_some_iff.2 h

/-- A body is skipped, and its closing quote with it. -/
theorem skipString_body {body : List Char} (h : IsBody body) (rest : List Char) :
    skipString false 0 (body ++ '\x22' :: rest) = .ok ((), rest) := by
  induction h with
  | nil => simp [skipString]
  | @plain c body hplain _ ih =>
    obtain ⟨hquote, hescape, hcontrol⟩ := hplain
    simp [skipString, hquote, hescape, Nat.not_lt.2 hcontrol, ih]
  | @escape letter c body hletter _ ih =>
    simp [skipString, ne_u_of_escape hletter, escaped?_eq_some_iff.2 hletter, ih]
  | @unit n ds body hunit _ ih =>
    cases hunit with
    | mk ha hb hc hd => simp [skipString, ha, hb, hc, hd, ih]

/-- Four digits are read as one code unit. -/
theorem stringFrom_unit {n : Nat} {ds : List Char} (h : IsUnit n ds) (lead : Option Nat)
    (read rest : List Char) :
    stringFrom (.codeUnit 0 0 lead) read (ds ++ rest) =
      match codeUnit n lead with
      | .error e => .error e
      | .ok (some c) => stringFrom .plain (c :: read) rest
      | .ok none => stringFrom (.secondEscape n) read rest := by
  cases h with
  | @mk _ _ _ _ p q r s ha hb hc hd =>
    cases hcode : codeUnit (16 * (16 * (16 * p + q) + r) + s) lead with
    | error e => simp [stringFrom, ha, hb, hc, hd, hcode]
    | ok c => cases c <;> simp [stringFrom, ha, hb, hc, hd, hcode]

/-- No character is in the range of surrogates. -/
theorem not_surrogate (c : Char) : c.toNat < 0xD800 ∨ 0xDFFF < c.toNat ∧ c.toNat < 0x110000 := by
  have hvalid := c.valid
  simp only [UInt32.isValidChar, Nat.isValidChar] at hvalid
  exact hvalid

/-- A character below the surrogates is one code unit. -/
theorem codeUnit_toNat {c : Char} (hc : c.toNat < 0x10000) :
    codeUnit c.toNat none = .ok (some c) := by
  have hvalid := not_surrogate c
  unfold codeUnit
  rw [if_neg (by omega), if_neg (by omega), Char.ofNat_toNat]

theorem toNat_ofNat {n : Nat} (hn : n.isValidChar) : (Char.ofNat n).toNat = n := by
  unfold Char.ofNat
  rw [dif_pos hn]
  rfl

/-- Two surrogates join to the character that they stand for. -/
theorem toNat_joinSurrogates {lead trail : Nat} (hlead : 0xD800 ≤ lead ∧ lead ≤ 0xDBFF)
    (htrail : 0xDC00 ≤ trail ∧ trail ≤ 0xDFFF) :
    (joinSurrogates lead trail).toNat =
      (lead - 0xD800) * 0x400 + (trail - 0xDC00) + 0x10000 := by
  unfold joinSurrogates
  exact toNat_ofNat (.inr ⟨by omega, by omega⟩)

/-- Two surrogates spell the character that they join to. -/
theorem spells_joinSurrogates {n m : Nat} {lead trail : List Char}
    (hn : 0xD800 ≤ n ∧ n ≤ 0xDBFF) (hm : 0xDC00 ≤ m ∧ m ≤ 0xDFFF) (hlead : IsUnit n lead)
    (htrail : IsUnit m trail) :
    SpellsChar (joinSurrogates n m) ('\x5c' :: 'u' :: (lead ++ '\x5c' :: 'u' :: trail)) := by
  have hjoined := toNat_joinSurrogates hn hm
  refine .pair (by omega) ?_ ?_
  · rwa [show 0xD800 + ((joinSurrogates n m).toNat - 0x10000) / 0x400 = n by omega]
  · rwa [show 0xDC00 + ((joinSurrogates n m).toNat - 0x10000) % 0x400 = m by omega]

/-- A code unit that is complete is the number of its character. -/
theorem toNat_of_codeUnit {n : Nat} (hn : n < 0x10000) {c : Char}
    (h : codeUnit n none = .ok (some c)) : c.toNat = n := by
  simp only [codeUnit] at h
  split at h
  · cases h
  split at h
  · cases h
  · obtain rfl := Option.some.inj (Except.ok.inj h)
    refine toNat_ofNat ?_
    simp only [Nat.isValidChar]
    omega

/-- A code unit that is not complete is a leading surrogate. -/
theorem lead_of_codeUnit {n : Nat} (h : codeUnit n none = .ok none) : 0xD800 ≤ n ∧ n ≤ 0xDBFF := by
  simp only [codeUnit] at h
  split at h
  · cases h
  split at h
  · assumption
  · cases h

/-- A hexadecimal digit is below sixteen. -/
theorem hexDigit?_lt {c : Char} {p : Nat} (h : hexDigit? c = some p) : p < 16 := by
  have hle (d : Char) (hd : c ≤ d) : c.toNat ≤ d.toNat := UInt32.le_iff_toNat_le.1 hd
  unfold hexDigit? at h
  split at h
  · rename_i hc
    have hupper : c.toNat ≤ 57 := hle '9' hc.2
    have hp := Option.some.inj h
    omega
  split at h
  · rename_i hc
    have hupper : c.toNat ≤ 102 := hle 'f' hc.2
    have hp := Option.some.inj h
    omega
  split at h
  · rename_i hc
    have hupper : c.toNat ≤ 70 := hle 'F' hc.2
    have hp := Option.some.inj h
    omega
  · cases h

/-- Four hexadecimal digits are one code unit. -/
theorem IsUnit.lt {n : Nat} {ds : List Char} (h : IsUnit n ds) : n < 0x10000 := by
  cases h with
  | mk ha hb hc hd =>
    have hp := hexDigit?_lt ha
    have hq := hexDigit?_lt hb
    have hr := hexDigit?_lt hc
    have hs := hexDigit?_lt hd
    omega

/-- The spelling of a character is read as the character. -/
theorem stringFrom_char {c : Char} {part : List Char} (h : SpellsChar c part)
    (read rest : List Char) :
    stringFrom .plain read (part ++ rest) = stringFrom .plain (c :: read) rest := by
  cases h with
  | plain hplain =>
    obtain ⟨hquote, hescape, hcontrol⟩ := hplain
    simp [stringFrom, hquote, hescape, Nat.not_lt.2 hcontrol]
  | escape hletter =>
    simp [stringFrom, ne_u_of_escape hletter, escaped?_eq_some_iff.2 hletter]
  | unit hunit =>
    simp [stringFrom, stringFrom_unit hunit, codeUnit_toNat hunit.lt]
  | pair hbeyond hlead htrail =>
    have hvalid := not_surrogate c
    have hfirst : codeUnit (0xD800 + (c.toNat - 0x10000) / 0x400) none = .ok none := by
      unfold codeUnit
      rw [if_neg (by omega), if_pos (by omega)]
    have hsecond : codeUnit (0xDC00 + (c.toNat - 0x10000) % 0x400)
        (some (0xD800 + (c.toNat - 0x10000) / 0x400)) = .ok (some c) := by
      simp only [codeUnit, joinSurrogates]
      rw [if_pos (by omega)]
      have hjoined : (0xD800 + (c.toNat - 0x10000) / 0x400 - 0xD800) * 0x400 +
          (0xDC00 + (c.toNat - 0x10000) % 0x400 - 0xDC00) + 0x10000 = c.toNat := by omega
      rw [hjoined, Char.ofNat_toNat]
    simp [stringFrom, stringFrom_unit hlead, stringFrom_unit htrail, hfirst, hsecond]

/-- The characters that a body spells are read, and its closing quote with it. -/
theorem stringFrom_body {cs body : List Char} (h : SpellsBody cs body) (read rest : List Char) :
    stringFrom .plain read (body ++ '\x22' :: rest) =
      .ok (String.ofList (read.reverse ++ cs), rest) := by
  induction h generalizing read with
  | nil => simp [stringFrom]
  | cons hchar _ ih => rw [List.append_assoc, stringFrom_char hchar, ih]; simp

/-- A string is read as what it spells. -/
theorem string_spells {s : String} {body : List Char} (h : SpellsBody s.toList body)
    (rest : List Char) : string (body ++ '\x22' :: rest) = .ok (s, rest) := by
  unfold string
  rw [stringFrom_body h]
  simp

/-- A string that is read spells what was read. Half a surrogate pair needs the other half right
behind it, so the induction is on both places where a code unit may leave the reader. -/
theorem spells_of_stringFrom {body : List Char} (h : IsBody body) (read rest : List Char)
    {s : String} {rest' : List Char} :
    (stringFrom .plain read (body ++ '\x22' :: rest) = .ok (s, rest') →
      ∃ cs, SpellsBody cs body ∧ s = String.ofList (read.reverse ++ cs)) ∧
    ∀ lead, stringFrom (.secondEscape lead) read (body ++ '\x22' :: rest) = .ok (s, rest') →
      ∃ n trail body' cs, body = '\x5c' :: 'u' :: (trail ++ body') ∧ IsUnit n trail ∧
        (0xDC00 ≤ n ∧ n ≤ 0xDFFF) ∧ SpellsBody cs body' ∧
          s = String.ofList (read.reverse ++ joinSurrogates lead n :: cs) := by
  induction h generalizing read with
  | nil =>
    refine ⟨fun hread => ⟨[], .nil, ?_⟩, fun lead hread => ?_⟩
    · simp only [List.nil_append, stringFrom, if_true, Except.ok.injEq, Prod.mk.injEq] at hread
      simp [hread.1]
    · simp [stringFrom] at hread
  | @plain c body hplain _ ih =>
    obtain ⟨hquote, hescape, hcontrol⟩ := id hplain
    refine ⟨fun hread => ?_, fun lead hread => ?_⟩
    · rw [List.cons_append, stringFrom, if_neg hquote, if_neg hescape,
        if_neg (Nat.not_lt.2 hcontrol)] at hread
      obtain ⟨cs, hcs, rfl⟩ := (ih (c :: read)).1 hread
      exact ⟨c :: cs, .cons (.plain hplain) hcs, by simp⟩
    · simp [stringFrom, hescape] at hread
  | @escape letter c body hletter _ ih =>
    have hu := ne_u_of_escape hletter
    refine ⟨fun hread => ?_, fun lead hread => ?_⟩
    · simp only [List.cons_append, stringFrom, escaped?_eq_some_iff.2 hletter, if_neg hu] at hread
      obtain ⟨cs, hcs, rfl⟩ := (ih (c :: read)).1 (by simpa using hread)
      exact ⟨c :: cs, .cons (.escape hletter) hcs, by simp⟩
    · simp [stringFrom, hu] at hread
  | @unit n ds body hunit _ ih =>
    refine ⟨fun hread => ?_, fun lead hread => ?_⟩
    · change stringFrom (.codeUnit 0 0 none) read (ds ++ body ++ '\x22' :: rest) = _ at hread
      rw [List.append_assoc, stringFrom_unit hunit] at hread
      rcases hcode : codeUnit n none with e | (_ | c) <;> rw [hcode] at hread
      · cases hread
      · have hlead := lead_of_codeUnit hcode
        obtain ⟨m, trail, body', cs, rfl, htrail, hm, hcs, rfl⟩ := (ih read).2 n hread
        refine ⟨joinSurrogates n m :: cs, ?_, rfl⟩
        simpa using SpellsBody.cons (spells_joinSurrogates hlead hm hunit htrail) hcs
      · obtain ⟨cs, hcs, rfl⟩ := (ih (c :: read)).1 hread
        have hc := toNat_of_codeUnit hunit.lt hcode
        exact ⟨c :: cs, .cons (.unit (hc ▸ hunit)) hcs, by simp⟩
    · change stringFrom (.codeUnit 0 0 (some lead)) read (ds ++ body ++ '\x22' :: rest) = _ at hread
      rw [List.append_assoc, stringFrom_unit hunit] at hread
      by_cases htrail : 0xDC00 ≤ n ∧ n ≤ 0xDFFF
      · simp only [codeUnit, if_pos htrail] at hread
        obtain ⟨cs, hcs, rfl⟩ := (ih (joinSurrogates lead n :: read)).1 hread
        exact ⟨n, ds, body, cs, rfl, hunit, htrail, hcs, by simp⟩
      · simp only [codeUnit, if_neg htrail] at hread
        cases hread

/-- A string is read as the text that it spells, up to its end. -/
theorem string_iff {body : List Char} (h : IsBody body) {rest rest' : List Char} {s : String} :
    string (body ++ '\x22' :: rest) = .ok (s, rest') ↔
      SpellsBody s.toList body ∧ rest' = rest := by
  constructor
  · intro hread
    obtain ⟨cs, hcs, rfl⟩ := (spells_of_stringFrom h [] rest).1 hread
    have hspells : SpellsBody (String.ofList cs).toList body := by simpa using hcs
    have hagain := string_spells hspells rest
    rw [hread] at hagain
    exact ⟨by simpa using hcs, congrArg Prod.snd (Except.ok.inj hagain)⟩
  · rintro ⟨hspells, rfl⟩
    exact string_spells hspells _

end ZigbeeHost.Config
