import ZigbeeHost.Proofs.Config.Reader
/-!
# Skipped values

`skipValue` passes over the text of any value and leaves what follows it (`skipValue_append`). It
runs in rounds, with a stack of the brackets that are open, so what is shown of a value holds on
every stack : as many rounds as the value has characters take it, and then the run is where it
is behind a value (`settle`). What follows a part of a bracket leads to the end of the bracket in
the same way (`Parts.settle_eq`).
-/

namespace ZigbeeHost.Config

open Reader

/-! ## Numbers -/

theorem skipDigits_append {ds : List Char} (hds : IsDigits ds) {rest : List Char}
    (hrest : ∀ c ∈ rest.head?, c.isDigit = false) : skipDigits (ds ++ rest) = .ok ((), rest) := by
  unfold skipDigits
  rw [bind_of_ok (digits_append hds.2 hrest), if_neg (by simp [hds.1])]
  rfl

/-- Neither a digit nor a point follows an exponent. -/
theorem IsExponent.head_append {exponent rest : List Char} (h : IsExponent exponent)
    (hrest : Stops rest) : ∀ c ∈ (exponent ++ rest).head?, c.isDigit = false ∧ c ≠ '.' := by
  intro c hc
  cases h with
  | none =>
    obtain ⟨hdigit, hother⟩ := hrest c hc
    exact ⟨hdigit, by rintro rfl; simp at hother⟩
  | some he =>
    obtain rfl := Option.some.inj hc
    simp only [List.mem_cons, List.not_mem_nil, or_false] at he
    obtain rfl | rfl := he <;> decide

/-- No digit follows a fraction. -/
theorem IsFraction.head_append {fraction exponent rest : List Char} (h : IsFraction fraction)
    (hexponent : IsExponent exponent) (hrest : Stops rest) :
    ∀ c ∈ (fraction ++ (exponent ++ rest)).head?, c.isDigit = false := by
  intro c hc
  cases h with
  | none => exact (hexponent.head_append hrest c hc).1
  | some =>
    obtain rfl := Option.some.inj hc
    decide

/-- An exponent is skipped, if there is one. -/
theorem skipExponent_append {exponent rest : List Char} (h : IsExponent exponent)
    (hrest : Stops rest) : skipExponent (exponent ++ rest) = .ok ((), rest) := by
  cases h with
  | none =>
    have hnone : ¬((([] : List Char) ++ rest).head? = some 'e' ∨
        (([] : List Char) ++ rest).head? = some 'E') := by
      rintro (hhead | hhead) <;> simpa using (hrest _ hhead).2
    simp only [skipExponent, get_bind, if_neg hnone]
    rfl
  | @some e sign ds he hsign hds =>
    have hdigits := skipDigits_append hds fun c hc => (hrest c hc).1
    have hsome : (e :: (sign ++ ds ++ rest)).head? = some 'e' ∨
        (e :: (sign ++ ds ++ rest)).head? = some 'E' := by
      simpa [eq_comm] using he
    simp only [skipExponent, List.cons_append, get_bind, if_pos hsome, skip_bind]
    simp only [List.mem_cons, List.not_mem_nil, or_false] at hsign
    obtain rfl | rfl | rfl := hsign
    · obtain ⟨d, ds, rfl, hd⟩ := hds.exists_cons
      have hunsigned : ¬(([] ++ d :: ds ++ rest).head? = some '+' ∨
          ([] ++ d :: ds ++ rest).head? = some '-') := by
        rintro (hhead | hhead) <;> cases hhead <;> cases hd
      rw [if_neg hunsigned]
      exact hdigits
    all_goals
      rw [if_pos (by simp)]
      exact hdigits

/-- A whole number is not empty and has no zero in front. -/
theorem IsWhole.sound {whole : List Char} (h : IsWhole whole) :
    ¬(whole.isEmpty = true ∨ whole.head? = some '0' ∧ whole.length > 1) := by
  rintro (hempty | ⟨hhead, hlong⟩)
  · exact h.1.1 (List.isEmpty_iff.1 hempty)
  · rw [h.2 hhead] at hlong
    exact absurd hlong (by decide)

/-- A number is skipped as far as it goes. -/
theorem skipNumber_append {cs rest : List Char} (h : IsUnsigned cs) (hrest : Stops rest) :
    skipNumber (cs ++ rest) = .ok ((), rest) := by
  obtain ⟨hwhole, hfraction, hexponent⟩ := h
  rename_i whole fraction exponent
  have hdigits := digits_append hwhole.1.2 (hfraction.head_append hexponent hrest)
  unfold skipNumber
  rw [List.append_assoc, List.append_assoc, bind_of_ok hdigits]
  simp only [if_neg hwhole.sound, get_bind]
  cases hfraction with
  | none =>
    have hpoint : ([] ++ (exponent ++ rest)).head? ≠ some '.' := fun hhead =>
      (hexponent.head_append hrest _ hhead).2 rfl
    rw [if_neg hpoint]
    exact skipExponent_append hexponent hrest
  | some hds =>
    rw [List.cons_append, List.head?_cons, if_pos rfl, skip_bind,
      bind_of_ok (skipDigits_append hds fun c hc => (hexponent.head_append hrest c hc).1)]
    exact skipExponent_append hexponent hrest

/-! ## Keys -/

/-- A colon is read, and white space in front of it. -/
theorem colon_append {ws : List Char} (hws : IsBlanks ws) (rest : List Char) :
    colon (ws ++ ':' :: rest) = .ok ((), rest) := by
  unfold colon
  rw [hws.peek_bind]
  rfl

theorem skipString_bind {body : List Char} (h : IsBody body) (rest : List Char) {α : Type}
    (f : Unit → Reader α) : (skipString false 0 >>= f) (body ++ '\x22' :: rest) = f () rest :=
  bind_of_ok (r := skipString false 0) (skipString_body h rest) f

/-- The reader comes to the value of a part. -/
theorem IsPart.skipToValue {bracket : Bracket} {value part ws : List Char}
    (h : IsPart bracket value part) (hws : IsBlanks ws) (rest : List Char) :
    ∃ ws', IsBlanks ws' ∧
      skipToValue bracket (ws ++ (part ++ rest)) = .ok ((), ws' ++ (value ++ rest)) := by
  cases h with
  | item => exact ⟨ws, hws, rfl⟩
  | member hbody hmember =>
    cases hmember with
    | @mk before behind hbefore hbehind =>
      refine ⟨behind, hbehind, ?_⟩
      have hcolon := colon_append hbefore (behind ++ (value ++ rest))
      unfold Reader.skipToValue
      dsimp only
      rw [hws.peek_bind]
      simp only [List.cons_append, List.append_assoc]
      exact (skipString_bind hbody _ fun _ => colon).trans hcolon

/-! ## Values -/

/-- The run of `skipValues` behind a value. -/
def Reader.settle (rounds : Nat) (stack : List Bracket) : Reader Unit := do
  let (more, stack) ← skipClosings stack
  if more then skipValues rounds stack

/-- Once a value is skipped, what follows it decides how to go on. -/
theorem skipValues_of_skipOne {stack : List Bracket} {text rest : List Char}
    (h : skipOne stack text = skipClosings stack rest) (rounds : Nat) :
    skipValues (rounds + 1) stack text = settle rounds stack rest := by
  unfold skipValues settle
  rw [bind_apply, bind_apply, h]

/-- `cs` is passed over, in no more rounds than it has characters. -/
def Skips (cs : List Char) : Prop :=
  ∃ k ≤ cs.length, ∀ rounds stack ws rest, IsBlanks ws → Stops rest →
    skipValues (rounds + k) stack (ws ++ (cs ++ rest)) = settle rounds stack rest

/-- White space in front of a value is skipped. -/
theorem skipOne_blanks {ws : List Char} (hws : IsBlanks ws) (stack : List Bracket)
    (text : List Char) : skipOne stack (ws ++ text) = skipOne stack text := hws.peek_bind _ text

/-- To skip a value, it is enough to skip it once. -/
theorem skips_of_skipOne {cs : List Char} (hcs : cs ≠ [])
    (h : ∀ stack rest, Stops rest → skipOne stack (cs ++ rest) = skipClosings stack rest) :
    Skips cs :=
  ⟨1, List.length_pos_iff.2 hcs, fun rounds stack _ rest hws hrest =>
    skipValues_of_skipOne ((skipOne_blanks hws stack _).trans (h stack rest hrest)) rounds⟩

theorem skips_word {w : String} (hw : w ∈ ["null", "true", "false"]) : Skips w.toList := by
  simp only [List.mem_cons, List.not_mem_nil, or_false] at hw
  obtain rfl | rfl | rfl := hw <;> exact skips_of_skipOne (by decide) fun _ _ _ => rfl

theorem skips_string {body : List Char} (h : IsBody body) : Skips ('\x22' :: (body ++ ['\x22'])) :=
  skips_of_skipOne (List.cons_ne_nil _ _) fun stack rest _ => by
    rw [List.cons_append, List.append_assoc]
    exact skipString_bind h rest fun _ => skipClosings stack

theorem skips_negative {cs : List Char} (h : IsUnsigned cs) : Skips ('-' :: cs) :=
  skips_of_skipOne (List.cons_ne_nil _ _) fun stack _ hrest =>
    bind_of_ok (skipNumber_append h hrest) fun _ => skipClosings stack

theorem skips_unsigned {cs : List Char} (h : IsUnsigned cs) : Skips cs := by
  have hne : cs ≠ [] := by
    obtain ⟨d, ds, rfl, -⟩ := h.exists_cons
    exact List.cons_ne_nil _ _
  refine skips_of_skipOne hne fun stack rest hrest => ?_
  have hskip := bind_of_ok (skipNumber_append h hrest) fun _ => skipClosings stack
  obtain ⟨d, ds, rfl, hd⟩ := h.exists_cons
  have hne {e : Char} (he : e.isDigit = false) : d ≠ e := ne_of_isDigit hd he
  have hblank : isBlank d = false := by simp [isBlank, hne]
  unfold skipOne
  rw [List.cons_append, bind_of_ok (peek_cons hblank _)]
  simpa [hne, isDigit_eq, hd] using hskip

section Brackets

variable {bracket : Bracket}

/-- A bracket that closes what is open is skipped. -/
theorem settle_close {ws : List Char} (hws : IsBlanks ws) (rounds : Nat) (stack : List Bracket)
    (rest : List Char) :
    settle rounds (bracket :: stack) (ws ++ bracket.closing :: rest) =
      settle rounds stack rest := by
  have hclose : skipClosings (bracket :: stack) (ws ++ bracket.closing :: rest) =
      skipClosings stack rest := by
    unfold skipClosings
    rw [hws.peek_bind]
    cases bracket <;> cases stack <;> rfl
  unfold settle
  rw [bind_apply, bind_apply, hclose]

/-- After a comma the next value is skipped. -/
theorem settle_comma {ws : List Char} (hws : IsBlanks ws) (rounds : Nat) (stack : List Bracket)
    {text rest : List Char} (hvalue : skipToValue bracket text = .ok ((), rest)) :
    settle rounds (bracket :: stack) (ws ++ ',' :: text) =
      skipValues rounds (bracket :: stack) rest := by
  have hcomma : skipClosings (bracket :: stack) (ws ++ ',' :: text) =
      .ok ((true, bracket :: stack), rest) := by
    unfold skipClosings
    rw [hws.peek_bind]
    exact bind_of_ok hvalue fun _ => pure (true, bracket :: stack)
  unfold settle
  exact bind_of_ok hcomma _

/-- What follows a part leads to the end of the bracket. -/
theorem Parts.settle_eq {values parts : List (List Char)} {cs : List Char}
    (h : Parts bracket false parts cs) (hparts : List.Forall₂ (IsPart bracket) values parts)
    (hvalues : ∀ value ∈ values, Skips value) :
    ∃ k ≤ cs.length, ∀ rounds stack rest,
      settle (rounds + k) (bracket :: stack) (cs ++ rest) = settle rounds stack rest := by
  generalize hfurther : false = first at h
  induction h generalizing values with
  | @close _ ws hws =>
    refine ⟨0, Nat.zero_le _, fun rounds stack rest => ?_⟩
    rw [List.append_assoc]
    exact settle_close hws rounds stack rest
  | @part _ lead part cs parts hlead hrest ih =>
    subst hfurther
    obtain ⟨-⟩ | ⟨hws, hws'⟩ := hlead
    rename_i ws ws'
    obtain ⟨value, values, hpart, htail, rfl⟩ := List.forall₂_cons_right_iff.1 hparts
    obtain ⟨k, hk, hskips⟩ := hvalues value List.mem_cons_self
    obtain ⟨k', hk', hsettle⟩ := ih htail (fun v hv => hvalues v (List.mem_cons_of_mem _ hv)) rfl
    have hshorter : value.length ≤ part.length := hpart.length_le
    refine ⟨k' + k, by simp only [List.length_append]; omega, fun rounds stack rest => ?_⟩
    obtain ⟨behind, hbehind, hvalue⟩ := hpart.skipToValue hws' (cs ++ rest)
    have htext : ws ++ ',' :: ws' ++ (part ++ cs) ++ rest =
        ws ++ ',' :: (ws' ++ (part ++ (cs ++ rest))) := by simp
    rw [htext, settle_comma hws _ _ hvalue, ← Nat.add_assoc,
      hskips _ _ _ _ hbehind (hrest.stops rest), hsettle]

/-- Brackets are skipped with all that they enclose. -/
theorem skips_bracket {values parts : List (List Char)} {cs : List Char}
    (h : Enclosed bracket parts cs) (hparts : List.Forall₂ (IsPart bracket) values parts)
    (hvalues : ∀ value ∈ values, IsValue value ∧ Skips value) : Skips cs := by
  have hopening (stack : List Bracket) (text : List Char) :
      skipOne stack (bracket.opening :: text) =
        skipOpening bracket stack (bracket.opening :: text) := by
    cases bracket <;> rfl
  obtain ⟨hcs⟩ := h
  cases hcs with
  | @close _ ws hws =>
    refine skips_of_skipOne (List.cons_ne_nil _ _) fun stack rest _ => ?_
    rw [List.cons_append, hopening, List.append_assoc]
    unfold skipOpening
    rw [skip_bind, hws.peek_bind]
    cases bracket <;> rfl
  | @part _ ws part cs parts hlead hrest =>
    obtain ⟨hws⟩ := hlead
    obtain ⟨value, values, hpart, htail, rfl⟩ := List.forall₂_cons_right_iff.1 hparts
    obtain ⟨hvalue, k, hk, hskips⟩ := hvalues value List.mem_cons_self
    obtain ⟨k', hk', hsettle⟩ :=
      hrest.settle_eq htail fun v hv => (hvalues v (List.mem_cons_of_mem _ hv)).2
    have hshorter : value.length ≤ part.length := hpart.length_le
    refine ⟨k' + k + 1, by simp only [List.length_append, List.length_cons]; omega,
      fun rounds stack before rest hbefore _ => ?_⟩
    obtain ⟨behind, hbehind, hread⟩ := hpart.skipToValue isBlanks_nil (cs ++ rest)
    have hopened : skipOne stack (before ++ (bracket.opening :: (ws ++ (part ++ cs)) ++ rest)) =
        .ok ((true, bracket :: stack), behind ++ (value ++ (cs ++ rest))) := by
      obtain ⟨c, part, rfl, hblank, hclosing⟩ := hpart.exists_cons hvalue
      rw [skipOne_blanks hbefore, List.cons_append, hopening, List.append_assoc, List.append_assoc]
      unfold skipOpening
      rw [skip_bind, List.cons_append, hws.peek_bind_cons hblank]
      dsimp only
      rw [if_neg hclosing]
      exact bind_of_ok hread fun _ => pure (true, bracket :: stack)
    have hround : skipValues (rounds + k' + k + 1) stack
        (before ++ (bracket.opening :: (ws ++ (part ++ cs)) ++ rest)) =
          skipValues (rounds + k' + k) (bracket :: stack) (behind ++ (value ++ (cs ++ rest))) :=
      bind_of_ok hopened _
    rw [← Nat.add_assoc, ← Nat.add_assoc, hround, hskips _ _ _ _ hbehind (hrest.stops rest),
      hsettle]

end Brackets

/-- Every value is skipped, whatever it is. -/
theorem IsValue.skips {cs : List Char} (h : IsValue cs) : Skips cs := by
  induction h with
  | word hw => exact skips_word hw
  | unsigned hcs => exact skips_unsigned hcs
  | negative hcs => exact skips_negative hcs
  | string hbody => exact skips_string hbody
  | bracket henclosed hparts hvalues ih =>
    exact skips_bracket henclosed hparts fun v hv => ⟨hvalues v hv, ih v hv⟩

/-- Any value is skipped, up to its end. -/
theorem skipValue_append {cs ws rest : List Char} (h : IsValue cs) (hws : IsBlanks ws)
    (hrest : Stops rest) : skipValue (ws ++ (cs ++ rest)) = .ok ((), rest) := by
  obtain ⟨k, hk, hskips⟩ := h.skips
  unfold skipValue
  rw [get_bind]
  obtain ⟨rounds, hrounds⟩ : ∃ rounds, (ws ++ (cs ++ rest)).length + 1 = rounds + k := by
    refine ⟨(ws ++ (cs ++ rest)).length + 1 - k, ?_⟩
    simp only [List.length_append]
    omega
  rw [hrounds, hskips _ _ _ _ hws hrest]
  rfl

end ZigbeeHost.Config
