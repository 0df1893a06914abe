import ZigbeeHost.Chain
/-!
# Walks of chains

The inductions over a walk. What each turn of a handler keeps, wherever in the chain the
handler is, `dispatch` keeps (`dispatch_induct`), and likewise `drain` (`drain_induct`).
A walk goes on behind handlers that do not stop it (`dispatch_append`), and `taker?` is the
handler that does.
-/

namespace ZigbeeHost.Chain

variable {η σ : Type}

/-! ## Dispatch -/

section Dispatch

variable {offer : η → σ → σ × Verdict}

/-- What is left of a handler's place in the chain after its verdict. -/
def left (h : η) (v : Verdict) : List η := if v.remove then [] else [h]

/-- Who stops the walk leaves those behind as they are. -/
theorem dispatch_cons_of_stop {h : η} {s : σ} (behind : List η)
    (hstop : (offer h s).2.stop = true) :
    dispatch offer (h :: behind) s = (left h (offer h s).2 ++ behind, (offer h s).1, true) := by
  simp [dispatch, left, hstop]

/-- The walk goes on behind whoever does not stop it. -/
theorem dispatch_cons_of_not_stop {h : η} {s : σ} (behind : List η)
    (hstop : (offer h s).2.stop = false) :
    dispatch offer (h :: behind) s =
      (left h (offer h s).2 ++ (dispatch offer behind (offer h s).1).1,
        (dispatch offer behind (offer h s).1).2) := by
  simp [dispatch, left, hstop]

/-- What each turn keeps, a walk keeps : `Q` is a property of the chain and the state. -/
theorem dispatch_induct (offer : η → σ → σ × Verdict) (Q : List η → σ → Prop)
    (turn : ∀ before h behind s, Q (before ++ h :: behind) s →
      Q (before ++ (left h (offer h s).2 ++ behind)) (offer h s).1) :
    ∀ (chain before : List η) (s : σ), Q (before ++ chain) s →
      Q (before ++ (dispatch offer chain s).1) (dispatch offer chain s).2.1
  | [], _, _, hQ => hQ
  | h :: behind, before, s, hQ => by
    have hturn := turn before h behind s hQ
    cases hstop : (offer h s).2.stop with
    | true =>
      rw [dispatch_cons_of_stop behind hstop]
      exact hturn
    | false =>
      rw [dispatch_cons_of_not_stop behind hstop]
      rw [← List.append_assoc] at hturn ⊢
      exact dispatch_induct offer Q turn behind _ _ hturn

/-- What each turn keeps that lets it pass, a part of a walk keeps which nobody stops. `Q` tells
the handlers that are left of those walked from those that are still to come. -/
theorem pass_induct (offer : η → σ → σ × Verdict) (Q : List η → List η → σ → Prop)
    (turn : ∀ kept h rest s, (offer h s).2.stop = false → Q kept (h :: rest) s →
      Q (kept ++ left h (offer h s).2) rest (offer h s).1) (rest : List η) :
    ∀ (before kept : List η) (s : σ), Q kept (before ++ rest) s →
      (dispatch offer before s).2.2 = false →
      Q (kept ++ (dispatch offer before s).1) rest (dispatch offer before s).2.1
  | [], _, _, hQ, _ => by
    rw [dispatch, List.append_nil]
    exact hQ
  | h :: before, kept, s, hQ, hgoes => by
    cases hstop : (offer h s).2.stop with
    | true =>
      rw [dispatch_cons_of_stop before hstop] at hgoes
      cases hgoes
    | false =>
      have hturn := turn kept h (before ++ rest) s hstop hQ
      rw [dispatch_cons_of_not_stop before hstop] at hgoes ⊢
      rw [← List.append_assoc]
      exact pass_induct offer Q turn rest before _ _ hturn hgoes

theorem left_sublist (h : η) (v : Verdict) : (left h v).Sublist [h] := by
  unfold left
  split
  · exact List.nil_sublist _
  · exact List.Sublist.refl _

/-- In a turn a handler leaves at most. -/
theorem turn_sublist (before behind : List η) (h : η) (v : Verdict) :
    (before ++ (left h v ++ behind)).Sublist (before ++ h :: behind) :=
  (List.Sublist.refl before).append ((left_sublist h v).append (List.Sublist.refl behind))

/-- Handlers leave, and none comes. -/
theorem dispatch_sublist (offer : η → σ → σ × Verdict) (chain : List η) (s : σ) :
    (dispatch offer chain s).1.Sublist chain :=
  dispatch_induct offer (fun left _ => left.Sublist chain)
    (fun before h behind s hleft => (turn_sublist before behind h (offer h s).2).trans hleft)
    chain [] s (List.Sublist.refl chain)

/-- A walk goes on behind handlers that did not stop it. -/
theorem dispatch_append (before behind : List η) (s : σ)
    (hstop : (dispatch offer before s).2.2 = false) :
    dispatch offer (before ++ behind) s =
      ((dispatch offer before s).1 ++ (dispatch offer behind (dispatch offer before s).2.1).1,
        (dispatch offer behind (dispatch offer before s).2.1).2) := by
  induction before generalizing s with
  | nil => rfl
  | cons h before ih =>
    cases hh : (offer h s).2.stop with
    | true =>
      rw [dispatch_cons_of_stop before hh] at hstop
      cases hstop
    | false =>
      rw [dispatch_cons_of_not_stop before hh] at hstop ⊢
      rw [List.cons_append, dispatch_cons_of_not_stop _ hh, ih _ hstop, List.append_assoc]

/-- Whoever is behind a handler that stops the walk stays. -/
theorem dispatch_append_of_stop (before behind : List η) (s : σ)
    (hstop : (dispatch offer before s).2.2 = true) :
    dispatch offer (before ++ behind) s =
      ((dispatch offer before s).1 ++ behind, (dispatch offer before s).2) := by
  induction before generalizing s with
  | nil => cases hstop
  | cons h before ih =>
    cases hh : (offer h s).2.stop with
    | true =>
      rw [List.cons_append, dispatch_cons_of_stop _ hh, dispatch_cons_of_stop _ hh,
        List.append_assoc]
    | false =>
      rw [dispatch_cons_of_not_stop before hh] at hstop ⊢
      rw [List.cons_append, dispatch_cons_of_not_stop _ hh, ih _ hstop, List.append_assoc]

/-- Handlers that never stop a walk do not stop this one. -/
theorem dispatch_not_stopped (chain : List η) (s : σ)
    (hpass : ∀ h ∈ chain, ∀ s, (offer h s).2.stop = false) :
    (dispatch offer chain s).2.2 = false := by
  induction chain generalizing s with
  | nil => rfl
  | cons h behind ih =>
    rw [dispatch_cons_of_not_stop behind (hpass h List.mem_cons_self s)]
    exact ih _ fun g hg => hpass g (List.mem_cons_of_mem h hg)

/-- Handlers that let it pass and change nothing are walked over, and `keep` says who of
them stays. -/
theorem dispatch_of_pass (chain : List η) (s : σ) (keep : η → Bool)
    (hpass : ∀ h ∈ chain, offer h s = (s, { remove := !keep h })) :
    dispatch offer chain s = (chain.filter keep, s, false) := by
  induction chain with
  | nil => rfl
  | cons h behind ih =>
    have hh := hpass h List.mem_cons_self
    have ih := ih fun g hg => hpass g (List.mem_cons_of_mem h hg)
    rw [dispatch_cons_of_not_stop _ (by rw [hh]), hh, ih]
    cases hk : keep h <;> simp [left, hk]

/-- The handler that stops the walk, if one does. -/
def taker? (offer : η → σ → σ × Verdict) : List η → σ → Option η
  | [], _ => none
  | h :: behind, s =>
    let (s, verdict) := offer h s
    if verdict.stop then some h else taker? offer behind s

/-- A walk is stopped exactly if someone takes it. -/
theorem isSome_taker? (offer : η → σ → σ × Verdict) (chain : List η) (s : σ) :
    (taker? offer chain s).isSome = (dispatch offer chain s).2.2 := by
  induction chain generalizing s with
  | nil => rfl
  | cons h behind ih =>
    cases hstop : (offer h s).2.stop with
    | true => simp [taker?, dispatch, hstop]
    | false => simp [taker?, dispatch, hstop, ih]

/-- If nobody in front stops the walk, who takes it is behind. -/
theorem taker?_append (before behind : List η) (s : σ)
    (hstop : (dispatch offer before s).2.2 = false) :
    taker? offer (before ++ behind) s = taker? offer behind (dispatch offer before s).2.1 := by
  induction before generalizing s with
  | nil => rfl
  | cons h before ih =>
    cases hh : (offer h s).2.stop with
    | true =>
      rw [dispatch_cons_of_stop before hh] at hstop
      cases hstop
    | false =>
      rw [dispatch_cons_of_not_stop before hh] at hstop ⊢
      simp only [List.cons_append, taker?, hh]
      exact ih _ hstop

theorem taker?_cons_of_stop {h : η} {s : σ} (behind : List η)
    (hstop : (offer h s).2.stop = true) : taker? offer (h :: behind) s = some h := by
  simp [taker?, hstop]

/-- Whoever stops the walk has those in front let it pass. -/
theorem exists_of_taker? {chain : List η} {h : η} {s : σ}
    (htaker : taker? offer chain s = some h) : ∃ before behind, chain = before ++ h :: behind ∧
      (dispatch offer before s).2.2 = false ∧
      (offer h (dispatch offer before s).2.1).2.stop = true := by
  induction chain generalizing s with
  | nil => cases htaker
  | cons x behind ih =>
    cases hstop : (offer x s).2.stop with
    | true =>
      rw [taker?_cons_of_stop behind hstop] at htaker
      cases htaker
      exact ⟨[], behind, rfl, rfl, hstop⟩
    | false =>
      simp only [taker?, hstop] at htaker
      obtain ⟨before, behind', rfl, hgoes, htakes⟩ := ih htaker
      refine ⟨x :: before, behind', rfl, ?_⟩
      rw [dispatch_cons_of_not_stop before hstop]
      exact ⟨hgoes, htakes⟩

/-- The handlers that are offered it : those up to the first that stops the walk. -/
def offered (offer : η → σ → σ × Verdict) : List η → σ → List η
  | [], _ => []
  | h :: behind, s =>
    let (s, verdict) := offer h s
    if verdict.stop then [h] else h :: offered offer behind s

theorem offered_cons_of_stop {h : η} {s : σ} (behind : List η)
    (hstop : (offer h s).2.stop = true) : offered offer (h :: behind) s = [h] := by
  simp [offered, hstop]

/-- If nobody in front stops the walk, all of them are offered it. -/
theorem offered_append (before behind : List η) (s : σ)
    (hstop : (dispatch offer before s).2.2 = false) :
    offered offer (before ++ behind) s =
      before ++ offered offer behind (dispatch offer before s).2.1 := by
  induction before generalizing s with
  | nil => rfl
  | cons h before ih =>
    cases hh : (offer h s).2.stop with
    | true =>
      rw [dispatch_cons_of_stop before hh] at hstop
      cases hstop
    | false =>
      rw [dispatch_cons_of_not_stop before hh] at hstop ⊢
      simp only [List.cons_append, offered, hh]
      exact congrArg (h :: ·) (ih _ hstop)

/-- Those who are offered it stand at the front. -/
theorem prefix_offered (offer : η → σ → σ × Verdict) (chain : List η) (s : σ) :
    offered offer chain s <+: chain := by
  induction chain generalizing s with
  | nil => exact List.prefix_rfl
  | cons h behind ih =>
    cases hstop : (offer h s).2.stop with
    | true =>
      rw [offered_cons_of_stop behind hstop]
      exact List.prefix_append [h] behind
    | false =>
      simp only [offered, hstop]
      exact (List.prefix_cons_inj h).2 (ih _)

/-- Whoever is offered it has those in front of him let it pass. -/
theorem exists_of_mem_offered {chain : List η} {h : η} {s : σ}
    (hmem : h ∈ offered offer chain s) : ∃ before behind, chain = before ++ h :: behind ∧
      (dispatch offer before s).2.2 = false := by
  induction chain generalizing s with
  | nil => cases hmem
  | cons x behind ih =>
    cases hstop : (offer x s).2.stop with
    | true =>
      rw [offered_cons_of_stop behind hstop] at hmem
      exact ⟨[], behind, by rw [List.mem_singleton.1 hmem]; rfl, rfl⟩
    | false =>
      simp only [offered, hstop] at hmem
      rcases List.mem_cons.1 hmem with rfl | hmem
      · exact ⟨[], behind, rfl, rfl⟩
      · obtain ⟨before, behind', rfl, hgoes⟩ := ih hmem
        refine ⟨x :: before, behind', rfl, ?_⟩
        rwa [dispatch_cons_of_not_stop before hstop]

/-- Whoever is not offered it stays. -/
theorem mem_dispatch_of_not_offered {chain : List η} {h : η} {s : σ} (hmem : h ∈ chain)
    (hno : h ∉ offered offer chain s) : h ∈ (dispatch offer chain s).1 := by
  induction chain generalizing s with
  | nil => cases hmem
  | cons x behind ih =>
    cases hstop : (offer x s).2.stop with
    | true =>
      rw [offered_cons_of_stop behind hstop, List.mem_singleton] at hno
      rw [dispatch_cons_of_stop behind hstop]
      exact List.mem_append_right _ ((List.mem_cons.1 hmem).resolve_left hno)
    | false =>
      simp only [offered, hstop, Bool.false_eq_true, if_false, List.mem_cons, not_or] at hno
      rw [dispatch_cons_of_not_stop behind hstop]
      exact List.mem_append_right _ (ih ((List.mem_cons.1 hmem).resolve_left hno.1) hno.2)

section Idle

variable {keep : η → Bool} {I : σ → Prop} (hturn : ∀ h s, I s → I (offer h s).1)
include hturn

/-- Handlers that would only leave make no difference to a walk. `I` is what keeps them idle
as the walk goes on. -/
theorem dispatch_filter (chain : List η) (s : σ) (hs : I s)
    (hidle : ∀ h ∈ chain, keep h = false → ∀ s, I s → offer h s = (s, .evict)) :
    dispatch offer (chain.filter keep) s =
      ((dispatch offer chain s).1.filter keep, (dispatch offer chain s).2) := by
  induction chain generalizing s with
  | nil => rfl
  | cons h behind ih =>
    have ih := fun s hs => ih s hs fun g hg => hidle g (List.mem_cons_of_mem h hg)
    cases hk : keep h with
    | true =>
      have hleft (v : Verdict) : (left h v).filter keep = left h v := by
        unfold left
        split <;> simp [hk]
      rw [List.filter_cons_of_pos hk]
      cases hstop : (offer h s).2.stop with
      | true => simp only [dispatch_cons_of_stop _ hstop, List.filter_append, hleft]
      | false =>
        simp only [dispatch_cons_of_not_stop _ hstop, List.filter_append, hleft,
          ih _ (hturn h s hs)]
    | false =>
      have hh := hidle h List.mem_cons_self hk s hs
      rw [List.filter_cons_of_neg (by simp [hk]), dispatch_cons_of_not_stop _ (by rw [hh]; rfl), hh]
      exact ih s hs

/-- Handlers that would only leave are offered it in vain. -/
theorem offered_filter (chain : List η) (s : σ) (hs : I s)
    (hidle : ∀ h ∈ chain, keep h = false → ∀ s, I s → offer h s = (s, .evict)) :
    offered offer (chain.filter keep) s = (offered offer chain s).filter keep := by
  induction chain generalizing s with
  | nil => rfl
  | cons h behind ih =>
    have ih := fun s hs => ih s hs fun g hg => hidle g (List.mem_cons_of_mem h hg)
    cases hk : keep h with
    | true =>
      rw [List.filter_cons_of_pos hk]
      cases hstop : (offer h s).2.stop with
      | true => simp [offered_cons_of_stop _ hstop, hk]
      | false => simp [offered, hstop, hk, ih _ (hturn h s hs)]
    | false =>
      have hh := hidle h List.mem_cons_self hk s hs
      rw [List.filter_cons_of_neg (by simp [hk]), ih s hs]
      simp [offered, hh, Verdict.evict, hk]

end Idle

/-- Handlers at the front that are never done stay there. -/
theorem prefix_dispatch (front behind : List η) (s : σ)
    (hstays : ∀ h ∈ front, ∀ s, (offer h s).2.remove = false) :
    front <+: (dispatch offer (front ++ behind) s).1 := by
  induction front generalizing s with
  | nil => exact List.nil_prefix
  | cons h front ih =>
    have hleft : left h (offer h s).2 = [h] := by
      rw [left, hstays h List.mem_cons_self s]
      rfl
    cases hstop : (offer h s).2.stop with
    | true =>
      rw [List.cons_append, dispatch_cons_of_stop _ hstop, hleft]
      exact (List.prefix_cons_inj h).2 (List.prefix_append front behind)
    | false =>
      rw [List.cons_append, dispatch_cons_of_not_stop _ hstop, hleft]
      exact (List.prefix_cons_inj h).2 (ih _ fun g hg => hstays g (List.mem_cons_of_mem h hg))

/-- A handler that is never done stays. -/
theorem mem_dispatch_of_stays {chain : List η} {h : η} {s : σ} (hmem : h ∈ chain)
    (hstays : ∀ s, (offer h s).2.remove = false) : h ∈ (dispatch offer chain s).1 := by
  induction chain generalizing s with
  | nil => cases hmem
  | cons x behind ih =>
    have hleft : x = h → h ∈ left x (offer x s).2 := by
      rintro rfl
      simp [left, hstays s]
    cases hstop : (offer x s).2.stop with
    | true =>
      rw [dispatch_cons_of_stop behind hstop, List.mem_append]
      exact (List.mem_cons.1 hmem).imp (hleft ∘ Eq.symm) id
    | false =>
      rw [dispatch_cons_of_not_stop behind hstop, List.mem_append]
      exact (List.mem_cons.1 hmem).imp (hleft ∘ Eq.symm) ih

/-- What the handlers of a chain do is all that a walk depends on. -/
theorem dispatch_congr {offer offer' : η → σ → σ × Verdict} (chain : List η) (s : σ)
    (hsame : ∀ h ∈ chain, ∀ s, offer h s = offer' h s) :
    dispatch offer chain s = dispatch offer' chain s := by
  induction chain generalizing s with
  | nil => rfl
  | cons h behind ih =>
    have hturn : offer h s = offer' h s := hsame h List.mem_cons_self s
    have hbehind := fun u => ih u fun g hg => hsame g (List.mem_cons_of_mem h hg)
    cases hstop : (offer h s).2.stop with
    | true =>
      rw [dispatch_cons_of_stop behind hstop, dispatch_cons_of_stop behind (hturn ▸ hstop), hturn]
    | false =>
      rw [dispatch_cons_of_not_stop behind hstop,
        dispatch_cons_of_not_stop behind (hturn ▸ hstop), ← hturn, hbehind]

/-- A walk of other handlers through another state that goes the same way. -/
theorem dispatch_map {ι τ : Type} (offer' : ι → τ → τ × Verdict) (p : ι → η) (q : τ → σ)
    (hsame : ∀ x t, offer (p x) (q t) = (q (offer' x t).1, (offer' x t).2)) (chain : List ι)
    (t : τ) :
    dispatch offer (chain.map p) (q t) = ((dispatch offer' chain t).1.map p,
      q (dispatch offer' chain t).2.1, (dispatch offer' chain t).2.2) := by
  induction chain generalizing t with
  | nil => rfl
  | cons x behind ih =>
    have hleft : left (p x) (offer' x t).2 = (left x (offer' x t).2).map p := by
      unfold left
      split <;> rfl
    cases hstop : (offer' x t).2.stop with
    | true =>
      have hstop' : (offer (p x) (q t)).2.stop = true := by rw [hsame, hstop]
      rw [List.map_cons, dispatch_cons_of_stop _ hstop', dispatch_cons_of_stop _ hstop, hsame,
        hleft, List.map_append]
    | false =>
      have hstop' : (offer (p x) (q t)).2.stop = false := by rw [hsame, hstop]
      rw [List.map_cons, dispatch_cons_of_not_stop _ hstop', dispatch_cons_of_not_stop _ hstop,
        hsame, ih, hleft, List.map_append]

end Dispatch

/-! ## Drain -/

section Drain

variable {permanent : η → Bool} {abort : η → σ → σ}

theorem drain_cons_of_permanent {h : η} (behind : List η) (s : σ) (hp : permanent h = true) :
    drain permanent abort (h :: behind) s =
      (h :: (drain permanent abort behind s).1, (drain permanent abort behind s).2) := by
  simp [drain, hp]

theorem drain_cons_of_not_permanent {h : η} (behind : List η) (s : σ)
    (hp : permanent h = false) :
    drain permanent abort (h :: behind) s = drain permanent abort behind (abort h s) := by
  simp [drain, hp]

/-- The permanent handlers stay, in order. -/
theorem drain_fst (permanent : η → Bool) (abort : η → σ → σ) (chain : List η) (s : σ) :
    (drain permanent abort chain s).1 = chain.filter permanent := by
  induction chain generalizing s with
  | nil => rfl
  | cons h behind ih =>
    cases hp : permanent h with
    | true => simp [drain_cons_of_permanent behind s hp, ih, hp]
    | false => simp [drain_cons_of_not_permanent behind s hp, ih, hp]

/-- What each abortion keeps, the tearing down of a chain keeps. -/
theorem drain_induct (Q : List η → σ → Prop)
    (turn : ∀ before h behind s, permanent h = false → Q (before ++ h :: behind) s →
      Q (before ++ behind) (abort h s)) :
    ∀ (chain before : List η) (s : σ), Q (before ++ chain) s →
      Q (before ++ (drain permanent abort chain s).1) (drain permanent abort chain s).2
  | [], _, _, hQ => hQ
  | h :: behind, before, s, hQ => by
    cases hp : permanent h with
    | true =>
      rw [drain_cons_of_permanent behind s hp, List.append_cons]
      rw [List.append_cons] at hQ
      exact drain_induct Q turn behind _ _ hQ
    | false =>
      rw [drain_cons_of_not_permanent behind s hp]
      exact drain_induct Q turn behind before _ (turn before h behind s hp hQ)

/-- Handlers whose abortion does nothing make no difference when a chain is torn down. `I` is
what keeps them idle meanwhile. -/
theorem drain_filter {keep : η → Bool} {I : σ → Prop} (hturn : ∀ h s, I s → I (abort h s))
    (chain : List η) (s : σ) (hs : I s)
    (hidle : ∀ h ∈ chain, keep h = false → ∀ s, I s → abort h s = s) :
    drain permanent abort (chain.filter keep) s =
      ((drain permanent abort chain s).1.filter keep, (drain permanent abort chain s).2) := by
  induction chain generalizing s with
  | nil => rfl
  | cons h behind ih =>
    have ih := fun s hs => ih s hs fun g hg => hidle g (List.mem_cons_of_mem h hg)
    cases hp : permanent h with
    | true =>
      rw [drain_cons_of_permanent behind s hp]
      cases hk : keep h with
      | true =>
        rw [List.filter_cons_of_pos hk, drain_cons_of_permanent _ s hp, ih s hs,
          List.filter_cons_of_pos hk]
      | false =>
        rw [List.filter_cons_of_neg (by simp [hk]), ih s hs, List.filter_cons_of_neg (by simp [hk])]
    | false =>
      rw [drain_cons_of_not_permanent behind s hp]
      cases hk : keep h with
      | true =>
        rw [List.filter_cons_of_pos hk, drain_cons_of_not_permanent _ s hp]
        exact ih _ (hturn h s hs)
      | false =>
        rw [List.filter_cons_of_neg (by simp [hk]), hidle h List.mem_cons_self hk s hs]
        exact ih s hs

/-- If all handlers are permanent, nothing is torn down. -/
theorem drain_eq_self (chain : List η) (s : σ) (hp : ∀ h ∈ chain, permanent h = true) :
    drain permanent abort chain s = (chain, s) := by
  induction chain with
  | nil => rfl
  | cons h behind ih =>
    rw [drain_cons_of_permanent behind s (hp h List.mem_cons_self),
      ih fun g hg => hp g (List.mem_cons_of_mem h hg)]

end Drain

end ZigbeeHost.Chain
