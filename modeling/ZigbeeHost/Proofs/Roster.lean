import Mathlib.Data.List.Nodup
import Mathlib.Data.List.Perm.Subperm
import ZigbeeHost.Roster
/-!
# What is live in a roster

To its users a roster is the list of what has its flag up (`Roster.live`). Here is what each
operation makes of that list. To enter something appends it, to lower a flag takes away what the
flag belongs to, and to sweep out changes nothing : it is only then that the stored list catches
up (`Roster.stored_sweep`).
-/

namespace ZigbeeHost.Roster

variable {ε : Type} {number : ε → Nat} {r : Roster number} {e : ε} {n : Nat}

theorem mem_live : e ∈ r.live ↔ e ∈ r.stored ∧ r.raised (number e) = true := List.mem_filter

theorem live_sublist (r : Roster number) : r.live.Sublist r.stored := List.filter_sublist

/-- What is live stands in the order in which it was entered. -/
theorem live_pairwise (r : Roster number) : r.live.Pairwise fun a b => number a < number b :=
  r.increasing.sublist r.live_sublist

/-- What comes next has a new number. -/
theorem lt_fresh (h : e ∈ r.live) : number e < r.fresh := r.known e (r.live_sublist.mem h)

/-- What is live is told apart by its number. -/
theorem live_nodup (r : Roster number) : (r.live.map number).Nodup :=
  List.pairwise_map.2 (r.live_pairwise.imp Nat.ne_of_lt)

theorem stored_nodup (r : Roster number) : (r.stored.map number).Nodup :=
  List.pairwise_map.2 (r.increasing.imp Nat.ne_of_lt)

/-- A flag is up as long as what it belongs to is live. -/
theorem raised_iff_live : r.raised n = true ↔ ∃ e ∈ r.live, number e = n := by
  constructor
  · intro hup
    obtain ⟨e, he, hsame⟩ := r.held n (raised_iff.1 hup)
    exact ⟨e, mem_live.2 ⟨he, hsame.symm ▸ hup⟩, hsame⟩
  · rintro ⟨e, he, rfl⟩
    exact (mem_live.1 he).2

/-- What is stored twice under a number is the same. -/
theorem eq_of_number {x y : ε} (hx : x ∈ r.stored) (hy : y ∈ r.stored)
    (h : number x = number y) : x = y :=
  List.inj_on_of_nodup_map r.stored_nodup hx hy h

/-! ## Entering -/

/-- What is entered has its flag up, and no other flag changes. -/
theorem raised_add (r : Roster number) (e : ε) (h : number e = r.fresh) (m : Nat) :
    (r.add e h).raised m = (r.raised m || m == r.fresh) := by
  simp only [raised, add, Array.getElem?_push, fresh]
  by_cases hm : m = r.flags.size
  · simp [hm]
  · simp [hm]

/-- What is entered is live, behind the rest. -/
@[simp] theorem live_add (r : Roster number) (e : ε) (h : number e = r.fresh) :
    (r.add e h).live = r.live ++ [e] := by
  have hold : r.stored.filter (fun x => (r.add e h).raised (number x)) = r.live :=
    List.filter_congr fun x hx => by
      have hne : number x ≠ r.fresh := Nat.ne_of_lt (r.known x hx)
      simp [raised_add, hne]
  have hnew : [e].filter (fun x => (r.add e h).raised (number x)) = [e] :=
    List.filter_cons_of_pos (by simp [raised_add, h])
  rw [live, show (r.add e h).stored = r.stored ++ [e] from rfl, List.filter_append, hold, hnew]

@[simp] theorem fresh_add (r : Roster number) (e : ε) (h : number e = r.fresh) :
    (r.add e h).fresh = r.fresh + 1 :=
  Array.size_push ..

/-! ## Lowering a flag -/

/-- What the flag belongs to is live no more. -/
@[simp] theorem live_lower (n : Nat) (r : Roster number) :
    (r.lower n).live = r.live.filter (number · != n) := by
  rw [live, live, List.filter_filter]
  exact List.filter_congr fun x _ => by rw [raised_lower, Bool.and_comm]

@[simp] theorem fresh_lower (n : Nat) (r : Roster number) : (r.lower n).fresh = r.fresh :=
  Array.size_setIfInBounds ..

/-- To lower a flag that is down changes nothing. -/
theorem lower_of_down (h : r.raised n = false) : r.lower n = r := by
  have hflags : r.flags.setIfInBounds n false = r.flags := by
    refine Array.ext_getElem? fun m => ?_
    rw [Array.getElem?_setIfInBounds]
    unfold raised at h
    split
    · rename_i hnm
      subst hnm
      split
      · rename_i hlt
        rw [Array.getElem?_eq_getElem hlt] at h ⊢
        exact congrArg some h.symm
      · rename_i hle
        exact (Array.getElem?_eq_none (Nat.le_of_not_lt hle)).symm
    · rfl
  simp only [lower, hflags]

/-- Lowers the flags of several numbers. -/
def lowerEach (ns : List Nat) (r : Roster number) : Roster number :=
  ns.foldl (fun r n => r.lower n) r

theorem live_lowerEach (ns : List Nat) (r : Roster number) :
    (r.lowerEach ns).live = r.live.filter (number · ∉ ns) := by
  induction ns generalizing r with
  | nil => simp [lowerEach]
  | cons n ns ih =>
    refine (ih (r.lower n)).trans ?_
    rw [live_lower, List.filter_filter]
    refine List.filter_congr fun x _ => ?_
    by_cases hx : number x = n <;> simp [hx]

theorem fresh_lowerEach (ns : List Nat) (r : Roster number) : (r.lowerEach ns).fresh = r.fresh := by
  induction ns generalizing r with
  | nil => rfl
  | cons n ns ih => exact (ih (r.lower n)).trans (fresh_lower n r)

/-- Who is live, and is told apart by its number, is found with its flag up. -/
theorem found_lowerAll {es : List ε} (hlive : ∀ e ∈ es, r.raised (number e) = true)
    (hnodup : (es.map number).Nodup) : (lowerAll es r).1 = es := by
  induction es generalizing r with
  | nil => rfl
  | cons e es ih =>
    rw [List.map_cons, List.nodup_cons] at hnodup
    have hrest : ∀ x ∈ es, (r.lower (number e)).raised (number x) = true := fun x hx => by
      have hne : number x ≠ number e := fun hsame =>
        hnodup.1 (hsame ▸ List.mem_map_of_mem hx)
      rw [raised_lower, hlive x (List.mem_cons_of_mem e hx), Bool.true_and]
      exact bne_iff_ne.2 hne
    simp only [lowerAll, hlive e List.mem_cons_self, if_true, ih hrest hnodup.2]

/-- Whoever is found or not, the flags of all their numbers are down. -/
theorem lowerAll_snd (es : List ε) (r : Roster number) :
    (lowerAll es r).2 = r.lowerEach (es.map number) := by
  induction es generalizing r with
  | nil => rfl
  | cons e es ih => exact ih (r.lower (number e))

/-! ## Sweeping out -/

/-- To store less loses nothing that is live. -/
@[simp] theorem live_restock {kept : List ε} (hsub : kept.Sublist r.stored)
    (hall : ∀ e ∈ r.stored, r.raised (number e) = true → e ∈ kept) :
    (r.restock kept hsub hall).live = r.live := by
  have hleft : (kept.filter fun e => r.raised (number e)).Sublist r.live := hsub.filter _
  have hright : r.live ⊆ kept.filter fun e => r.raised (number e) := fun e he =>
    List.mem_filter.2 ⟨hall e (mem_live.1 he).1 (mem_live.1 he).2, (mem_live.1 he).2⟩
  exact hleft.eq_of_length_le (List.Nodup.subperm (.of_map number r.live_nodup) hright).length_le

/-- To sweep out loses nothing that is live. -/
@[simp] theorem live_sweep (p : ε → Bool) (r : Roster number) : (r.sweep p).live = r.live :=
  live_restock ..

/-- Of what was swept, only what is live is stored. -/
theorem stored_sweep (p : ε → Bool) (r : Roster number) :
    (r.sweep p).stored.filter p = (r.sweep p).live.filter p := by
  rw [live_sweep, live, List.filter_filter, sweep, restock, List.filter_filter]
  refine List.filter_congr fun e _ => ?_
  cases p e <;> simp

end ZigbeeHost.Roster
