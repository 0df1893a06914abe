/-!
# Rosters

A roster stores things that are numbered as they are entered, each with a flag that anybody who
knows the number can lower. Lowering a flag leaves the list alone : what it belongs to stays
stored, and whoever goes through the list has to pass over it, until somebody sweeps it out.

Whatever is done with a roster, it stays in order, and nothing is lost whose flag is up.
-/

namespace ZigbeeHost

/-- Things in the order in which they were entered, and the flag of every number. -/
structure Roster {ε : Type} (number : ε → Nat) where
  /-- What is stored, with its flag up or down. -/
  stored : List ε
  /-- The flags of all that was ever entered. -/
  flags : Array Bool
  increasing : stored.Pairwise fun a b => number a < number b
  known : ∀ e ∈ stored, number e < flags.size
  /-- Whose flag is up is stored. -/
  held : ∀ n : Nat, flags[n]? = some true → ∃ e ∈ stored, number e = n

namespace Roster

variable {ε : Type} {number : ε → Nat}

/-- Nothing was entered yet. -/
def empty : Roster number where
  stored := []
  flags := #[]
  increasing := List.Pairwise.nil
  known _ h := absurd h List.not_mem_nil
  held n h := by simp at h

/-- The number of what is entered next. -/
def fresh (r : Roster number) : Nat := r.flags.size

/-- The flag of this number is up. -/
def raised (r : Roster number) (n : Nat) : Bool := r.flags[n]?.getD false

/-- What is stored with its flag up. -/
def live (r : Roster number) : List ε := r.stored.filter fun e => r.raised (number e)

theorem raised_iff {r : Roster number} {n : Nat} : r.raised n = true ↔ r.flags[n]? = some true := by
  unfold raised
  cases r.flags[n]? <;> simp

/-- Enters something, with its flag up. -/
def add (e : ε) (r : Roster number) (h : number e = r.fresh) : Roster number where
  stored := r.stored ++ [e]
  flags := r.flags.push true
  increasing := by
    refine List.pairwise_append.2 ⟨r.increasing, List.pairwise_singleton _ _, fun x hx y hy => ?_⟩
    rw [List.mem_singleton.1 hy, h]
    exact r.known x hx
  known x hx := by
    rw [Array.size_push]
    rcases List.mem_append.1 hx with hx | hx
    · exact Nat.lt_succ_of_lt (r.known x hx)
    · rw [List.mem_singleton.1 hx, h]
      exact Nat.lt_succ_self _
  held n hn := by
    rw [Array.getElem?_push] at hn
    split at hn
    · rename_i hnew
      exact ⟨e, List.mem_append_right _ List.mem_cons_self, h.trans hnew.symm⟩
    · obtain ⟨x, hx, hsame⟩ := r.held n hn
      exact ⟨x, List.mem_append_left _ hx, hsame⟩

/-- Lowers a flag. -/
def lower (n : Nat) (r : Roster number) : Roster number :=
  { r with
    flags := r.flags.setIfInBounds n false
    known := fun e he => by
      rw [Array.size_setIfInBounds]
      exact r.known e he
    held := fun m hm => by
      rw [Array.getElem?_setIfInBounds] at hm
      split at hm
      · split at hm <;> cases hm
      · exact r.held m hm }

/-- Lowers the flags of several things one after the other. The answer are those among them
whose flag was up when it was their turn. -/
def lowerAll : List ε → Roster number → List ε × Roster number
  | [], r => ([], r)
  | e :: es, r =>
    let (found, r') := lowerAll es (r.lower (number e))
    (if r.raised (number e) then e :: found else found, r')

/-- Stores no more than `kept`, which leaves nothing out whose flag is up. -/
def restock (kept : List ε) (r : Roster number) (hsub : kept.Sublist r.stored)
    (hall : ∀ e ∈ r.stored, r.raised (number e) = true → e ∈ kept) : Roster number :=
  { r with
    stored := kept
    increasing := r.increasing.sublist hsub
    known := fun e he => r.known e (hsub.mem he)
    held := fun n hn => by
      obtain ⟨e, he, hsame⟩ := r.held n hn
      exact ⟨e, hall e he (raised_iff.2 (hsame.symm ▸ hn)), hsame⟩ }

/-- Sweeps out what has its flag down, among the things that `p` picks. -/
def sweep (p : ε → Bool) (r : Roster number) : Roster number :=
  r.restock (r.stored.filter fun e => !p e || r.raised (number e)) List.filter_sublist
    fun _ he hup => List.mem_filter.2 ⟨he, by rw [hup, Bool.or_true]⟩

/-- Only this flag is lowered. -/
theorem raised_lower (n m : Nat) (r : Roster number) :
    (r.lower n).raised m = (r.raised m && m != n) := by
  unfold raised lower
  rw [Array.getElem?_setIfInBounds]
  by_cases hmn : n = m
  · subst hmn
    by_cases hn : n < r.flags.size <;> simp [hn]
  · simp [hmn, Ne.symm hmn]

/-- Only the flags of these are lowered. -/
theorem raised_lowerAll (es : List ε) (r : Roster number) (m : Nat) :
    (lowerAll es r).2.raised m = (r.raised m && es.all fun e => m != number e) := by
  induction es generalizing r with
  | nil => simp [lowerAll]
  | cons e es ih => simp only [lowerAll, ih, raised_lower, List.all_cons, Bool.and_assoc]

/-- To lower flags leaves the list alone. -/
theorem stored_lowerAll (es : List ε) (r : Roster number) :
    (lowerAll es r).2.stored = r.stored := by
  induction es generalizing r with
  | nil => rfl
  | cons e es ih => exact ih _

end Roster

end ZigbeeHost
