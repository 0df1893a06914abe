import Mathlib.Data.List.Nodup
import Mathlib.Logic.Function.Basic
import ZigbeeHost.Proofs.Chain
/-!
# Runs of chains, against plain lists

Chains are grown, joined, walked and torn down, again and again, and their handlers do what
they like : any verdict for any frame, another one for the next. `perform` carries out such
an operation on the chains themselves and records each call of a handler with its answer.

Three things are said of the record. It is that of a plain list, which is walked from end
to end with a flag for whether someone has stopped (`perform_eq_plain`). Each report reads
as a list does (`Walked`, `Drained`) : the handlers called are a front of the chain, what is
left is the chain without those that were done. And where the handlers are distinct, who
was done or aborted is not called again, in any later operation (`parted_stay_away`).

The walk is also the one that goes by an index and takes handlers out in place : the
handlers before the index are those that stay, those from the index on are not called yet
(`inPlace_append`).
-/

namespace ZigbeeHost.Chain

variable {κ φ ε η σ : Type}

/-! ## The walk in place -/

section InPlace

variable (offer : η → σ → σ × Verdict)

/-- Walks a chain by an index. The handler at the index leaves, or the index moves on. -/
def inPlace (chain : List η) (i : Nat) (s : σ) : List η × σ × Bool :=
  if hi : i < chain.length then
    let (s, verdict) := offer chain[i] s
    let rest := if verdict.remove then chain.eraseIdx i else chain
    let next := if verdict.remove then i else i + 1
    if verdict.stop then (rest, s, true) else inPlace rest next s
  else (chain, s, false)
termination_by chain.length - i
decreasing_by
  split
  · simp only [List.length_eraseIdx, hi, if_true]
    omega
  · omega

/-- The index parts the handlers that stay from those not called yet. -/
theorem inPlace_append (before behind : List η) (s : σ) :
    inPlace offer (before ++ behind) before.length s =
      (before ++ (dispatch offer behind s).1, (dispatch offer behind s).2) := by
  induction behind generalizing before s with
  | nil => simp [inPlace, dispatch]
  | cons h behind ih =>
    have hi : before.length < (before ++ h :: behind).length := by simp
    have hget : (before ++ h :: behind)[before.length] = h := by simp
    have herase : (before ++ h :: behind).eraseIdx before.length = before ++ behind := by
      simp [List.eraseIdx_append_of_length_le]
    have hnext := ih (before ++ [h]) (offer h s).1
    rw [List.length_append, List.length_singleton, List.append_assoc,
      List.singleton_append] at hnext
    rw [inPlace, dif_pos hi]
    simp only [hget, herase]
    cases hstop : (offer h s).2.stop <;> cases hremove : (offer h s).2.remove
    · simp only [Bool.false_eq_true, if_false, hnext, dispatch, hstop, hremove]
      simp
    · simp only [Bool.false_eq_true, if_false, if_true, ih before, dispatch, hstop, hremove]
      simp
    · simp [dispatch, hstop, hremove]
    · simp [dispatch, hstop, hremove]

end InPlace

/-! ## Operations and their record -/

/-- What handlers do with a frame, and when they are aborted. -/
structure Behaviour (φ ε η σ : Type) where
  handle : φ → η → σ → σ × Verdict
  abort : ε → η → σ → σ
  permanent : η → Bool

/-- A call of a handler, with the answer to a frame. -/
inductive Call (φ ε η : Type) where
  | handle (frame : φ) (handler : η) (answer : Verdict)
  | abort (cause : ε) (handler : η)
  deriving DecidableEq

namespace Call

/-- The handler that is called. -/
def handler : Call φ ε η → η
  | .handle _ h _ => h
  | .abort _ h => h

/-- The handler leaves its chain with this call. -/
def parts : Call φ ε η → Bool
  | .handle _ _ answer => answer.remove
  | .abort _ _ => true

/-- The handlers behind are not called. -/
def stops : Call φ ε η → Bool
  | .handle _ _ answer => answer.stop
  | .abort _ _ => false

end Call

/-- An operation on some chains. A chain is put behind another one only. -/
inductive Operation (κ φ ε η : Type) where
  | push (c : κ) (h : η)
  | append (c d : κ) (apart : c ≠ d)
  | dispatch (c : κ) (frame : φ)
  | drain (c : κ) (cause : ε)

/-- The handler that an operation brings. -/
def Operation.brings : Operation κ φ ε η → List η
  | .push _ h => [h]
  | _ => []

/-- Chains, and the world their handlers change. -/
structure Chains (κ η σ : Type) where
  chain : κ → List η
  world : σ

/-- What an operation shows : the calls, and whether a handler stopped the frame. -/
structure Report (φ ε η : Type) where
  calls : List (Call φ ε η) := []
  stopped : Bool := false
  deriving DecidableEq

/-- One operation after the other, each carried out as `step` says. -/
def run (step : Chains κ η σ → Operation κ φ ε η → Chains κ η σ × Report φ ε η)
    (st : Chains κ η σ) : List (Operation κ φ ε η) → Chains κ η σ × List (Report φ ε η)
  | [] => (st, [])
  | op :: ops =>
    let (st, report) := step st op
    let (st, reports) := run step st ops
    (st, report :: reports)

namespace Behaviour

variable (B : Behaviour φ ε η σ)

/-- Handles a frame and records it. -/
def record (f : φ) (h : η) (w : σ × List (Call φ ε η)) : (σ × List (Call φ ε η)) × Verdict :=
  (((B.handle f h w.1).1, w.2 ++ [.handle f h (B.handle f h w.1).2]), (B.handle f h w.1).2)

/-- Aborts a handler and records it. -/
def recordAbort (e : ε) (h : η) (w : σ × List (Call φ ε η)) : σ × List (Call φ ε η) :=
  (B.abort e h w.1, w.2 ++ [.abort e h])

variable [DecidableEq κ]

/-- Carries out an operation. -/
def perform (st : Chains κ η σ) : Operation κ φ ε η → Chains κ η σ × Report φ ε η
  | .push c h => ({ st with chain := Function.update st.chain c (st.chain c ++ [h]) }, {})
  | .append c d _ =>
    ({ st with
        chain := Function.update (Function.update st.chain d []) c (st.chain c ++ st.chain d) }, {})
  | .dispatch c f =>
    let (chain, (world, calls), stopped) :=
      Chain.dispatch (B.record f) (st.chain c) (st.world, [])
    ({ chain := Function.update st.chain c chain, world }, { calls, stopped })
  | .drain c e =>
    let (chain, world, calls) :=
      Chain.drain B.permanent (B.recordAbort e) (st.chain c) (st.world, [])
    ({ chain := Function.update st.chain c chain, world }, { calls })

end Behaviour

/-! ## The same on plain lists -/

/-- A list that is walked from end to end : who is kept so far, whether someone has stopped. -/
structure Pass (φ ε η σ : Type) where
  world : σ
  kept : List η := []
  calls : List (Call φ ε η) := []
  stopped : Bool := false

namespace Pass

variable (B : Behaviour φ ε η σ)

/-- Once someone has stopped, the others are kept. -/
def handle (f : φ) (p : Pass φ ε η σ) (h : η) : Pass φ ε η σ :=
  if p.stopped then { p with kept := p.kept ++ [h] }
  else
    let (world, answer) := B.handle f h p.world
    { world
      kept := if answer.remove then p.kept else p.kept ++ [h]
      calls := p.calls ++ [.handle f h answer]
      stopped := answer.stop }

/-- Permanent handlers are kept, and the others are aborted. -/
def abort (e : ε) (p : Pass φ ε η σ) (h : η) : Pass φ ε η σ :=
  if B.permanent h then { p with kept := p.kept ++ [h] }
  else { p with world := B.abort e h p.world, calls := p.calls ++ [.abort e h] }

end Pass

namespace Behaviour

variable (B : Behaviour φ ε η σ) [DecidableEq κ]

/-- What is left of a chain after a pass over it. -/
def settle (st : Chains κ η σ) (c : κ) (p : Pass φ ε η σ) : Chains κ η σ × Report φ ε η :=
  ({ chain := Function.update st.chain c p.kept, world := p.world },
    { calls := p.calls, stopped := p.stopped })

/-- Carries out an operation on plain lists. -/
def plain (st : Chains κ η σ) : Operation κ φ ε η → Chains κ η σ × Report φ ε η
  | .push c h => ({ st with chain := Function.update st.chain c (st.chain c ++ [h]) }, {})
  | .append c d _ =>
    ({ st with
        chain := Function.update (Function.update st.chain d []) c (st.chain c ++ st.chain d) }, {})
  | .dispatch c f => settle st c ((st.chain c).foldl (Pass.handle B f) { world := st.world })
  | .drain c e => settle st c ((st.chain c).foldl (Pass.abort B e) { world := st.world })

end Behaviour

section Walks

variable (B : Behaviour φ ε η σ)

/-- Once someone has stopped a pass, everyone is kept. -/
theorem foldl_handle_of_stopped (f : φ) (chain : List η) (p : Pass φ ε η σ)
    (hstopped : p.stopped = true) :
    chain.foldl (Pass.handle B f) p = { p with kept := p.kept ++ chain } := by
  induction chain generalizing p with
  | nil => simp
  | cons h behind ih =>
    have hturn : Pass.handle B f p h = { p with kept := p.kept ++ [h] } := by
      simp [Pass.handle, hstopped]
    rw [List.foldl_cons, hturn, ih { p with kept := p.kept ++ [h] } hstopped]
    simp only [List.append_assoc, List.singleton_append]

/-- A walk of a chain is a pass over it. -/
theorem foldl_handle (f : φ) (chain : List η) (p : Pass φ ε η σ) (hgoes : p.stopped = false) :
    chain.foldl (Pass.handle B f) p =
      { kept := p.kept ++ (dispatch (B.record f) chain (p.world, p.calls)).1
        world := (dispatch (B.record f) chain (p.world, p.calls)).2.1.1
        calls := (dispatch (B.record f) chain (p.world, p.calls)).2.1.2
        stopped := (dispatch (B.record f) chain (p.world, p.calls)).2.2 } := by
  induction chain generalizing p with
  | nil =>
    cases p
    simp_all [dispatch]
  | cons h behind ih =>
    have hkept (v : Verdict) (behind : List η) :
        (if v.remove then p.kept else p.kept ++ [h]) ++ behind =
          p.kept ++ (left h v ++ behind) := by
      unfold left
      split <;> simp
    have hturn : Pass.handle B f p h =
        { kept := if (B.handle f h p.world).2.remove then p.kept else p.kept ++ [h]
          world := (B.handle f h p.world).1
          calls := p.calls ++ [.handle f h (B.handle f h p.world).2]
          stopped := (B.handle f h p.world).2.stop } := by
      simp [Pass.handle, hgoes]
    rw [List.foldl_cons, hturn]
    cases hstop : (B.handle f h p.world).2.stop with
    | true =>
      have hrecord : (B.record f h (p.world, p.calls)).2.stop = true := hstop
      rw [foldl_handle_of_stopped B f _ _ rfl, dispatch_cons_of_stop _ hrecord, hkept]
      rfl
    | false =>
      have hrecord : (B.record f h (p.world, p.calls)).2.stop = false := hstop
      rw [ih _ rfl, dispatch_cons_of_not_stop _ hrecord, hkept]
      rfl

/-- Tearing a chain down is a pass over it. -/
theorem foldl_abort (e : ε) (chain : List η) (p : Pass φ ε η σ) :
    chain.foldl (Pass.abort B e) p =
      { p with
        kept := p.kept ++ (drain B.permanent (B.recordAbort e) chain (p.world, p.calls)).1
        world := (drain B.permanent (B.recordAbort e) chain (p.world, p.calls)).2.1
        calls := (drain B.permanent (B.recordAbort e) chain (p.world, p.calls)).2.2 } := by
  induction chain generalizing p with
  | nil => simp [drain]
  | cons h behind ih =>
    cases hp : B.permanent h with
    | true =>
      have hturn : Pass.abort B e p h = { p with kept := p.kept ++ [h] } := by
        simp [Pass.abort, hp]
      rw [List.foldl_cons, hturn, ih, drain_cons_of_permanent _ _ hp]
      simp
    | false =>
      have hturn : Pass.abort B e p h =
          { p with world := B.abort e h p.world, calls := p.calls ++ [.abort e h] } := by
        simp [Pass.abort, hp]
      rw [List.foldl_cons, hturn, ih, drain_cons_of_not_permanent _ _ hp]
      rfl

/-- An operation on the chains is the one on plain lists. -/
theorem perform_eq_plain [DecidableEq κ] (st : Chains κ η σ) (op : Operation κ φ ε η) :
    B.perform st op = B.plain st op := by
  cases op with
  | push c h => rfl
  | append c d apart => rfl
  | dispatch c f =>
    have hpass := foldl_handle B f (st.chain c) { world := st.world } rfl
    simp only [Behaviour.perform, Behaviour.plain, Behaviour.settle, hpass, List.nil_append]
  | drain c e =>
    simp only [Behaviour.perform, Behaviour.plain, Behaviour.settle, foldl_abort,
      List.nil_append]

/-- The chain in place and the plain lists run alike. -/
theorem run_perform_eq_run_plain [DecidableEq κ] (st : Chains κ η σ)
    (ops : List (Operation κ φ ε η)) : run B.perform st ops = run B.plain st ops :=
  congrArg (run · st ops) (funext fun st => funext fun op => perform_eq_plain B st op)

end Walks

/-! ## What a report says -/

section Reports

variable (B : Behaviour φ ε η σ)

/-- The calls of a walk. -/
def walkCalls (f : φ) : List η → σ → List (Call φ ε η)
  | [], _ => []
  | h :: behind, s =>
    .handle f h (B.handle f h s).2 ::
      if (B.handle f h s).2.stop then [] else walkCalls f behind (B.handle f h s).1

theorem walkCalls_cons_of_stop {f : φ} {h : η} {s : σ} (behind : List η)
    (hstop : (B.handle f h s).2.stop = true) :
    walkCalls B f (h :: behind) s = [.handle f h (B.handle f h s).2] := by
  rw [walkCalls, if_pos hstop]

theorem walkCalls_cons_of_not_stop {f : φ} {h : η} {s : σ} (behind : List η)
    (hstop : (B.handle f h s).2.stop = false) :
    walkCalls B f (h :: behind) s =
      .handle f h (B.handle f h s).2 :: walkCalls B f behind (B.handle f h s).1 := by
  rw [walkCalls, if_neg (by simp [hstop])]

/-- Recording changes nothing else. -/
theorem dispatch_record (f : φ) (chain : List η) (s : σ) (log : List (Call φ ε η)) :
    dispatch (B.record f) chain (s, log) =
      ((dispatch (B.handle f) chain s).1,
        ((dispatch (B.handle f) chain s).2.1, log ++ walkCalls B f chain s),
        (dispatch (B.handle f) chain s).2.2) := by
  induction chain generalizing s log with
  | nil => simp [dispatch, walkCalls]
  | cons h behind ih =>
    cases hstop : (B.handle f h s).2.stop with
    | true =>
      have hrecord : (B.record f h (s, log)).2.stop = true := hstop
      rw [dispatch_cons_of_stop _ hrecord, dispatch_cons_of_stop _ hstop,
        walkCalls_cons_of_stop B _ hstop]
      rfl
    | false =>
      have hrecord : (B.record f h (s, log)).2.stop = false := hstop
      rw [dispatch_cons_of_not_stop _ hrecord, dispatch_cons_of_not_stop _ hstop,
        walkCalls_cons_of_not_stop B _ hstop]
      simp [Behaviour.record, ih]

/-- Everyone who is not permanent is aborted, once and in order. -/
theorem drain_recordAbort (e : ε) (chain : List η) (s : σ) (log : List (Call φ ε η)) :
    drain B.permanent (B.recordAbort e) chain (s, log) =
      (chain.filter B.permanent, (drain B.permanent (B.abort e) chain s).2,
        log ++ (chain.filter fun h => !B.permanent h).map (.abort e)) := by
  induction chain generalizing s log with
  | nil => simp [drain]
  | cons h behind ih =>
    cases hp : B.permanent h with
    | true =>
      rw [drain_cons_of_permanent _ _ hp, drain_cons_of_permanent _ _ hp, ih]
      simp [hp]
    | false =>
      rw [drain_cons_of_not_permanent _ _ hp, drain_cons_of_not_permanent _ _ hp]
      simp [Behaviour.recordAbort, ih, hp]

/-- How a walk of `chain` that leaves `after` reports. -/
structure Walked (f : φ) (chain after : List η) (r : Report φ ε η) : Prop where
  handled : ∀ call ∈ r.calls, ∃ h answer, call = .handle f h answer
  /-- From the front of the chain on, each place once. -/
  front : r.calls.map Call.handler <+: chain
  goes_on : ∀ call ∈ r.calls.dropLast, call.stops = false
  to_the_end : r.stopped = false → r.calls.map Call.handler = chain
  stopped : r.stopped = r.calls.any Call.stops
  left : after = ((r.calls.filter fun call => !call.parts).map Call.handler) ++
    chain.drop r.calls.length

/-- Who stops a walk ends it. -/
theorem Walked.of_stop {f : φ} {h : η} {v : Verdict} (behind : List η) (hstop : v.stop = true) :
    Walked (ε := ε) f (h :: behind) (Chain.left h v ++ behind)
      { calls := [.handle f h v], stopped := true } := by
  constructor <;> simp [Call.handler, Call.stops, Call.parts, Chain.left, hstop]
  split <;> simp_all [Call.handler]

/-- Whoever does not stop a walk stands before what the walk goes on with. -/
theorem Walked.cons {f : φ} {h : η} {v : Verdict} {behind after : List η} {r : Report φ ε η}
    (hgoes : v.stop = false) (w : Walked f behind after r) :
    Walked f (h :: behind) (Chain.left h v ++ after)
      { calls := .handle f h v :: r.calls, stopped := r.stopped } where
  handled := by
    rintro call (_ | ⟨_, hcall⟩)
    · exact ⟨h, v, rfl⟩
    · exact w.handled call hcall
  front := (List.prefix_cons_inj h).2 w.front
  goes_on := by
    intro call hcall
    cases hcalls : r.calls with
    | nil => simp [hcalls] at hcall
    | cons first calls =>
      rw [hcalls, List.dropLast_cons_of_ne_nil (by simp), ← hcalls] at hcall
      rcases List.mem_cons.1 hcall with rfl | hcall
      · exact hgoes
      · exact w.goes_on call hcall
  to_the_end := fun hstopped => congrArg (h :: ·) (w.to_the_end hstopped)
  stopped := by
    have hfirst : (Call.handle (ε := ε) f h v).stops = false := hgoes
    rw [List.any_cons, hfirst, Bool.false_or, w.stopped]
  left := by
    rw [w.left]
    cases hremove : v.remove <;> simp [Chain.left, Call.parts, Call.handler, hremove]

/-- A walk reports as a list does. -/
theorem walked (f : φ) (chain : List η) (s : σ) :
    Walked f chain (dispatch (B.handle f) chain s).1
      { calls := walkCalls B f chain s, stopped := (dispatch (B.handle f) chain s).2.2 } := by
  induction chain generalizing s with
  | nil => constructor <;> simp [walkCalls, dispatch]
  | cons h behind ih =>
    cases hstop : (B.handle f h s).2.stop with
    | true =>
      rw [dispatch_cons_of_stop _ hstop, walkCalls_cons_of_stop B _ hstop]
      exact .of_stop behind hstop
    | false =>
      rw [dispatch_cons_of_not_stop _ hstop, walkCalls_cons_of_not_stop B _ hstop]
      exact (ih _).cons hstop

end Reports

/-! ## Who is gone is not called again -/

section Parted

variable [DecidableEq κ]

/-- The chains hold distinct handlers, none of which is still to come. -/
structure Distinct (st : Chains κ η σ) (coming : List η) : Prop where
  nodup : ∀ c, (st.chain c).Nodup
  apart : ∀ c d, c ≠ d → (st.chain c).Disjoint (st.chain d)
  fresh : ∀ c, (st.chain c).Disjoint coming
  coming_nodup : coming.Nodup

namespace Distinct

variable {st : Chains κ η σ} {coming : List η}

/-- A chain that only loses handlers. -/
theorem shrink (hd : Distinct st coming) (c : κ) {after : List η}
    (hafter : after.Sublist (st.chain c)) (world : σ) :
    Distinct { chain := Function.update st.chain c after, world } coming := by
  have hsub (d : κ) : (Function.update st.chain c after d).Sublist (st.chain d) := by
    rcases eq_or_ne d c with rfl | hne
    · rwa [Function.update_self]
    · rw [Function.update_of_ne hne]
  constructor
  · exact fun d => (hd.nodup d).sublist (hsub d)
  · exact fun d d' hne h hh hh' => hd.apart d d' hne ((hsub d).subset hh) ((hsub d').subset hh')
  · exact fun d h hh hc => hd.fresh d ((hsub d).subset hh) hc
  · exact hd.coming_nodup

/-- A handler that comes, at the end of a chain. -/
theorem push {h : η} (hd : Distinct st (h :: coming)) (c : κ) :
    Distinct { st with chain := Function.update st.chain c (st.chain c ++ [h]) } coming := by
  obtain ⟨hnew, hcoming⟩ := List.nodup_cons.1 hd.coming_nodup
  have hout (d : κ) : h ∉ st.chain d := fun hmem => hd.fresh d hmem List.mem_cons_self
  have hmem {d : κ} {g : η} (hg : g ∈ Function.update st.chain c (st.chain c ++ [h]) d) :
      g ∈ st.chain d ∨ d = c ∧ g = h := by
    rcases eq_or_ne d c with rfl | hne
    · simpa using hg
    · rw [Function.update_of_ne hne] at hg
      exact .inl hg
  constructor
  · intro d
    rcases eq_or_ne d c with rfl | hne
    · simpa using List.nodup_append.2 ⟨hd.nodup d, List.nodup_singleton h,
        fun g hg k hk => by rintro rfl; rw [List.mem_singleton.1 hk] at hg; exact hout d hg⟩
    · simpa [Function.update_of_ne hne] using hd.nodup d
  · intro d d' hne g hg hg'
    rcases hmem hg with hin | ⟨hc, hh⟩ <;> rcases hmem hg' with hin' | ⟨hc', hh'⟩
    · exact hd.apart d d' hne hin hin'
    · exact hout d (hh' ▸ hin)
    · exact hout d' (hh ▸ hin')
    · exact hne (hc.trans hc'.symm)
  · intro d g hg hcomes
    rcases hmem hg with hin | ⟨-, rfl⟩
    · exact hd.fresh d hin (List.mem_cons_of_mem h hcomes)
    · exact hnew hcomes
  · exact hcoming

/-- The handlers of one chain, behind those of another. -/
theorem append (hd : Distinct st coming) {c d : κ} (hne : c ≠ d) :
    Distinct { st with
      chain := Function.update (Function.update st.chain d []) c (st.chain c ++ st.chain d) }
      coming := by
  have hother {b : κ} (hc : b ≠ c) (hd : b ≠ d) :
      Function.update (Function.update st.chain d []) c (st.chain c ++ st.chain d) b =
        st.chain b := by
    rw [Function.update_of_ne hc, Function.update_of_ne hd]
  have hmem {b : κ} {g : η}
      (hg : g ∈ Function.update (Function.update st.chain d []) c (st.chain c ++ st.chain d) b) :
      b ≠ d ∧ (g ∈ st.chain b ∨ b = c ∧ g ∈ st.chain d) := by
    rcases eq_or_ne b c with rfl | hc
    · exact ⟨hne, by simpa using hg⟩
    · rcases eq_or_ne b d with rfl | hd
      · simp [Function.update_of_ne hc] at hg
      · rw [hother hc hd] at hg
        exact ⟨hd, .inl hg⟩
  constructor
  · intro b
    rcases eq_or_ne b c with rfl | hc
    · simpa using List.nodup_append'.2 ⟨hd.nodup b, hd.nodup d, hd.apart b d hne⟩
    · rcases eq_or_ne b d with rfl | hbd
      · simp [Function.update_of_ne hc]
      · simpa [hother hc hbd] using hd.nodup b
  · intro b b' hbb g hg hg'
    obtain ⟨hbd, hin | ⟨hc, hin⟩⟩ := hmem hg <;> obtain ⟨hbd', hin' | ⟨hc', hin'⟩⟩ := hmem hg'
    · exact hd.apart b b' hbb hin hin'
    · exact hd.apart b d hbd hin hin'
    · exact hd.apart d b' hbd'.symm hin hin'
    · exact hbb (hc.trans hc'.symm)
  · intro b g hg hcomes
    obtain ⟨-, hin | ⟨-, hin⟩⟩ := hmem hg
    · exact hd.fresh b hin hcomes
    · exact hd.fresh d hin hcomes
  · exact hd.coming_nodup

end Distinct

variable (B : Behaviour φ ε η σ)

/-- A dispatch, with its record told apart from what the handlers do. -/
theorem perform_dispatch (st : Chains κ η σ) (c : κ) (f : φ) :
    B.perform st (.dispatch c f) =
      ({ chain := Function.update st.chain c (dispatch (B.handle f) (st.chain c) st.world).1
         world := (dispatch (B.handle f) (st.chain c) st.world).2.1 },
        { calls := walkCalls B f (st.chain c) st.world
          stopped := (dispatch (B.handle f) (st.chain c) st.world).2.2 }) := by
  simp only [Behaviour.perform, dispatch_record, List.nil_append]

/-- A drain, with its record told apart from what the handlers do. -/
theorem perform_drain (st : Chains κ η σ) (c : κ) (e : ε) :
    B.perform st (.drain c e) =
      ({ chain := Function.update st.chain c ((st.chain c).filter B.permanent)
         world := (drain B.permanent (B.abort e) (st.chain c) st.world).2 },
        { calls := ((st.chain c).filter fun h => !B.permanent h).map (.abort e) }) := by
  simp only [Behaviour.perform, drain_recordAbort, List.nil_append]

/-- Handlers stay distinct. -/
theorem Distinct.perform {st : Chains κ η σ} {op : Operation κ φ ε η} {coming : List η}
    (hd : Distinct st (op.brings ++ coming)) : Distinct (B.perform st op).1 coming := by
  cases op with
  | push c h => exact hd.push c
  | append c d apart => exact hd.append apart
  | dispatch c f =>
    rw [perform_dispatch]
    exact hd.shrink c (dispatch_sublist _ _ _) _
  | drain c e =>
    rw [perform_drain]
    exact hd.shrink c List.filter_sublist _

/-- A walk of distinct handlers leaves none of those that were done. -/
theorem Walked.not_mem_left {f : φ} {chain after : List η} {r : Report φ ε η}
    (w : Walked f chain after r) (hchain : chain.Nodup) {call : Call φ ε η}
    (hcall : call ∈ r.calls) (hparts : call.parts = true) : call.handler ∉ after := by
  have hsplit : chain = r.calls.map Call.handler ++ chain.drop r.calls.length := by
    conv_lhs => rw [← List.take_append_drop r.calls.length chain]
    rw [List.prefix_iff_eq_take.1 w.front, List.length_map]
  have hnodup : (r.calls.map Call.handler ++ chain.drop r.calls.length).Nodup := hsplit ▸ hchain
  obtain ⟨hcalls, -, hbehind⟩ := List.nodup_append'.1 hnodup
  rw [w.left, List.mem_append, List.mem_map]
  rintro (⟨other, hother, hsame⟩ | hdrop)
  · obtain ⟨hmem, hstays⟩ := List.mem_filter.1 hother
    have heq : other = call := List.inj_on_of_nodup_map hcalls hmem hcall hsame
    simp [heq, hparts] at hstays
  · exact hbehind (List.mem_map_of_mem hcall) hdrop

/-- The calls of an operation on distinct handlers : of handlers of one chain, each once, and
who parts is in no chain any more. -/
structure Orderly (st after : Chains κ η σ) (calls : List (Call φ ε η)) : Prop where
  once : (calls.map Call.handler).Nodup
  held : ∀ call ∈ calls, ∃ c, call.handler ∈ st.chain c
  parted : ∀ call ∈ calls, call.parts = true → ∀ c, call.handler ∉ after.chain c

/-- It is enough that the one chain is left by those who part. -/
theorem Distinct.orderly {st : Chains κ η σ} {coming after : List η} (hd : Distinct st coming)
    (c : κ) (world : σ) {calls : List (Call φ ε η)} (honce : (calls.map Call.handler).Nodup)
    (hheld : ∀ call ∈ calls, call.handler ∈ st.chain c)
    (hparted : ∀ call ∈ calls, call.parts = true → call.handler ∉ after) :
    Orderly st { chain := Function.update st.chain c after, world } calls where
  once := honce
  held := fun call hcall => ⟨c, hheld call hcall⟩
  parted := by
    intro call hcall hparts d
    rcases eq_or_ne d c with rfl | hne
    · simpa using hparted call hcall hparts
    · simpa [Function.update_of_ne hne] using
        hd.apart c d hne.symm (hheld call hcall)

/-- Of distinct handlers, those that are called are in the chain, each is called once, and who was
done is gone. -/
theorem Distinct.perform_orderly {st : Chains κ η σ} {coming : List η} (hd : Distinct st coming)
    (op : Operation κ φ ε η) : Orderly st (B.perform st op).1 (B.perform st op).2.calls := by
  cases op with
  | push c h => constructor <;> simp [Behaviour.perform]
  | append c d apart => constructor <;> simp [Behaviour.perform]
  | dispatch c f =>
    have w := walked B f (st.chain c) st.world
    rw [perform_dispatch]
    exact hd.orderly c _ ((hd.nodup c).sublist w.front.sublist)
      (fun call hcall => w.front.subset (List.mem_map_of_mem hcall))
      fun call hcall hparts => w.not_mem_left (hd.nodup c) hcall hparts
  | drain c e =>
    have hhandlers (l : List η) : (l.map (Call.abort (φ := φ) e)).map Call.handler = l := by
      simp [Function.comp_def, Call.handler]
    rw [perform_drain]
    refine hd.orderly c _ ?_ ?_ ?_
    · rw [hhandlers]
      exact (hd.nodup c).filter _
    · rintro call hcall
      obtain ⟨h, hh, rfl⟩ := List.mem_map.1 hcall
      exact List.mem_of_mem_filter hh
    · rintro call hcall -
      obtain ⟨h, hh, rfl⟩ := List.mem_map.1 hcall
      have hp := (List.mem_filter.1 hh).2
      simp_all [Call.handler]

/-- No handler comes but the one that is pushed. -/
theorem mem_perform_chain {st : Chains κ η σ} {op : Operation κ φ ε η} {c : κ} {h : η}
    (hmem : h ∈ (B.perform st op).1.chain c) : (∃ d, h ∈ st.chain d) ∨ h ∈ op.brings := by
  have hupdate {chain : κ → List η} {d : κ} {after : List η}
      (hmem : h ∈ Function.update chain d after c) : h ∈ after ∨ h ∈ chain c := by
    rcases eq_or_ne c d with rfl | hne
    · exact .inl (by simpa using hmem)
    · exact .inr (by simpa [Function.update_of_ne hne] using hmem)
  cases op with
  | push d g =>
    rcases hupdate hmem with hafter | hchain
    · rcases List.mem_append.1 hafter with hold | hnew
      · exact .inl ⟨d, hold⟩
      · exact .inr hnew
    · exact .inl ⟨c, hchain⟩
  | append d b apart =>
    rcases hupdate hmem with hafter | hchain
    · rcases List.mem_append.1 hafter with hold | hold
      · exact .inl ⟨d, hold⟩
      · exact .inl ⟨b, hold⟩
    · rcases hupdate hchain with hnil | hchain
      · cases hnil
      · exact .inl ⟨c, hchain⟩
  | dispatch d f =>
    rw [perform_dispatch] at hmem
    rcases hupdate hmem with hafter | hchain
    · exact .inl ⟨d, (dispatch_sublist _ _ _).subset hafter⟩
    · exact .inl ⟨c, hchain⟩
  | drain d e =>
    rw [perform_drain] at hmem
    rcases hupdate hmem with hafter | hchain
    · exact .inl ⟨d, List.mem_of_mem_filter hafter⟩
    · exact .inl ⟨c, hchain⟩

/-- All calls of a run, in order. -/
def runCalls (st : Chains κ η σ) (ops : List (Operation κ φ ε η)) : List (Call φ ε η) :=
  (run B.perform st ops).2.flatMap Report.calls

/-- The calls of a run are those of its operations, one after the other. -/
theorem runCalls_cons (st : Chains κ η σ) (op : Operation κ φ ε η)
    (ops : List (Operation κ φ ε η)) :
    runCalls B st (op :: ops) =
      (B.perform st op).2.calls ++ runCalls B (B.perform st op).1 ops := by
  simp [runCalls, run]

/-- Whoever is called was there before, or has come meanwhile. -/
theorem Distinct.mem_runCalls {st : Chains κ η σ} {ops : List (Operation κ φ ε η)}
    (hd : Distinct st (ops.flatMap Operation.brings)) {call : Call φ ε η}
    (hcall : call ∈ runCalls B st ops) :
    (∃ c, call.handler ∈ st.chain c) ∨ call.handler ∈ ops.flatMap Operation.brings := by
  induction ops generalizing st with
  | nil => simp [runCalls, run] at hcall
  | cons op ops ih =>
    rw [List.flatMap_cons] at hd ⊢
    rw [runCalls_cons, List.mem_append] at hcall
    rcases hcall with hnow | hlater
    · exact .inl ((hd.perform_orderly B op).held call hnow)
    · rcases ih (hd.perform B) hlater with ⟨c, hin⟩ | hcomes
      · exact (mem_perform_chain B hin).imp_right (List.mem_append_left _)
      · exact .inr (List.mem_append_right _ hcomes)

/-- Of distinct handlers, who was done or aborted is not called again. -/
theorem parted_stay_away {st : Chains κ η σ} {ops : List (Operation κ φ ε η)}
    (hd : Distinct st (ops.flatMap Operation.brings)) :
    (runCalls B st ops).Pairwise fun call later =>
      call.parts = true → later.handler ≠ call.handler := by
  induction ops generalizing st with
  | nil => exact .nil
  | cons op ops ih =>
    rw [List.flatMap_cons] at hd
    have ho := hd.perform_orderly B op
    have hrest := hd.perform B
    rw [runCalls_cons, List.pairwise_append]
    refine ⟨?_, ih hrest, ?_⟩
    · exact (List.pairwise_map.1 ho.once).imp fun hne _ => hne.symm
    · intro call hcall later hlater hparts heq
      rcases hrest.mem_runCalls B hlater with ⟨c, hin⟩ | hcomes
      · exact ho.parted call hcall hparts c (heq ▸ hin)
      · obtain ⟨c, hin⟩ := ho.held call hcall
        exact hd.fresh c hin (List.mem_append_right _ (heq ▸ hcomes))

/-! ## Chains read as lists -/

/-- What an operation that turns `st` into `after` does, and reports. -/
def Reads (st after : Chains κ η σ) (r : Report φ ε η) : Operation κ φ ε η → Prop
  | .push c h =>
    after = { st with chain := Function.update st.chain c (st.chain c ++ [h]) } ∧ r = {}
  | .append c d _ =>
    after.chain c = st.chain c ++ st.chain d ∧ after.chain d = [] ∧
      (∀ b, b ≠ c → b ≠ d → after.chain b = st.chain b) ∧ after.world = st.world ∧ r = {}
  | .dispatch c f =>
    Walked f (st.chain c) (after.chain c) r ∧ (∀ b, b ≠ c → after.chain b = st.chain b) ∧
      inPlace (B.handle f) (st.chain c) 0 st.world = (after.chain c, after.world, r.stopped)
  | .drain c e =>
    r = { calls := ((st.chain c).filter fun h => !B.permanent h).map (.abort e) } ∧
      after.chain c = (st.chain c).filter B.permanent ∧
      ∀ b, b ≠ c → after.chain b = st.chain b

/-- Each operation reads as one on lists. -/
theorem perform_reads (st : Chains κ η σ) (op : Operation κ φ ε η) :
    Reads B st (B.perform st op).1 (B.perform st op).2 op := by
  cases op with
  | push c h => exact ⟨rfl, rfl⟩
  | append c d apart =>
    refine ⟨?_, ?_, ?_, rfl, rfl⟩
    · simp [Behaviour.perform]
    · simp [Behaviour.perform, Function.update_of_ne apart.symm]
    · intro b hc hd
      simp [Behaviour.perform, Function.update_of_ne hc, Function.update_of_ne hd]
  | dispatch c f =>
    rw [perform_dispatch]
    refine ⟨?_, fun b hb => by simp [Function.update_of_ne hb], ?_⟩
    · simpa using walked B f (st.chain c) st.world
    · simpa using inPlace_append (B.handle f) [] (st.chain c) st.world
  | drain c e =>
    rw [perform_drain]
    exact ⟨rfl, by simp, fun b hb => by simp [Function.update_of_ne hb]⟩

/-- What holds of a run of operations. -/
structure RunsAsLists (st : Chains κ η σ) (ops : List (Operation κ φ ε η)) : Prop where
  /-- Chains, calls, answers and results are those of plain lists. -/
  same : run B.perform st ops = run B.plain st ops
  /-- Each operation, wherever in the run it is. -/
  each : ∀ before op behind, ops = before ++ op :: behind →
    let now := (run B.perform st before).1
    Reads B now (B.perform now op).1 (B.perform now op).2 op
  /-- No operation calls a handler twice. -/
  once : Distinct st (ops.flatMap Operation.brings) →
    ∀ r ∈ (run B.perform st ops).2, (r.calls.map Call.handler).Nodup
  /-- Who was done or aborted is not called again. -/
  parted : Distinct st (ops.flatMap Operation.brings) →
    ((run B.perform st ops).2.flatMap Report.calls).Pairwise fun call later =>
      call.parts = true → later.handler ≠ call.handler

/-- No handler is called twice in one walk. -/
theorem reports_once {st : Chains κ η σ} {ops : List (Operation κ φ ε η)}
    (hd : Distinct st (ops.flatMap Operation.brings)) :
    ∀ r ∈ (run B.perform st ops).2, (r.calls.map Call.handler).Nodup := by
  induction ops generalizing st with
  | nil => simp [run]
  | cons op ops ih =>
    rw [List.flatMap_cons] at hd
    rintro r (_ | ⟨_, hr⟩)
    · exact (hd.perform_orderly B op).once
    · exact ih (hd.perform B) r hr

/-- Any operations on any chains do what they would do on plain lists : who is called and in
which order, who stays, what is answered, and who is never called again. -/
theorem runs_as_lists (st : Chains κ η σ) (ops : List (Operation κ φ ε η)) :
    RunsAsLists B st ops where
  same := run_perform_eq_run_plain B st ops
  each := fun before op _ _ => perform_reads B (run B.perform st before).1 op
  once := reports_once B
  parted := parted_stay_away B

end Parted

/-! ## A closed run -/

/-- Numbered handlers that answer from scripts, then pass. Those from `9` on are permanent. -/
def scripted : Behaviour Nat Nat Nat (List (List Verdict)) where
  handle _ h scripts := (scripts.modify h List.tail, (scripts.getD h []).headD .pass)
  abort _ _ scripts := scripts
  permanent h := 9 ≤ h

/-- Two chains. In front, a handler that is done at once and one that takes the second frame;
behind them, those of the other chain. -/
theorem runs_as_lists_scripted :
    let st : Chains Bool Nat (List (List Verdict)) :=
      { chain := fun _ => [], world := [[.evict], [.pass, .consume]] }
    let ops : List (Operation Bool Nat Nat Nat) :=
      [.push true 0, .push true 1, .push false 9, .push false 2, .append true false (by decide),
        .dispatch true 7, .dispatch true 8, .drain true 5]
    RunsAsLists scripted st ops ∧ Distinct st (ops.flatMap Operation.brings) ∧
      (run scripted.perform st ops).1.chain true = [9] ∧
      (run scripted.perform st ops).2.flatMap Report.calls =
        [.handle 7 0 .evict, .handle 7 1 .pass, .handle 7 9 .pass, .handle 7 2 .pass,
          .handle 8 1 .consume, .abort 5 2] := by
  refine ⟨runs_as_lists scripted _ _, ⟨?_, ?_, ?_, ?_⟩, by decide, by decide⟩
  · simp
  · simp
  · simp
  · decide

end ZigbeeHost.Chain
