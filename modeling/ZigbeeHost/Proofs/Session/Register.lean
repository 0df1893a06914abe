import Mathlib.Data.List.Nodup
import Mathlib.Tactic.Choose
import ZigbeeHost.Proofs.Session.History
/-!
# A register of handlers

Handlers have no identity in a chain, and a dispatch that runs inside another walks a chain
of its own. So the story of a dispatch is told with a `Register` beside the session. It
numbers the handlers in the order in which they are added, lists the numbers of those that
are in the chain, and notes for each dispatch how many handlers there were when it began,
and each offer of its frame to a handler with the verdict.

What a callback adds to the register depends on what it does with the session, which only
the application knows. A `Clerk` writes it down, and `Clerk.deliver` computes what a whole
dispatch adds, from the walk of the numbered chain. `Recorded L app clerk` says that what
the clerk writes for each callback is what a run of deeds adds, one after the other. Every
lawful application has such a clerk (`Lawful.exists_recorded`).

In the register that results, the handlers in the chain are those that were there or came,
in the order of their addition, without those that were done (`Register.Grows`).
-/

namespace ZigbeeHost

variable {η : Type}

/-! ## Registers -/

/-- An offer of the frame of a dispatch to a handler, each by its number. -/
structure Offer where
  dispatch : Nat
  handler : Nat
  verdict : Verdict

/-- The two numbers of an offer. -/
def Offer.pair (o : Offer) : Nat × Nat := (o.dispatch, o.handler)

/-- The handlers that asked for their removal. -/
def removals (os : List Offer) : List Nat := (os.filter (·.verdict.remove)).map Offer.handler

/-- A record of the handlers of a session. -/
structure Register where
  /-- All handlers in the order of their addition. The number of a handler is its place. -/
  entered : List Handler
  /-- The numbers of the handlers in the chain, in order. -/
  present : List Nat
  /-- How many handlers there were when each dispatch began. The number of a dispatch is
  its place. -/
  begun : List Nat := []
  offers : List Offer := []
  deriving Inhabited

namespace Register

/-- A register that starts with a chain. -/
def of (chain : List Handler) : Register where
  entered := chain
  present := List.range chain.length

/-- Handlers are added behind all others. -/
def add (hs : List Handler) (r : Register) : Register :=
  { r with
    entered := r.entered ++ hs
    present := r.present ++ List.range' r.entered.length hs.length }

/-- A dispatch begins, and the chain is taken out. -/
def enter (r : Register) : Register :=
  { r with present := [], begun := r.begun ++ [r.entered.length] }

/-- A frame was offered. -/
def note (o : Offer) (r : Register) : Register := { r with offers := r.offers ++ [o] }

/-- Handlers are put back in front of those that were added meanwhile. -/
def restore (numbers : List Nat) (r : Register) : Register :=
  { r with present := numbers ++ r.present }

end Register

/-! ## Clerks -/

/-- What is written in the register when a callback of the application is called. -/
structure Clerk (η : Type) where
  hear : CallbackId → Connection → Indication → Session η → Register → Register
  offer : CallbackId → Frame → Session η → Register → Register
  answered : CallbackId → Except Failure Bytes → Session η → Register → Register

namespace Clerk

variable (clerk : Clerk η) (app : Application η)

/-- The turn of a subscriber in an emission. -/
def notify (i : Indication) (x : Session η × Register) (slot : Slot) : Session η × Register :=
  (x.1.notify app i slot,
    match slot.subscriber with
    | .application cb =>
      if x.1.isConnected slot.connection ∧ slot.connection ∉ x.1.running then
        clerk.hear cb slot.connection i { x.1 with running := slot.connection :: x.1.running } x.2
      else x.2
    | .watcher .. => x.2)

/-- What an emission enters. -/
def emit (i : Indication) (s : Session η) (r : Register) : Register :=
  ((s.stored i.event).foldl (clerk.notify app i) (s, r)).2

/-- What the answer to a request enters. -/
def resume (answer : Except Failure Bytes) (s : Session η) (r : Register) : Aftermath → Register
  | .application cb => clerk.answered cb answer s r
  | _ => r

/-- What the callbacks add when a handler is offered a frame. -/
def called (f : Frame) : Handler → Session η → Register → Register
  | .indication kind command event lenient, s, r =>
    if f.kind = kind ∧ f.command = command then
      match event.read lenient f.payload with
      | .ok i => clerk.emit app i s r
      | .error _ => r
    else r
  | .response accepted a, s, r =>
    match answer? accepted f with
    | some answer => clerk.resume answer s r a
    | none => r
  | .wait .., _, r => r
  | .timed timer inner, s, r =>
    if s.timers.active timer then called f inner s r else r
  | .custom cb _, s, r => clerk.offer cb f s r

/-- The turn of a numbered handler in the walk of the dispatch `d`. -/
def turn (f : Frame) (d : Nat) (x : Nat × Handler)
    (st : (Session η × List Wait × List Tracked) × Register) :
    ((Session η × List Wait × List Tracked) × Register) × Verdict :=
  let (walked, verdict) := Session.turn app f x.2 st.1
  ((walked, (clerk.called app f x.2 st.1.1 st.2).note ⟨d, x.1, verdict⟩), verdict)

/-- The walk of a dispatch : the numbered handlers that are left, and the register. -/
def walk (f : Frame) (s : Session η) (r : Register) : List (Nat × Handler) × Register :=
  let (left, (_, r), _) := Chain.dispatch (clerk.turn app f r.begun.length)
    (r.present.zip s.chain) ((s.enter, [], []), r.enter)
  (left, r)

/-- The register at the end of a dispatch. What the walk asked for is added last. -/
def deliver (f : Frame) (s : Session η) (r : Register) : Register :=
  let (left, walked) := clerk.walk app f s r
  let back := walked.restore (left.map Prod.fst)
  back.add ((s.dispatched app f).chain.drop back.present.length)

/-- What a deed adds. Most deeds do no more than to add handlers. -/
def perform (d : Deed η) (s : Session η) (r : Register) : Register :=
  match d with
  | .deliver f => clerk.deliver app f s r
  | .emit i => clerk.emit app i s r
  | d => r.add ((d.perform app s).chain.drop s.chain.length)

end Clerk

mutual

/-- What the clerk writes for a callback in a dispatch is what the deeds of the callback
add. -/
inductive Recorded (L : Licence η) : Application η → Clerk η → Prop
  | intro {app : Application η} {clerk : Clerk η}
      (hear : ∀ cb c i s, s.depth ≠ 0 → ∀ r,
        Logged L s r [] (app.hear cb c i s) (clerk.hear cb c i s r))
      (offer : ∀ cb f s, s.depth ≠ 0 → ∀ r,
        Logged L s r (app.offer cb f s).2.waits (app.offer cb f s).1 (clerk.offer cb f s r))
      (answered : ∀ cb a s, s.depth ≠ 0 → ∀ r,
        Logged L s r (app.answered cb a s).2.waits (app.answered cb a s).1
          (clerk.answered cb a s r)) :
      Recorded L app clerk

/-- A run leads from `s` to `t`, and the register from `r` to `r'`. -/
inductive Logged (L : Licence η) :
    Session η → Register → List Wait → Session η → Register → Prop
  | refl (s : Session η) (r : Register) : Logged L s r [] s r
  | deed {s t : Session η} {r r' : Register} {ws : List Wait} {app : Application η}
      {clerk : Clerk η} {d : Deed η} :
      Logged L s r ws t r' → Lawful L app → Recorded L app clerk → L.Permits d → d.Own t →
      Logged L s r ws (L.perform app d t) (clerk.perform app d t r')
  | wait {s t : Session η} {r r' : Register} {ws : List Wait} (p : Pattern)
      (window : Option Nat) :
      Logged L s r ws t r' → L.pattern p →
      Logged L s r (ws ++ [⟨p, window, t.issue.1⟩]) t.issue.2 r'

end

/-- The numbers in use are those of handlers, and each is used once. The numbers `out` are
those of handlers that are being walked. -/
structure Register.Orderly (out : List Nat) (r : Register) : Prop where
  lt : ∀ n ∈ out ++ r.present, n < r.entered.length
  nodup : (out ++ r.present).Nodup

/-- A part of the dispatch `d`, which offers its frame to the handlers `out`, leads from the
register `r` to `r'` and leaves the handlers `left` of them. The handlers `hs` are added and
the dispatches `bs` begin in it, and `os` are the offers. -/
structure Register.Grows (d : Nat) (out left : List Nat) (hs : List Handler) (bs : List Nat)
    (os : List Offer) (r r' : Register) : Prop where
  entered : r'.entered = r.entered ++ hs
  begun : r'.begun = r.begun ++ bs
  begun_le : ∀ b ∈ bs, b ≤ r'.entered.length
  offers : r'.offers = r.offers ++ os
  /-- A frame is offered to the handlers that were there when its dispatch began. -/
  offered : ∀ o ∈ os, o.dispatch = d ∧ o.handler ∈ out ∨
    r.begun.length ≤ o.dispatch ∧ ∃ n, r'.begun[o.dispatch]? = some n ∧ o.handler < n
  known : ∀ o ∈ os, o.handler ∈ out ++ (r.present ++ List.range' r.entered.length hs.length)
  nodup : (os.map Offer.pair).Nodup
  left : left = out.filter (· ∉ removals os)
  present : r'.present =
    (r.present ++ List.range' r.entered.length hs.length).filter (· ∉ removals os)

theorem mem_removals {os : List Offer} {n : Nat} :
    n ∈ removals os ↔ ∃ o ∈ os, o.verdict.remove = true ∧ o.handler = n := by
  simp [removals, and_assoc]

theorem removals_append (os os' : List Offer) :
    removals (os ++ os') = removals os ++ removals os' := by
  simp [removals]

namespace Register

variable {d : Nat} {out out' left left' rest : List Nat} {hs hs' : List Handler}
  {bs bs' : List Nat} {os os' : List Offer} {r r' r'' : Register}

namespace Grows

/-- Nobody is offered the frame. -/
theorem refl (d : Nat) (out : List Nat) (r : Register) : Grows d out out [] [] [] r r where
  entered := by simp
  begun := by simp
  begun_le := nofun
  offers := by simp
  offered := nofun
  known := nofun
  nodup := List.nodup_nil
  left := by simp [removals]
  present := by simp [removals]

theorem add (d : Nat) (r : Register) (hs : List Handler) :
    Grows d [] [] hs [] [] r (r.add hs) where
  entered := rfl
  begun := by simp [Register.add]
  begun_le := nofun
  offers := by simp [Register.add]
  offered := nofun
  known := nofun
  nodup := List.nodup_nil
  left := rfl
  present := by simp [removals, Register.add]

/-- A handler that is offered the frame leaves if its verdict says so. -/
theorem note (r : Register) {n : Nat} (hn : n ∉ r.present) (v : Verdict) :
    Grows d [n] (if v.remove then [] else [n]) [] [] [⟨d, n, v⟩] r (r.note ⟨d, n, v⟩) where
  entered := by simp [Register.note]
  begun := by simp [Register.note]
  begun_le := nofun
  offers := rfl
  offered o ho := by
    rw [List.mem_singleton.1 ho]
    exact Or.inl ⟨rfl, List.mem_singleton.2 rfl⟩
  known o ho := by
    rw [List.mem_singleton.1 ho]
    exact List.mem_append_left _ (List.mem_singleton.2 rfl)
  nodup := List.nodup_singleton _
  left := by cases hv : v.remove <;> simp [removals, hv]
  present := by
    have hkept : r.present.filter (· ∉ removals [⟨d, n, v⟩]) = r.present := by
      refine List.filter_eq_self.2 fun m hm => ?_
      have hne : n ≠ m := fun heq => hn (heq ▸ hm)
      simp [mem_removals, hne]
    simpa [Register.note] using hkept.symm

/-- A part that offers the frame to nobody is part of any dispatch. -/
theorem of_nil (h : Grows d [] left hs bs os r r') (d' : Nat) :
    Grows d' [] left hs bs os r r' :=
  { h with offered := fun o ho => Or.inr ((h.offered o ho).resolve_left nofun) }

/-- Handlers keep their numbers. -/
theorem getElem?_entered (h : Grows d out left hs bs os r r') {n : Nat} {g : Handler}
    (hn : r.entered[n]? = some g) : r'.entered[n]? = some g := by
  rw [h.entered, List.getElem?_append_left (List.getElem?_eq_some_iff.1 hn).1, hn]

/-- A handler that the dispatch is not about is not removed. -/
theorem not_removed (h : Grows d out left hs bs os r r') (hr : Orderly (out ++ rest) r) {n : Nat}
    (hn : n ∈ rest) : n ∉ removals os := by
  intro hgone
  obtain ⟨o, ho, -, rfl⟩ := mem_removals.1 hgone
  have hnodup := hr.nodup
  rw [List.append_assoc] at hnodup
  obtain ⟨-, hrest, hout⟩ := List.nodup_append.1 hnodup
  have hpresent := (List.nodup_append.1 hrest).2.2
  have hlt := hr.lt _ (List.mem_append_left _ (List.mem_append_right out hn))
  rcases List.mem_append.1 (h.known o ho) with hmem | hmem
  · exact hout _ hmem _ (List.mem_append_left _ hn) rfl
  · rcases List.mem_append.1 hmem with hmem | hmem
    · exact hpresent _ hn _ hmem rfl
    · exact absurd (List.mem_range'_1.1 hmem).1 (Nat.not_le_of_lt hlt)

/-- The handlers that are added later were not removed. -/
theorem removed_lt (h : Grows d out left hs bs os r r') (hr : Orderly out r) {n : Nat}
    (hn : n ∈ removals os) : n < r'.entered.length := by
  obtain ⟨o, ho, -, rfl⟩ := mem_removals.1 hn
  have hknown := h.known o ho
  rw [← List.append_assoc] at hknown
  rw [h.entered, List.length_append]
  rcases List.mem_append.1 hknown with hmem | hmem
  · exact Nat.lt_add_right _ (hr.lt _ hmem)
  · exact (List.mem_range'_1.1 hmem).2

/-- The handlers in the chain are some of those that were there or were added. -/
theorem mem_present (h : Grows d out left hs bs os r r') {n : Nat} (hn : n ∈ r'.present) :
    n ∈ r.present ++ List.range' r.entered.length hs.length := by
  rw [h.present] at hn
  exact (List.mem_filter.1 hn).1

/-- Whatever numbers are out besides stay in order. -/
theorem orderly (h : Grows d out left hs bs os r r') (hr : Orderly rest r) :
    Orderly rest r' := by
  obtain ⟨hrest, hpresent, hdisjoint⟩ := List.nodup_append.1 hr.nodup
  have hold (n : Nat) (hn : n ∈ rest ++ r.present) : n < r'.entered.length := by
    rw [h.entered, List.length_append]
    exact Nat.lt_add_right _ (hr.lt n hn)
  have hnew (n : Nat) (hn : n ∈ List.range' r.entered.length hs.length) (m : Nat)
      (hm : m ∈ rest ++ r.present) : m ≠ n := by
    have hlt := hr.lt m hm
    have hle := (List.mem_range'_1.1 hn).1
    omega
  refine ⟨fun n hn => ?_, List.nodup_append.2 ⟨hrest, ?_, fun n hn m hm => ?_⟩⟩
  · rcases List.mem_append.1 hn with hn | hn
    · exact hold n (List.mem_append_left _ hn)
    · rcases List.mem_append.1 (h.mem_present hn) with hn | hn
      · exact hold n (List.mem_append_right _ hn)
      · rw [h.entered, List.length_append]
        exact (List.mem_range'_1.1 hn).2
  · rw [h.present]
    refine List.Nodup.filter _ (List.nodup_append.2 ⟨hpresent, List.nodup_range', ?_⟩)
    exact fun m hm n hn => hnew n hn m (List.mem_append_right _ hm)
  · rcases List.mem_append.1 (h.mem_present hm) with hm | hm
    · exact hdisjoint n hn m hm
    · exact hnew m hm n (List.mem_append_left _ hn)

/-- No dispatch is forgotten. -/
theorem begun_length_le (h : Grows d out left hs bs os r r') :
    r.begun.length ≤ r'.begun.length := by
  rw [h.begun, List.length_append]
  exact Nat.le_add_right ..

/-- What is added later has the numbers behind. -/
theorem range_trans (h : Grows d out left hs bs os r r') (hs' : List Handler) :
    List.range' r.entered.length (hs ++ hs').length =
      List.range' r.entered.length hs.length ++ List.range' r'.entered.length hs'.length := by
  rw [h.entered, List.length_append, List.length_append, List.range'_append_1]

section Trans

variable (h : Grows d out left hs bs os r r') (h' : Grows d out' left' hs' bs' os' r' r'')
include h h'

theorem offered_trans {o : Offer} (ho : o ∈ os ++ os') :
    o.dispatch = d ∧ o.handler ∈ out ++ out' ∨
      r.begun.length ≤ o.dispatch ∧ ∃ n, r''.begun[o.dispatch]? = some n ∧ o.handler < n := by
  rcases List.mem_append.1 ho with ho | ho
  · refine (h.offered o ho).imp (And.imp_right (List.mem_append_left _)) ?_
    rintro ⟨hle, n, hn, hlt⟩
    refine ⟨hle, n, ?_, hlt⟩
    rw [h'.begun, List.getElem?_append_left (List.getElem?_eq_some_iff.1 hn).1, hn]
  · exact (h'.offered o ho).imp (And.imp_right (List.mem_append_right _))
      (And.imp_left (Nat.le_trans h.begun_length_le))

theorem known_trans {o : Offer} (ho : o ∈ os ++ os') :
    o.handler ∈ out ++ out' ++
      (r.present ++ List.range' r.entered.length (hs ++ hs').length) := by
  rw [h.range_trans]
  rcases List.mem_append.1 ho with ho | ho
  · have hknown := h.known o ho
    simp only [List.mem_append] at hknown ⊢
    tauto
  · have hknown := h'.known o ho
    have hpresent := h.mem_present (n := o.handler)
    simp only [List.mem_append] at hknown hpresent ⊢
    tauto

/-- The offers of one part are for other dispatches or to other handlers than those of the other
part. -/
theorem nodup_trans (hdisjoint : ∀ n ∈ out, n ∉ out')
    (hd : out ++ out' = [] ∨ d < r.begun.length) : ((os ++ os').map Offer.pair).Nodup := by
  have hnested : out ++ out' ≠ [] → d < r.begun.length := fun hne => hd.resolve_left hne
  have hlength := h.begun_length_le
  rw [List.map_append]
  refine List.nodup_append.2 ⟨h.nodup, h'.nodup, ?_⟩
  intro x hx y hy heq
  obtain ⟨o, ho, rfl⟩ := List.mem_map.1 hx
  obtain ⟨o', ho', rfl⟩ := List.mem_map.1 hy
  obtain ⟨hdispatch, hhandler⟩ := Prod.mk.inj heq
  rcases h.offered o ho with ⟨hod, hmem⟩ | ⟨hle, n, hn, -⟩ <;>
    rcases h'.offered o' ho' with ⟨hod', hmem'⟩ | ⟨hle', -⟩
  · exact hdisjoint _ hmem (hhandler ▸ hmem')
  · have hlt := hnested (List.ne_nil_of_mem (List.mem_append_left _ hmem))
    omega
  · have hlt := hnested (List.ne_nil_of_mem (List.mem_append_right _ hmem'))
    omega
  · have hlt := (List.getElem?_eq_some_iff.1 hn).1
    omega

theorem left_trans (hr : Orderly (out ++ out') r) (hswap : Orderly (out' ++ out) r') :
    left ++ left' = (out ++ out').filter (· ∉ removals (os ++ os')) := by
  rw [List.filter_append, removals_append, h.left, h'.left]
  refine congrArg₂ (· ++ ·) (List.filter_congr fun n hn => ?_) (List.filter_congr fun n hn => ?_)
  · simp [h'.not_removed hswap hn]
  · simp [h.not_removed hr hn]

theorem present_trans (hout : Orderly out r) :
    r''.present = (r.present ++ List.range' r.entered.length (hs ++ hs').length).filter
      (· ∉ removals (os ++ os')) := by
  rw [h.range_trans, ← List.append_assoc, List.filter_append, removals_append, h'.present,
    h.present, List.filter_append, List.filter_filter]
  refine congrArg₂ (· ++ ·) (List.filter_congr fun n hn => ?_) (List.filter_congr fun n hn => ?_)
  · simp [Bool.and_comm]
  · have hnew : n ∉ removals os := fun hgone =>
      absurd (h.removed_lt hout hgone) (Nat.not_lt_of_le (List.mem_range'_1.1 hn).1)
    simp [hnew]

/-- Two parts of a dispatch, one after the other. -/
theorem trans (hr : Orderly (out ++ out') r) (hd : out ++ out' = [] ∨ d < r.begun.length) :
    Grows d (out ++ out') (left ++ left') (hs ++ hs') (bs ++ bs') (os ++ os') r r'' := by
  have hout : Orderly out r :=
    ⟨fun n hn => hr.lt n (by simp at hn ⊢; tauto), hr.nodup.sublist (by simp)⟩
  have hswap : Orderly (out' ++ out) r' := h.orderly
    ⟨fun n hn => hr.lt n (by simp at hn ⊢; tauto),
      hr.nodup.perm (List.perm_append_comm.append_right _)⟩
  have hdisjoint := (List.nodup_append.1 (List.nodup_append.1 hr.nodup).1).2.2
  exact {
    entered := by rw [h'.entered, h.entered, List.append_assoc]
    begun := by rw [h'.begun, h.begun, List.append_assoc]
    begun_le := fun b hb => (List.mem_append.1 hb).elim
      (fun hb => by
        rw [h'.entered, List.length_append]
        exact Nat.le_add_right_of_le (h.begun_le b hb))
      (h'.begun_le b)
    offers := by rw [h'.offers, h.offers, List.append_assoc]
    offered := fun o ho => h.offered_trans h' ho
    known := fun o ho => h.known_trans h' ho
    nodup := h.nodup_trans h' (fun n hn hn' => hdisjoint n hn n hn' rfl) hd
    left := h.left_trans h' hr hswap
    present := h.present_trans h' hout }

end Trans

/-- A dispatch that offers its frame to all handlers in the chain, from its beginning until
they are put back. -/
theorem close (h : Grows r.begun.length r.present left hs bs os r.enter r') (hr : Orderly [] r) :
    Grows d [] [] hs (r.entered.length :: bs) os r (r'.restore left) where
  entered := h.entered
  begun := h.begun.trans (List.append_assoc ..)
  begun_le b hb := by
    rcases List.mem_cons.1 hb with rfl | hb
    · have hlength := congrArg List.length h.entered
      rw [List.length_append] at hlength
      exact Nat.le.intro hlength.symm
    · exact h.begun_le b hb
  offers := h.offers
  offered o ho := by
    refine Or.inr ?_
    rcases h.offered o ho with ⟨hd, hmem⟩ | ⟨hle, hrest⟩
    · refine ⟨Nat.le_of_eq hd.symm, r.entered.length, ?_, hr.lt _ hmem⟩
      have hbegun : (r'.restore left).begun = r.begun ++ r.entered.length :: bs :=
        h.begun.trans (List.append_assoc ..)
      rw [hbegun, hd, List.getElem?_append_right (Nat.le_refl _), Nat.sub_self,
        List.getElem?_cons_zero]
    · have hlength : r.enter.begun.length = r.begun.length + 1 := by simp [enter]
      exact ⟨by omega, hrest⟩
  known := h.known
  nodup := h.nodup
  left := rfl
  present := by
    have hpresent := h.present
    simp only [enter, List.nil_append] at hpresent
    rw [List.filter_append, ← h.left, ← hpresent]
    rfl

end Grows

end Register

end ZigbeeHost
