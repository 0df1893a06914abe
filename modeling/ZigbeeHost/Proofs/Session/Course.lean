import ZigbeeHost.Proofs.Session.Chronicle
import ZigbeeHost.Proofs.Session.Memory
/-!
# The course of a wait for a state

Whatever a session does, and however deep in callbacks, a wait for a state is at the stage that
the signs in the memory lead to (`Remembered.waits_decided_first`). The induction is over remembered
runs, and says that each run is in accord with the waits at its start (`Session.Accords`).

A deed meets with its own signs, and its callbacks leave theirs in the memory before that. For
a wait that was called for before the deed, the latter are about others, and the deed's own
signs lead to its stage (`Sound.perform_stage`). For a wait that a callback calls for in the
midst of the deed it is the other way round. So what is left to show is that the rest of a deed,
the turns of other subscribers and handlers, leaves such a wait where the callback left it.
-/

namespace ZigbeeHost

variable {θ : Type}

/-- Callbacks remembered something between `s` and `t`. With the signs `own` behind, it leads
the wait from the stage `σ` to one that `t` has it at. -/
def StateWait.Along (w : StateWait) (σ : StateWait.Stage) (s : Session (θ × List Sign))
    (own : List Sign) (t : Session (θ × List Sign)) : Prop :=
  ∃ signs, t.memory = s.memory ++ signs ∧ ((signs ++ own).foldl w.step σ).Holds w t

namespace Session

/-- The handlers for events stay in front, or there are still none. -/
def Poises (s t : Session (θ × List Sign)) : Prop := s.Poised → t.Poised

/-- What is remembered between `s` and `t` leads each wait from its stage in `s` to its stage in
`t`. -/
def Accords (s t : Session (θ × List Sign)) : Prop :=
  ∀ away owed, Sound (.unforced _) away owed s → s.Poised →
    ∀ (w : StateWait) (σ : StateWait.Stage), σ.Holds w s → w.Along σ s [] t

/-- No callback is called between `s` and `t`, and nobody is detached. -/
structure Glides (s t : Session (θ × List Sign)) : Prop where
  chain : t.chain = s.chain
  tracked : t.tracked = s.tracked
  host : t.host = s.host
  slots : s.slots ⊆ t.slots
  outlives : s.Outlives t

variable {s t u : Session (θ × List Sign)}

theorem stable_poises : Stable (Poises (θ := θ)) := stable_poised

namespace Glides

theorem refl (s : Session (θ × List Sign)) : Glides s s :=
  ⟨rfl, rfl, rfl, List.Subset.refl _, narrow_outlives.stable.refl s⟩

theorem trans (h : Glides s t) (h' : Glides t u) : Glides s u :=
  ⟨h'.chain.trans h.chain, h'.tracked.trans h.tracked, h'.host.trans h.host,
    List.Subset.trans h.slots h'.slots, narrow_outlives.trans h.outlives h'.outlives⟩

theorem complete (s : Session (θ × List Sign)) (op : OperationId)
    (outcome : Except Failure Outcome) : Glides s (s.complete op outcome) :=
  ⟨complete_chain .., complete_tracked .., complete_host .., by simp,
    outlives_complete s op outcome⟩

theorem disarm (s : Session (θ × List Sign)) (timer : TimerId) : Glides s (s.disarm timer) :=
  ⟨rfl, rfl, rfl, List.Subset.refl _, narrow_outlives.other rfl rfl rfl⟩

theorem retain (s : Session (θ × List Sign)) (event : Event) : Glides s (s.retain event) where
  chain := rfl
  tracked := rfl
  host := rfl
  slots := by
    rw [slots_retain]
    exact List.Subset.refl _
  outlives := narrow_outlives.other rfl (slots_retain ..) rfl

end Glides

/-- Whoever takes an answer glides, unless it is the application. -/
theorem glides_resume {a : Aftermath} (ha : ∀ callback, a ≠ .application callback)
    (app : Application (θ × List Sign)) (answer : Except Failure Bytes)
    (s : Session (θ × List Sign)) : Glides s (a.resume app answer s).1 := by
  rcases a.resume_cases app answer s with ⟨callback, heq⟩ |
    ⟨op, -, ⟨outcome, -, heq⟩ | ⟨c, -, heq⟩ | ⟨ends, allowed, -, heq⟩⟩
  · exact absurd heq (ha callback)
  · rw [heq]
    exact .complete s op outcome
  · rw [heq]
    exact .refl s
  · rw [heq]
    exact ⟨rfl, rfl, rfl, slots_subset_subscribe .., narrow_outlives.subscribe s _ _⟩

end Session

/-- A lawful application keeps sessions poised. -/
theorem Lawful.poises {L : Licence (θ × List Sign)} {app : Application (θ × List Sign)}
    (h : Lawful L app) : app.Keeps L fun s _ t => Session.Poises s t :=
  h.poised

namespace StateWait

variable {w : StateWait} {σ : Stage} {s t u : Session (θ × List Sign)} {own : List Sign}

/-- The stage of a wait does not depend on what the application remembers. -/
theorem Stage.Holds.congr (h : σ.Holds w s) {host : θ × List Sign} {running : List Connection} :
    σ.Holds w { s with host, running } := by
  cases σ <;> exact h

/-- Only a wait that was issued has come into being. -/
theorem Stage.Holds.eq_uncalled (h : σ.Holds w s) (hop : s.operations.size ≤ w.operation) :
    σ = .uncalled := by
  have hnot : s.pending w.operation ≠ true := fun hpending =>
    Nat.not_lt_of_le hop (Session.pending_lt hpending)
  cases σ with
  | uncalled => rfl
  | asked => exact absurd h.2.1 hnot
  | following => exact absurd h.choose_spec.2.2 hnot
  | decided outcome =>
    have hsome := Session.isSome_outcome?_iff.1 (Option.isSome_of_eq_some h.1)
    exact absurd hsome.1 (Nat.not_lt_of_le hop)

namespace Along

/-- A stage that holds is reached with no sign. -/
theorem of_holds (h : σ.Holds w t) (hmemory : t.memory = s.memory) : w.Along σ s [] t :=
  ⟨[], hmemory.trans (List.append_nil _).symm, h⟩

/-- Stages that come one after the other. -/
theorem trans (h : w.Along σ s [] t) (h' : ∀ σ', σ'.Holds w t → w.Along σ' t own u) :
    w.Along σ s own u := by
  obtain ⟨signs, hmemory, hstage⟩ := h
  rw [List.append_nil] at hstage
  obtain ⟨signs', hmemory', hstage'⟩ := h' _ hstage
  refine ⟨signs ++ signs', by rw [hmemory', hmemory, List.append_assoc], ?_⟩
  rwa [List.append_assoc, List.foldl_append]

/-- What callbacks remember is about others. -/
theorem of_overhears (h : s.Overhears t) (hop : w.operation < s.operations.size)
    (hstage : (own.foldl w.step σ).Holds w t) : w.Along σ s own t := by
  obtain ⟨signs, hmemory, hunconcerned⟩ := h
  refine ⟨signs, hmemory, ?_⟩
  rwa [List.foldl_append, foldl_of_unconcerned (hunconcerned _ hop)]

/-- What the deed itself meets with is about others. -/
theorem of_unconcerned (h : w.Along σ s [] t) (hown : ∀ sign ∈ own, ¬sign.Concerns w.operation) :
    w.Along σ s own t := by
  obtain ⟨signs, hmemory, hstage⟩ := h
  rw [List.append_nil] at hstage
  refine ⟨signs, hmemory, ?_⟩
  rwa [List.foldl_append, foldl_of_unconcerned hown]

/-- What an application keeps in mind follows what happened. -/
theorem remember (h : w.Along σ s own t) : w.Along σ s [] (t.remember own) := by
  obtain ⟨signs, hmemory, hstage⟩ := h
  refine ⟨signs ++ own, (congrArg (· ++ own) hmemory).trans (List.append_assoc ..), ?_⟩
  rw [List.append_nil]
  exact hstage.congr

end Along

end StateWait

namespace Sound

open StateWait

variable {away away' : List Handler} {owed owed' : List Tracked}
  {s t : Session (θ × List Sign)} {w : StateWait} {σ : Stage}
  {app : Application (θ × List Sign)} {f : Frame}

/-! ## The turns of others -/

/-- What glides by leaves the stage as it is. -/
theorem glides (ht : Sound (.unforced _) away owed t) (h : s.Glides t) (hσ : σ.Holds w s) :
    w.Along σ s [] t := by
  refine .of_holds ?_ (congrArg Prod.snd h.host)
  exact ht.carry hσ (h.chain ▸ List.Subset.refl _) h.outlives fun _ hslot htracked =>
    ⟨h.slots hslot, ht.not_owed (h.tracked ▸ htracked)⟩

section Callbacks

variable (hlaw : Lawful (.unforced _) app)
  (happ : app.Keeps (.unforced _) fun s _ t => Session.Accords s t)
include hlaw happ

/-- The turn of a subscriber that was attached when the emission started, in `s`. -/
theorem notify_along (i : Indication) {slot : Slot} (hst : s.Connects t)
    (ht : Sound (.unforced _) away owed t) (hp : t.Poised)
    (hslot : slot ∈ s.slots) (hother : slot.event = .stateChange → slot.subscriber ≠ w.subscriber)
    (hσ : σ.Holds w t) : w.Along σ t [] (t.notify app i slot) := by
  have hturn := ht.notify hlaw.upholds i hst hslot
  rcases Session.notify_cases app i t slot with
    heq | ⟨watch, op, outcome, -, -, -, heq⟩ | ⟨callback, -, heq⟩ <;> rw [heq] at hturn ⊢
  · exact .of_holds hσ rfl
  · refine .of_holds (hturn.carry hσ ?_ ?_ ?_) (congrArg Prod.snd (Session.complete_host ..))
    · rw [Session.complete_chain]
      exact List.Subset.refl _
    · exact Session.narrow_outlives.trans (Session.narrow_outlives.disconnect t _)
        (Session.outlives_complete _ op outcome)
    · intro connection hwatcher htracked
      rw [Session.complete_slots]
      refine ⟨Session.mem_slots_disconnect.2 ⟨hwatcher, fun hc => ?_⟩, ht.not_owed htracked⟩
      -- The slot with the connection is the same as when the emission started.
      have hold := hst.2 _ hwatcher (hc ▸ Session.lt_freshConnection hslot)
      obtain rfl := Session.eq_of_connection hold hslot hc
      exact hother rfl rfl
  · let calling := { t with running := slot.connection :: t.running }
    have hcalling : Sound (.unforced _) away owed calling := Accounts.congr ht rfl rfl rfl rfl
    obtain ⟨signs, hmemory, hstage⟩ :=
      happ.hear callback slot.connection i calling away owed hcalling hp w σ hσ.congr
    exact ⟨signs, hmemory, hstage.congr⟩

/-- An emission that is not for the wait. -/
theorem emit_along (hs : Sound (.unforced _) away owed s) (hp : s.Poised) (i : Indication)
    (hother : ∀ slot ∈ s.audience i.event, slot.event = .stateChange →
      slot.subscriber ≠ w.subscriber) (hσ : σ.Holds w s) : w.Along σ s [] (s.emit app i) := by
  refine (hs.emit_induct hlaw.upholds hlaw.connects
    (Q := fun t => t.Poised ∧ w.Along σ s [] t) ⟨hp, .of_holds hσ rfl⟩ ?_ ?_).2
  · intro t slot hslot hst ht ⟨hpt, halong⟩
    refine ⟨Session.stable_poises.notify hlaw.poises i t slot hpt, halong.trans fun σ' hσ' => ?_⟩
    exact notify_along hlaw happ i hst ht hpt (Session.mem_audience.1 hslot).1
      (hother slot hslot) hσ'
  · intro t ht ⟨hpt, halong⟩
    exact ⟨hpt, halong.trans fun σ' hσ' => (ht.retain i.event).glides (.retain t i.event) hσ'⟩

/-- The answer to a request leads along. -/
theorem resume_along {accepted : List Command} {a : Aftermath}
    (hs : Sound (.unforced _) (.response accepted a :: away) owed s) (hp : s.Poised)
    (answer : Except Failure Bytes) (hσ : σ.Holds w s) :
    w.Along σ s [] (a.resume app answer s).1 := by
  have hresumed := hs.resume hlaw.upholds answer
  cases a with
  | application callback => exact happ.answered callback answer s _ owed hs hp w σ hσ
  | _ => exact hresumed.glides (Session.glides_resume (fun _ h => by cases h) app answer s) hσ

/-- A handler that emits no change of state. -/
theorem offer_along {g : Handler} (hs : Sound (.unforced _) (g :: away) owed s) (hp : s.Poised)
    (hother : ∀ i, g.emission? f = some i → i.event ≠ .stateChange) (hσ : σ.Holds w s) :
    w.Along σ s [] (g.offer app f s).1 := by
  have hoffered := hs.offer hlaw.upholds hlaw.connects f
  rcases Handler.offer_cases (hs.formed g List.mem_cons_self) f app s with
    heq | ⟨i, hi, heq⟩ | ⟨accepted, a, answer, rfl, heq⟩ | ⟨p, op, rest, rfl, heq⟩ |
      ⟨id, p, op, rest, rfl, heq⟩ | ⟨callback, permanent, rfl, heq⟩ <;> rw [heq] at hoffered ⊢
  · exact .of_holds hσ rfl
  · refine emit_along hlaw happ hs hp i (fun slot hslot hevent => ?_) hσ
    have haudience : slot.event = i.event := of_decide_eq_true (List.mem_filter.1 hslot).2
    exact absurd (haudience.symm.trans hevent) (hother i hi)
  · exact resume_along hlaw happ hs hp answer hσ
  · exact hoffered.glides (.complete s op _) hσ
  · exact hoffered.glides ((Session.Glides.complete s op _).trans (.disarm _ id)) hσ
  · exact happ.offer callback f s _ owed hs hp w σ hσ

/-- A handler that is aborted leads along. -/
theorem abort_along {g : Handler} (hs : Sound (.unforced _) (g :: away) owed s) (hp : s.Poised)
    (e : Failure) (hσ : σ.Holds w s) : w.Along σ s [] (g.abort app e s) := by
  have haborted := hs.abort hlaw.upholds e
  cases g with
  | indication kind command event lenient => exact .of_holds hσ rfl
  | response accepted a =>
    refine (resume_along hlaw happ hs hp (.error e) hσ).trans fun σ' hσ' => ?_
    refine haborted.glides ?_ hσ'
    refine List.foldlRecOn (a.resume app (.error e) s).2.waits _
      (motive := fun t => (a.resume app (.error e) s).1.Glides t) (.refl _) ?_
    exact fun t ht x _ => ht.trans (.complete t x.operation _)
  | wait p op => exact haborted.glides (.complete s op _) hσ
  | timed id inner =>
    obtain ⟨p, op, rfl⟩ := hs.inner_eq
    refine haborted.glides ?_ hσ
    simp only [Handler.abort]
    split
    · exact (Session.Glides.disarm s id).trans (.complete _ op _)
    · exact .refl s
  | custom callback permanent =>
    have hgone : Sound (.unforced _) away owed s := Accounts.drop hs rfl (by rintro _ ⟨⟩)
    exact happ.abort callback e s away owed hgone hp w σ hσ

/-! ## Waits that are called for in the midst of a deed -/

/-- A walk in which nobody is told of a change of state. -/
theorem walk_along (chain : List Handler) (hs : Sound (.unforced _) (chain ++ away) owed s)
    (hp : s.Poised)
    (hother : ∀ h ∈ chain, ∀ i, h.emission? f = some i → i.event ≠ .stateChange)
    (hσ : σ.Holds w s) : w.Along σ s [] (s.walk app f chain).2.1.1 := by
  refine (hs.walk_induct hlaw.upholds hlaw.connects
    (Q := fun t => t.Poised ∧ w.Along σ s [] t) ⟨hp, .of_holds hσ rfl⟩ ?_).2
  intro g hg away' owed' t _ _ ht ⟨hpt, halong⟩
  refine ⟨?_, halong.trans fun σ' hσ' => offer_along hlaw happ ht hpt (hother g hg) hσ'⟩
  exact Session.stable_poises.steady.offer (fun _ _ => trivial) hlaw.poises f g t hpt

omit hlaw happ in
/-- The end of a dispatch, of which `left` are the handlers and `t` the session. -/
theorem leave_along {left : List Handler} {waits : List Wait} {tracked : List Tracked}
    (ht : Sound (.unforced _) (left ++ (waits.map Wait.handler ++ away)) (tracked ++ owed) t)
    (hσ : σ.Holds w t) : w.Along σ t [] (t.leave left waits tracked) := by
  obtain ⟨installed, hchain, -⟩ := Session.leave_chain left waits tracked t
  have heq := Session.leave_eq left waits tracked t
  refine .of_holds (ht.leave.carry hσ ?_ ?_ ?_) ?_
  · rw [hchain]
    exact fun h hh => List.mem_append_left _ (List.mem_append_right _ hh)
  · exact Session.narrow_outlives.leave _ _ _ _
  · intro connection hslot htracked
    have hnot := ht.not_owed htracked
    rw [List.map_append, List.mem_append, not_or] at hnot
    rw [heq]
    exact ⟨hslot, hnot.2⟩
  · rw [heq]
    rfl

/-- A wait that is called for in the midst of a dispatch. -/
theorem dispatched_along (hs : Sound (.unforced _) away owed s) (hp : s.Poised)
    (hnew : s.operations.size ≤ w.operation) (f : Frame) :
    w.Along .uncalled s [] (s.dispatched app f) := by
  have hentered : s.enter.Poised := Or.inr nofun
  have hbegin : Stage.uncalled.Holds w s.enter := trivial
  cases hheard : s.heard? f with
  | none =>
    have hwalk := walk_along hlaw happ s.chain hs.enter hentered (hs.emission?_event_ne hp hheard)
      hbegin
    exact hwalk.trans fun σ' hσ' =>
      leave_along (hs.enter.walk hlaw.upholds hlaw.connects s.chain f) hσ'
  | some state =>
    obtain ⟨hfront, hkind, hcommand, hread⟩ := hp.of_heard hheard
    obtain ⟨-, -, hdispatched⟩ := Session.deliver_listener hfront hkind hcommand hread app
    -- Whoever is told was attached when the dispatch began.
    have hother : ∀ slot ∈ s.enter.audience .stateChange, slot.event = .stateChange →
        slot.subscriber ≠ w.subscriber := by
      intro slot hslot _ hsub
      have hop : slot.subscriber.operation? = some w.operation := by
        rw [hsub]
        rfl
      have hpending := Accounts.pending_of_slot hs (List.mem_filter.1 hslot).1 hop
      exact Nat.not_lt_of_le hnew (Session.pending_lt hpending)
    have hemit := emit_along hlaw happ hs.enter hentered (.stateChange state) hother hbegin
    have hemitted : Sound (.unforced _) (s.chain ++ ([].map Wait.handler ++ away)) ([] ++ owed)
        (s.enter.emit app (.stateChange state)) := hs.enter.emit hlaw.upholds hlaw.connects _
    rw [hdispatched]
    exact hemit.trans fun σ' hσ' => leave_along hemitted hσ'

/-- A wait that is called for in the midst of a teardown. -/
theorem tearDown_along (hs : Sound (.unforced _) away owed s) (e : Failure) :
    w.Along .uncalled s [] (s.tearDown app e) := by
  let cleared := { s with chain := [], tracked := [], outbound := [] }
  let drained := (Chain.drain Handler.permanent (Handler.abort app e) s.chain cleared).2
  have hdrain : w.Along .uncalled cleared [] drained := by
    refine (hs.cleared.drain_induct hlaw.upholds
      (Q := fun t => t.Poised ∧ w.Along .uncalled cleared [] t)
      ⟨Or.inr nofun, .of_holds trivial rfl⟩ ?_).2
    intro g away' t _ ht ⟨hpt, halong⟩
    exact ⟨Session.stable_poises.abort hlaw.poises e g t hpt,
      halong.trans fun σ' hσ' => abort_along hlaw happ ht hpt e hσ'⟩
  have hdrained := hs.cleared.drain hlaw.upholds s.chain e
  refine StateWait.Along.trans (t := drained) hdrain fun σ' hσ' => ?_
  have hchain : (s.tracked.foldl (Session.abortTracked e) drained).chain = drained.chain := by
    rw [(Session.Fails.abortTracked s.tracked drained).1.other]
  refine .of_holds ((hs.tearDown hlaw.upholds e).carry hσ' ?_ ?_ ?_) ?_
  · exact fun h hh => List.mem_append_right _ (hchain ▸ hh)
  · exact Session.narrow_outlives.stable.abortTracked e s.tracked drained
  · intro connection hslot htracked
    have hnot := hdrained.not_owed htracked
    rw [List.map_append, List.mem_append, not_or] at hnot
    refine ⟨?_, hnot.2⟩
    show _ ∈ (s.tracked.foldl (Session.abortTracked e) drained).slots
    rw [Session.slots_abortTracked]
    exact List.mem_filter.2 ⟨hslot, decide_eq_true hnot.1⟩
  · refine congrArg Prod.snd (List.foldlRecOn s.tracked (Session.abortTracked e)
      (motive := fun t => t.host = drained.host) rfl ?_)
    exact fun t ht x _ => (Session.complete_host ..).trans ht

/-! ## Whole dispatches and teardowns -/

variable (hrecalls : app.Keeps (.unforced _) fun s _ t => Session.Recalls s t)
include hrecalls

/-- A dispatch leads from stage to stage as its frame heralds. -/
theorem dispatched_accords (hs : Sound (.unforced _) away owed s) (hp : s.Poised)
    (hσ : σ.Holds w s) (f : Frame) : w.Along σ s (s.heralds app f) (s.dispatched app f) := by
  rcases Nat.lt_or_ge w.operation s.operations.size with hold | hnew
  · refine .of_overhears (Session.overhears_dispatched hrecalls f s) hold ?_
    exact dispatched_stage hlaw (fun _ h => h) hs hp hσ f
  · obtain rfl := hσ.eq_uncalled hnew
    exact (dispatched_along hlaw happ hs hp hnew f).of_unconcerned ((hs.unconcerned hnew).1 app f)

/-- A teardown leads to the failure of what is under way. -/
theorem tearDown_accords (hs : Sound (.unforced _) away owed s) (hσ : σ.Holds w s) (e : Failure) :
    w.Along σ s [s.collapse e] (s.tearDown app e) := by
  rcases Nat.lt_or_ge w.operation s.operations.size with hold | hnew
  · refine .of_overhears (Session.overhears_tearDown hrecalls e s) hold ?_
    exact tearDown_stage hlaw (fun _ h => h) hs hσ e
  · obtain rfl := hσ.eq_uncalled hnew
    refine (tearDown_along hlaw happ hs e).of_unconcerned fun sign hsign => ?_
    rw [List.mem_singleton.1 hsign]
    exact (hs.unconcerned hnew).2 e

/-- A deferred teardown does so at the end. -/
theorem settleDeferred_accords (hs : Sound (.unforced _) away owed s) (hσ : σ.Holds w s) :
    w.Along σ s s.settling (s.settleDeferred app) := by
  rcases Session.settle_cases app s with ⟨hsettling, hsettled⟩ | ⟨e, hsettling, hsettled⟩ <;>
    rw [hsettling, hsettled]
  · exact .of_holds hσ rfl
  · have hu : Sound (.unforced _) away owed { s with deferred := none } :=
      Accounts.congr hs rfl rfl rfl rfl
    have hσu : σ.Holds w { s with deferred := none } := by
      cases σ <;> exact hσ
    exact tearDown_accords hlaw happ hrecalls hu hσu e

/-- A delivery leads from stage to stage as its signs say. -/
theorem deliver_accords (hs : Sound (.unforced _) away owed s) (hp : s.Poised)
    (hσ : σ.Holds w s) (f : Frame) :
    w.Along σ s (s.signs app (.deliver f)) (s.deliver app f) := by
  obtain ⟨signs, hmemory, hstage⟩ := dispatched_accords hlaw happ hrecalls hs hp hσ f
  have hdispatched := hs.dispatched hlaw f
  obtain ⟨signs', hmemory', hstage'⟩ :=
    settleDeferred_accords hlaw happ hrecalls hdispatched hstage
  refine ⟨signs ++ signs', ?_, ?_⟩
  · rw [Session.deliver_eq, hmemory', hmemory, List.append_assoc]
  · -- What callbacks meet with in the teardown comes before what they met with in the dispatch.
    have hswap : (signs' ++ s.heralds app f).foldl w.step (signs.foldl w.step σ) =
        (s.heralds app f ++ signs').foldl w.step (signs.foldl w.step σ) := by
      rcases Nat.lt_or_ge w.operation (s.dispatched app f).operations.size with hold | hnew
      · obtain ⟨signs'', hoverheard, hunconcerned⟩ :=
          Session.overhears_settleDeferred hrecalls (s.dispatched app f)
        obtain rfl := List.append_cancel_left (hmemory'.symm.trans hoverheard)
        rw [List.foldl_append, List.foldl_append, foldl_of_unconcerned (hunconcerned _ hold),
          foldl_of_unconcerned (hunconcerned _ hold)]
      · have hgains := Session.gains_dispatched hlaw.gains f s
        have hunconcerned := (hs.unconcerned (Nat.le_trans hgains.size hnew)).1 app f
        rw [List.foldl_append, List.foldl_append, foldl_of_unconcerned hunconcerned,
          foldl_of_unconcerned hunconcerned]
    have horder : (signs ++ signs' ++ s.signs app (.deliver f)).foldl w.step σ =
        (signs' ++ (s.dispatched app f).settling).foldl w.step
          ((signs ++ s.heralds app f).foldl w.step σ) := by
      rw [Session.signs, ← List.append_assoc, List.foldl_append, List.append_assoc,
        List.foldl_append, hswap, List.foldl_append, List.foldl_append, List.foldl_append]
    rw [horder]
    exact hstage'

/-- Each deed is in accord with the waits that there are when it begins. -/
theorem perform_accords (hs : Sound (.unforced _) away owed s) (hp : s.Poised)
    {d : Deed (θ × List Sign)} (hd : (Licence.unforced _).Permits d) (hheed : d.Heedful)
    (hown : d.Own s) (hσ : σ.Holds w s) :
    w.Along σ s [] ((d.perform app s).remember (s.signs app d)) := by
  refine StateWait.Along.remember ?_
  cases hquiet : d.quiet with
  | true =>
    refine ⟨[], ?_, ?_⟩
    · rw [Session.memory_perform hquiet hheed, List.append_nil]
    · refine perform_stage hlaw (fun _ h => h) hs hp hσ hd hown ?_
      rintro i rfl
      cases hquiet
  | false =>
    cases d with
    | deliver f => exact deliver_accords hlaw happ hrecalls hs hp hσ f
    | shutdown e =>
      by_cases hdepth : s.depth = 0
      · have hshutdown : s.shutdown app e = s.tearDown app e := if_pos hdepth
        have hsigns : s.signs app (.shutdown e) = [s.collapse e] := if_pos hdepth
        rw [hsigns, Deed.perform, hshutdown]
        exact tearDown_accords hlaw happ hrecalls hs hσ e
      · have hshutdown : s.shutdown app e = { s with deferred := s.deferred <|> some e } :=
          if_neg hdepth
        have hsigns : s.signs app (.shutdown e) = [] := if_neg hdepth
        rw [hsigns, Deed.perform, hshutdown]
        refine .of_holds ?_ rfl
        cases σ <;> exact hσ
    | emit i =>
      refine emit_along hlaw happ hs hp i (fun slot hslot hevent => ?_) hσ
      have haudience : slot.event = i.event := of_decide_eq_true (List.mem_filter.1 hslot).2
      exact absurd (haudience.symm.trans hevent) hd.1
    | _ => cases hquiet

end Callbacks

end Sound

/-! ## Every run -/

/-- A remembered run is in accord with the waits that there are when it begins. -/
theorem Remembered.accords {s t : Session (θ × List Sign)} {ws : List Wait}
    (h : Remembered s ws t) : s.Accords t := by
  refine h.keeps (R := fun s _ t => s.Accords t) ?_ ?_ ?_
  · exact fun s _ _ _ _ w σ hσ => .of_holds hσ rfl
  · intro s t ws app d hrun hst happ hkeeps hd hheed hown away owed hs hp w σ hσ
    have hsound := hrun.uses.keeps (Session.upholds_kept _) away owed hs
    have hpoised := hp.mono hrun.uses.retains hrun.uses.gains
    exact (hst away owed hs hp w σ hσ).trans fun σ' hσ' =>
      hsound.perform_accords happ.lawful hkeeps happ.recalls hpoised hd hheed hown hσ'
  · intro s t ws p window hrun hst away owed hs hp w σ hσ
    have hsound := (hrun.wait p window).uses.keeps (Session.upholds_kept _) away owed hs
    have hissue : t.Glides t.issue.2 :=
      ⟨rfl, rfl, rfl, List.Subset.refl _, Session.outlives_issue t⟩
    exact (hst away owed hs hp w σ hσ).trans fun σ' hσ' => hsound.glides hissue hσ'

/-- What a session makes of the waits for a state of the device, with what the application
remembers. -/
structure Session.MindsWaits (s : Session (θ × List Sign)) : Prop where
  /-- Every wait, wherever it was called for, is at the stage that the memory leads to. -/
  stage : ∀ w : StateWait, (s.memory.foldl w.step .uncalled).Holds w s
  /-- The first sign that says anything to a wait that awaits its answer is the answer, or a
  teardown. From there on the first sign that decides it is its outcome. -/
  outcome : ∀ (w : StateWait) (before idle after : List Sign) (sign : Sign),
    s.memory = before ++ .called w :: (idle ++ sign :: after) → .called w ∉ before →
    (∀ x ∈ idle, w.step .asked x = .asked) →
      match w.step .asked sign with
      | .decided outcome => s.outcome? w.operation = some outcome
      | .following => s.outcome? w.operation = after.findSome? w.decides?
      | _ => True
  /-- A call sends the question, and subscribes nobody yet. -/
  call : ∀ ends allowed, ∃ t : Session (θ × List Sign),
    s.call (.reachState ends allowed) = (.ok s.operations.size, t) ∧ t.slots = s.slots ∧
      t.outbound = s.outbound ++ [⟨.sreq, ConfigurationRequest.getDeviceInfo, [deviceStateInfo]⟩]
  /-- The change of state that a frame reports is told, if the frame is well-formed. -/
  heard : ∀ f, s.heard? f = f.stateChange?
  /-- Each wait that watches is told of the next change of state. -/
  told : ∀ w : StateWait, s.memory.foldl w.step .uncalled = .following →
    ∀ state, w.IsReached (.changed state (s.audience .stateChange))
  /-- Each wait that is not decided fails in the next teardown. -/
  torn : ∀ w : StateWait, s.memory.foldl w.step .uncalled = .asked ∨
    s.memory.foldl w.step .uncalled = .following → ∀ e, w.IsReached (s.collapse e)

/-- The outcome of a wait that has come into being is that of its stage. -/
theorem StateWait.Stage.Holds.outcome?_eq {w : StateWait} {σ : StateWait.Stage}
    {s : Session (θ × List Sign)} (h : σ.Holds w s) :
    match σ with
    | .decided outcome => s.outcome? w.operation = some outcome
    | .uncalled => True
    | _ => s.outcome? w.operation = none := by
  have hundecided (hpending : s.pending w.operation = true) : s.outcome? w.operation = none := by
    rw [← Option.not_isSome_iff_eq_none, Session.isSome_outcome?_iff, hpending]
    exact fun hdecided => by cases hdecided.2
  cases σ with
  | uncalled => trivial
  | asked => exact hundecided h.2.1
  | following => exact hundecided h.choose_spec.2.2
  | decided outcome => exact h.1

/-- A wait for a state of the device is decided by the first state that decides it, in every
run of an application that emits no change of state by hand. It counts from the state in the
answer to its question, and then the states that well-formed frames report, each once. Other
waits have no part in it, nor has the depth of callbacks at which it is called for. -/
theorem Remembered.waits_decided_first {config : SessionConfig} {host : θ}
    {s : Session (θ × List Sign)} (h : Remembered (.start config (host, [])) [] s) :
    s.MindsWaits := by
  have hfront : Session.Poised (Session.start config (host, ([] : List Sign))) :=
    Or.inl List.prefix_rfl
  have hstage : ∀ w : StateWait, (s.memory.foldl w.step .uncalled).Holds w s := by
    intro w
    obtain ⟨signs, hmemory, hholds⟩ :=
      h.accords [] [] (Sound.start _ config _) hfront w .uncalled trivial
    rw [List.append_nil] at hholds
    rw [hmemory]
    exact hholds
  refine {
    stage := hstage
    outcome := fun w before idle after sign hmemory hbefore hidle => ?_
    call := fun ends allowed => ⟨_, rfl, rfl, rfl⟩
    heard := fun f => if_pos ?_
    told := fun w hfollowing state => ?_
    torn := fun w hunderway e => ?_ }
  · have hwaits : idle.foldl w.step .asked = .asked := by
      refine List.foldlRecOn idle w.step (motive := fun stage => stage = .asked) rfl ?_
      rintro _ rfl x hx
      exact hidle x hx
    have hreached : w.IsReached (.called w) := rfl
    have hcalled : w.step .uncalled (.called w) = .asked := StateWait.step_of_isReached hreached _
    have hfold : s.memory.foldl w.step .uncalled =
        after.foldl w.step (w.step .asked sign) := by
      rw [hmemory, List.foldl_append, StateWait.foldl_uncalled hbefore, List.foldl_cons, hcalled,
        List.foldl_append, hwaits, List.foldl_cons]
    have hholds := hstage w
    rw [hfold] at hholds
    cases hanswer : w.step .asked sign with
    | uncalled | asked => trivial
    | following =>
      rw [hanswer, StateWait.foldl_following] at hholds
      cases hdecides : after.findSome? w.decides? with
      | none =>
        rw [hdecides] at hholds
        exact hholds.outcome?_eq
      | some outcome =>
        rw [hdecides] at hholds
        exact hholds.outcome?_eq
    | decided outcome =>
      rw [hanswer, StateWait.foldl_decided] at hholds
      exact hholds.outcome?_eq
  · have hlistening := h.uses.retains _ listening_all List.prefix_rfl
    exact hlistening.mem (List.mem_map_of_mem (by decide))
  · obtain ⟨connection, hslot, -⟩ := hfollowing ▸ hstage w
    have haudience : ⟨connection, .stateChange, w.subscriber⟩ ∈ s.audience .stateChange :=
      List.mem_filter.2 ⟨hslot, rfl⟩
    exact List.mem_map_of_mem (f := Slot.subscriber) haudience
  · rcases hunderway with hasked | hfollowing
    · exact Or.inl (hasked ▸ hstage w).1
    · obtain ⟨connection, -, htracked, -⟩ := hfollowing ▸ hstage w
      exact Or.inr (List.mem_map_of_mem (f := Tracked.operation) htracked)

/-! ## Waits that go apart -/

/-- The co-processor tells the state that the device is in. -/
def stateAnswer (state : UInt8) : Frame :=
  ⟨.srsp, ConfigurationRequest.getDeviceInfo, [deviceStateInfo, state]⟩

/-- The co-processor reports a change of the state. -/
def stateReport (payload : Bytes) : Frame := ⟨.areq, Event.stateChange.command, payload⟩

/-- What a deed with silent callbacks makes of a session. -/
def Session.live (s : Session (θ × List Sign)) (d : Deed (θ × List Sign)) :
    Session (θ × List Sign) :=
  (d.perform .silent s).remember (s.signs .silent d)

/-- A run goes on with a deed. -/
theorem Remembered.live {s t : Session (θ × List Sign)} {ws : List Wait} (h : Remembered s ws t)
    {d : Deed (θ × List Sign)} (hd : (Licence.unforced _).Permits d) (hheed : d.Heedful)
    (hown : d.Own t) : Remembered s ws (t.live d) :=
  h.deed .silent hd hheed hown

/-- A session in which two waits were called for, and answered. Then a report came that is cut
short, and one that the device is a coordinator. -/
def Session.parted : Session (Unit × List Sign) :=
  Session.start {} ((), [])
    |>.live (.call (.reachState [.zbCoord] [.coordStarting]))
    |>.live (.call (.reachState [.router] [.coordStarting]))
    |>.live (.deliver (stateAnswer 8))
    |>.live (.deliver (stateAnswer 8))
    |>.live (.deliver (stateReport []))
    |>.live (.deliver (stateReport [9]))

/-- A session in which one who waits is parted from its subscriber. -/
theorem Remembered.parted : Remembered (.start {} ((), [])) [] .parted := by
  have hcalled := (Remembered.refl (.start {} ((), []))).live
    (d := .call (.reachState [.zbCoord] [.coordStarting])) ⟨trivial, trivial⟩ trivial trivial
  have hasked := hcalled.live
    (d := .call (.reachState [.router] [.coordStarting])) ⟨trivial, trivial⟩ trivial trivial
  have htold := hasked.live (d := .deliver (stateAnswer 8)) ⟨trivial, trivial⟩ trivial trivial
  have hanswered :=
    htold.live (d := .deliver (stateAnswer 8)) ⟨trivial, trivial⟩ trivial trivial
  have hcut := hanswered.live (d := .deliver (stateReport [])) ⟨trivial, trivial⟩ trivial trivial
  exact hcut.live (d := .deliver (stateReport [9])) ⟨trivial, trivial⟩ trivial trivial

/-- What decides the one wait as it wishes fails the other. -/
theorem parted_decided :
    Session.parted.outcome? 0 = some (.ok (.state .zbCoord)) ∧
    Session.parted.outcome? 1 = some (.error (.invalidState .zbCoord)) ∧
    ∀ slot ∈ Session.parted.slots, slot.subscriber.operation? ≠ some 0 := by
  have hminds := Remembered.waits_decided_first .parted
  have hended : Session.parted.memory.foldl
      (StateWait.step ⟨[.zbCoord], [.coordStarting], 0⟩) .uncalled =
        .decided (.ok (.state .zbCoord)) := rfl
  have hended' : Session.parted.memory.foldl
      (StateWait.step ⟨[.router], [.coordStarting], 1⟩) .uncalled =
        .decided (.error (.invalidState .zbCoord)) := rfl
  obtain ⟨hzero, hleft⟩ := hended ▸ hminds.stage _
  exact ⟨hzero, (hended' ▸ hminds.stage _).1, hleft⟩

/-- An application whose subscribers ask for a teardown. -/
def Application.departing : Application (Unit × List Moment) :=
  .acting (.chronicled Unit) .silent fun _ => [.shutdown .timeout]

/-- A subscriber that shuts down keeps to the licence. -/
theorem Lawful.departing : Lawful (.chronicled Unit) .departing := by
  refine .acting (.silent fun _ => trivial) (fun _ d hd => ?_) fun _ d hd s => ?_
  all_goals cases List.mem_singleton.1 hd
  · exact ⟨trivial, trivial⟩
  · trivial

/-- A session with a subscriber of the application and a wait that is answered. -/
def Session.watching : Session (Unit × List Moment) :=
  [.subscribe .stateChange 0, .call (.reachState [.zbCoord] [.coordStarting]),
      .deliver (stateAnswer 8)].foldl
    (fun s d => (Licence.chronicled Unit).perform .silent d s) (.start {} ((), []))

/-- A wait for a state, in a reachable session. -/
theorem Reachable.watching : Reachable (.chronicled Unit) .watching := by
  have hsilent : Lawful (.chronicled Unit) .silent := .silent fun _ => trivial
  have hheard := (Reachable.start (.chronicled Unit) {} ((), [])).deed hsilent
    (d := .subscribe .stateChange 0) ⟨trivial, trivial⟩ trivial
  have hcalled := hheard.deed hsilent
    (d := .call (.reachState [.zbCoord] [.coordStarting])) ⟨trivial, trivial⟩ trivial
  exact hcalled.deed hsilent (d := .deliver (stateAnswer 8)) ⟨trivial, trivial⟩ trivial

/-- A change of state that the application emits by hand decides a wait before the first frame
that reports one, and a teardown that a subscriber asks for in the dispatch of a report does not
come before the report. -/
theorem watching_overtaken :
    Reachable (.chronicled Unit) .watching ∧ Lawful (.chronicled Unit) .departing ∧
    Session.watching.chronicle = [.delivered (stateAnswer 8)] ∧
    Session.watching.pending 0 = true ∧
    (let s := (Licence.chronicled Unit).perform .silent (.emit (.stateChange .zbCoord)) .watching
     let t := (Licence.chronicled Unit).perform .silent (.deliver (stateReport [0])) s
     t.chronicle = [.delivered (stateAnswer 8), .delivered (stateReport [0])] ∧
      t.outcome? 0 = some (.ok (.state .zbCoord))) ∧
    (let s := Application.departing.hear 0 0 (.stateChange .zbCoord) Session.watching.enter
     s.deferred = some .timeout ∧ s.pending 0 = true) ∧
    (Session.watching.deliver .departing (stateReport [9])).outcome? 0 =
      some (.ok (.state .zbCoord)) :=
  ⟨.watching, .departing, rfl, rfl, ⟨rfl, rfl⟩, ⟨rfl, rfl⟩, rfl⟩

end ZigbeeHost
