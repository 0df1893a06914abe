import ZigbeeHost.Proofs.Session.Sound
/-!
# Teardowns

What a teardown does to a session whose application has no handlers of its own, or resigns
when these are aborted (`Application.Resigns`). It aborts the handlers of the chain that are
not permanent and the tracked operations, and each of these steps fails operations that were
pending, and does not touch the others (`Fails`). The session that it leaves is sound, and
has permanent handlers only and nothing tracked. So nobody in it carries an operation, and
none is pending; nor is a timer armed, since a timer belongs to a handler that is not
permanent.
-/

namespace ZigbeeHost

variable {η : Type} {L : Licence η}

/-- With the failure of a teardown, the application does nothing to the session : it takes
note at most. -/
structure Application.Resigns (app : Application η) (e : Failure) : Prop where
  abort : ∀ cb (s : Session η), s.depth = 0 → ∃ host, app.abort cb e s = { s with host }
  answered : ∀ cb (s : Session η), s.depth = 0 →
    ∃ host, app.answered cb (.error e) s = ({ s with host }, {})

namespace Session

/-! ## Failing what is pending -/

/-- In `t` some operations that were pending in `s` failed with `e`. Otherwise the sessions
differ only in the application's state, in who is attached and in the timers that are
armed. -/
structure Fails (e : Failure) (s t : Session η) : Prop where
  other : t = { s with
    host := t.host
    operations := t.operations
    subscribers := t.subscribers
    timers := { s.timers with armed := t.timers.armed } }
  ledger : ∀ op : OperationId, t.operations[op]? = s.operations[op]? ∨
    s.operations[op]? = some none ∧ t.operations[op]? = some (some (Except.error e))

namespace Fails

variable {e : Failure} {s t u : Session η}

theorem of_eq {host : η} {subscribers : Roster Slot.connection}
    {armed : List (Timer OperationId)} :
    Fails e s { s with host, subscribers, timers := { s.timers with armed } } :=
  ⟨rfl, fun _ => Or.inl rfl⟩

theorem refl (s : Session η) : Fails e s s := ⟨rfl, fun _ => Or.inl rfl⟩

theorem depth (h : Fails e s t) : t.depth = s.depth := by rw [h.other]

theorem trans (h : Fails e s t) (h' : Fails e t u) : Fails e s u where
  other := by
    rw [h'.other, h.other]
  ledger op := by
    rcases h.ledger op with hop | ⟨hs, ht⟩ <;> rcases h'.ledger op with hop' | ⟨ht', hu⟩
    · exact Or.inl (hop'.trans hop)
    · exact Or.inr ⟨hop ▸ ht', hu⟩
    · exact Or.inr ⟨hs, hop'.trans ht⟩
    · rw [ht] at ht'
      cases ht'

theorem complete (s : Session η) (op : OperationId) : Fails e s (s.complete op (.error e)) where
  other := by
    rw [complete_host, complete_subscribers, complete_timers]
    exact complete_eq s op _
  ledger i := by
    rw [operations_complete]
    split
    · rename_i hi
      obtain ⟨rfl, hp⟩ := hi
      exact Or.inr ⟨pending_iff.1 hp, rfl⟩
    · exact Or.inl rfl

section Callbacks

variable {app : Application η} (hL : L.handlers → app.Resigns e)
include hL

/-- To abort a handler fails at most what the handler carries, and detaches nobody. -/
theorem abort {g : Handler} (hf : g.Formed L) (hdepth : s.depth = 0) :
    Fails e s (g.abort app e s) ∧ (g.abort app e s).subscribers = s.subscribers := by
  cases g with
  | indication kind command event lenient => exact ⟨refl s, rfl⟩
  | response accepted a =>
    cases a with
    | application callback =>
      obtain ⟨host, hresigns⟩ := (hL hf).answered callback s hdepth
      have habort : (Handler.response accepted (.application callback)).abort app e s =
          { s with host } := by
        simp only [Handler.abort, Aftermath.abort, Aftermath.resume, hresigns]
        rfl
      rw [habort]
      exact ⟨of_eq, rfl⟩
    | _ => exact ⟨complete s _, complete_subscribers s _ _⟩
  | wait p op => exact ⟨complete s op, complete_subscribers s _ _⟩
  | timed id inner =>
    cases inner with
    | wait p op =>
      simp only [Handler.abort]
      split
      · exact ⟨of_eq.trans (complete (s.disarm id) op), complete_subscribers ..⟩
      · exact ⟨refl s, rfl⟩
    | _ => exact hf.elim
  | custom callback permanent =>
    obtain ⟨host, hresigns⟩ := (hL hf).abort callback s hdepth
    rw [Handler.abort, hresigns]
    exact ⟨of_eq, rfl⟩

theorem drain (chain : List Handler) (hf : ∀ g ∈ chain, g.Formed L) (s : Session η)
    (hdepth : s.depth = 0) :
    Fails e s (Chain.drain Handler.permanent (Handler.abort app e) chain s).2 ∧
      (Chain.drain Handler.permanent (Handler.abort app e) chain s).2.subscribers =
        s.subscribers := by
  induction chain generalizing s with
  | nil => exact ⟨refl s, rfl⟩
  | cons g behind ih =>
    have ih := ih fun x hx => hf x (List.mem_cons_of_mem g hx)
    cases hp : g.permanent with
    | true =>
      rw [Chain.drain_cons_of_permanent behind s hp]
      exact ih s hdepth
    | false =>
      obtain ⟨habort, hsame⟩ := abort hL (hf g List.mem_cons_self) hdepth
      obtain ⟨hrest, hsame'⟩ := ih _ (habort.depth.trans hdepth)
      rw [Chain.drain_cons_of_not_permanent behind s hp]
      exact ⟨habort.trans hrest, hsame'.trans hsame⟩

end Callbacks

/-- To abort tracked operations detaches their subscribers. -/
theorem abortTracked (ts : List Tracked) (s : Session η) :
    Fails e s (ts.foldl (Session.abortTracked e) s) ∧
      (ts.foldl (Session.abortTracked e) s).subscribers =
        s.subscribers.lowerEach (ts.map Tracked.connection) := by
  induction ts generalizing s with
  | nil => exact ⟨refl s, rfl⟩
  | cons x ts ih =>
    have habort : Fails e s (s.abortTracked e x) :=
      of_eq.trans (complete (s.disconnect x.connection) x.operation)
    obtain ⟨hrest, hlowered⟩ := ih (s.abortTracked e x)
    refine ⟨habort.trans hrest, hlowered.trans ?_⟩
    rw [Session.abortTracked, complete_subscribers]
    rfl

end Fails

theorem slots_abortTracked (e : Failure) (ts : List Tracked) (s : Session η) :
    (ts.foldl (abortTracked e) s).slots =
      s.slots.filter fun slot => slot.connection ∉ ts.map Tracked.connection := by
  rw [slots, (Fails.abortTracked ts s).2]
  exact Roster.live_lowerEach ..

end Session

/-! ## Sound sessions with nobody to tear down -/

namespace Sound

variable {s : Session η}

/-- If all handlers are permanent and nothing is tracked, no operation is pending. -/
theorem not_pending (h : Sound L [] [] s) (hchain : ∀ g ∈ s.chain, g.permanent = true)
    (htracked : s.tracked = []) (op : OperationId) : s.pending op = false := by
  cases hp : s.pending op with
  | false => rfl
  | true =>
    have hmem : op ∈ s.carriedBy s.chain := by
      have hcount := h.carried op
      rw [if_pos hp] at hcount
      exact List.count_pos_iff.1 (hcount ▸ Nat.one_pos)
    rcases List.mem_append.1 hmem with hmem | hmem
    · obtain ⟨g, hg, hc⟩ := List.mem_filterMap.1 hmem
      have hop := Handler.operation?_of_carried? hc
      rw [(h.formed g hg).operation?_of_permanent (hchain g hg)] at hop
      cases hop
    · obtain ⟨slot, hslot, hop⟩ := List.mem_filterMap.1 hmem
      have hlisted : _ ∈ s.tracked := h.watchers.listed slot hslot op hop
      rw [htracked] at hlisted
      cases hlisted

/-- If all handlers are permanent, no timer is armed. -/
theorem armed_eq_nil (h : Sound L [] [] s) (hchain : ∀ g ∈ s.chain, g.permanent = true) :
    s.timers.armed = [] := by
  refine List.eq_nil_iff_forall_not_mem.2 fun e he => ?_
  obtain ⟨p, hp⟩ := h.timers.armed e he
  exact Bool.false_ne_true (hchain _ hp)

end Sound

/-! ## The teardown -/

namespace Session

/-- A session without anything under way : permanent handlers, nothing tracked, nothing to
be sent. -/
structure Idle (s : Session η) : Prop where
  chain : ∀ g ∈ s.chain, g.permanent = true
  tracked : s.tracked = []
  outbound : s.outbound = []

/-- A teardown of an idle session changes nothing. -/
theorem Idle.shutdown {s : Session η} (h : s.Idle) (hdepth : s.depth = 0)
    (app : Application η) (e : Failure) : s.shutdown app e = s := by
  rw [Session.shutdown, if_pos hdepth, tearDown, Chain.drain_eq_self _ _ h.chain]
  simp only [h.tracked, List.foldl_nil, restore, List.append_nil]
  rw [← h.tracked, ← h.outbound]

/-- What a teardown leaves, if the application has no handlers of its own or resigns. -/
structure TornDown (e : Failure) (s t : Session η) : Prop where
  other : t = { s with
    host := t.host
    chain := t.chain
    timers := { s.timers with armed := t.timers.armed }
    operations := t.operations
    subscribers := t.subscribers
    tracked := t.tracked
    outbound := t.outbound }
  ledger : ∀ op : OperationId, t.operations[op]? = s.operations[op]? ∨
    s.operations[op]? = some none ∧ t.operations[op]? = some (some (Except.error e))
  chain : t.chain = s.chain.filter Handler.permanent
  subscribers : t.subscribers = s.subscribers.lowerEach (s.tracked.map Tracked.connection)
  tracked : t.tracked = []
  outbound : t.outbound = []
  depth : t.depth = s.depth

/-- The subscribers of tracked operations are detached. -/
theorem TornDown.slots {e : Failure} {s t : Session η} (h : TornDown e s t) :
    t.slots = s.slots.filter fun slot => slot.connection ∉ s.tracked.map Tracked.connection := by
  rw [Session.slots, h.subscribers]
  exact Roster.live_lowerEach ..

theorem TornDown.idle {e : Failure} {s t : Session η} (h : TornDown e s t) : t.Idle where
  chain g hg := by
    rw [h.chain] at hg
    exact (List.mem_filter.1 hg).2
  tracked := h.tracked
  outbound := h.outbound

theorem tornDown_of_resigns {s : Session η} {app : Application η} {e : Failure}
    (hf : ∀ g ∈ s.chain, g.Formed L) (hL : L.handlers → app.Resigns e) (hdepth : s.depth = 0) :
    TornDown e s (s.tearDown app e) := by
  rw [tearDown]
  obtain ⟨hdrain, hsame⟩ := Fails.drain hL s.chain hf
    { s with chain := [], tracked := [], outbound := [] } hdepth
  have hkept := Chain.drain_fst Handler.permanent (Handler.abort app e)
    s.chain { s with chain := [], tracked := [], outbound := [] }
  generalize Chain.drain Handler.permanent (Handler.abort app e) s.chain _ = d at *
  obtain ⟨kept, drained⟩ := d
  obtain ⟨haborted, hlowered⟩ := Fails.abortTracked (e := e) s.tracked drained
  have hall := hdrain.trans haborted
  have hchain : (s.tracked.foldl (abortTracked e) drained).chain = [] := by rw [hall.other]
  have htracked : (s.tracked.foldl (abortTracked e) drained).tracked = [] := by rw [hall.other]
  have houtbound : (s.tracked.foldl (abortTracked e) drained).outbound = [] := by rw [hall.other]
  have hdepth' : (s.tracked.foldl (abortTracked e) drained).depth = s.depth := by rw [hall.other]
  refine ⟨?_, hall.ledger, ?_, ?_, htracked, houtbound, hdepth'⟩
  · simp only [restore]
    rw [hall.other]
  · simp only [restore, hchain, List.append_nil]
    exact hkept
  · exact hlowered.trans (by rw [hsame])

theorem tornDown_shutdown {s : Session η} (hf : ∀ g ∈ s.chain, g.Formed L)
    (hL : ¬L.handlers) (hdepth : s.depth = 0) (app : Application η) (e : Failure) :
    TornDown e s (s.shutdown app e) := by
  rw [Session.shutdown, if_pos hdepth]
  exact tornDown_of_resigns hf (fun h => absurd h hL) hdepth

end Session

/-- A teardown is complete and minimal. Every pending operation fails with the failure that
is given, and the others keep their outcome; the permanent handlers stay, no timer is armed
and no frame is left to be sent; the subscribers of tracked operations are detached, and all
others stay in order. To tear down once more changes nothing. -/
theorem Reachable.torn_down {s : Session η} (hs : Reachable .facade s) {app : Application η}
    (happ : Lawful .facade app) (e : Failure) :
    (∀ op, s.pending op = true → (s.shutdown app e).outcome? op = some (.error e)) ∧
    (∀ op outcome, s.outcome? op = some outcome →
      (s.shutdown app e).outcome? op = some outcome) ∧
    (s.shutdown app e).chain = s.chain.filter Handler.permanent ∧
    (s.shutdown app e).timers.nextDeadline? = none ∧
    (s.shutdown app e).outbound = [] ∧
    (s.shutdown app e).slots =
      s.slots.filter (fun slot => slot.connection ∉ s.tracked.map Tracked.connection) ∧
    ∀ app' e', (s.shutdown app e).shutdown app' e' = s.shutdown app e := by
  have hdepth := hs.calm.1
  have h := Session.tornDown_shutdown hs.sound.formed id hdepth app e
  have hsound := hs.sound.shutdown happ.upholds e
  have hidle := h.idle
  refine ⟨?_, ?_, h.chain, ?_, h.outbound, h.slots,
    fun app' e' => hidle.shutdown (h.depth.trans hdepth) app' e'⟩
  · intro op hp
    rw [Session.outcome?_eq_some_iff]
    rcases h.ledger op with hop | ⟨-, hop⟩
    · have hpending := hsound.not_pending hidle.chain hidle.tracked op
      rw [Session.pending_iff] at hp
      rw [Bool.eq_false_iff, Ne, Session.pending_iff, hop] at hpending
      exact absurd hp hpending
    · exact hop
  · intro op outcome ho
    rw [Session.outcome?_eq_some_iff] at ho ⊢
    rcases h.ledger op with hop | ⟨hpending, -⟩
    · rw [hop, ho]
    · rw [ho] at hpending
      cases hpending
  · rw [Timers.nextDeadline?, hsound.armed_eq_nil hidle.chain]
    rfl

/-- A ping fails with its session. -/
theorem pinged_torn_down :
    (Session.pinged.shutdown .silent .timeout).outcome? 0 = some (.error .timeout) :=
  (Reachable.torn_down .pinged (.silent fun _ => trivial) .timeout).1 0 rfl

end ZigbeeHost
