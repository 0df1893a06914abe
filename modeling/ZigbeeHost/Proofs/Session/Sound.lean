import ZigbeeHost.Proofs.Session.History
import ZigbeeHost.Proofs.Session.Custody
/-!
# Sound sessions

`Sound L away owed s` is the invariant `Accounts` of a session from which the handlers
`away` have been taken and to which the tracked operations `owed` are yet to come. Outside
of dispatches nothing is away and nothing is owed. In a dispatch the whole chain is away,
and as the walk goes on the waits that it asked for take the place of the handlers that
are done.

What else the turns of a sound session keep is shown for one subscriber or handler at a time,
and then holds of emissions, walks and teardowns (`Sound.emit_induct`, `Sound.walk_induct`,
`Sound.drain_induct`).

A run `Upholds` it for whatever is away : it cannot know who called the callback that it
happens in, and it ends with its own waits away too. Each operation of a session upholds
it (`Session.upholds_perform`), so every session that an application reaches is sound
(`Reachable.sound`).
-/

namespace ZigbeeHost

variable {η : Type} {L : Licence η}

/-- The handler for a wait, as long as its window is not opened. -/
def Wait.handler (w : Wait) : Handler := .wait w.pattern w.operation

/-- The operations of a session are accounted for, with the handlers `away` from its chain
and the tracked operations that are `owed` to it. -/
def Sound (L : Licence η) (away : List Handler) (owed : List Tracked) (s : Session η) :
    Prop :=
  Accounts L (away ++ s.chain) (owed ++ s.tracked) s

/-- What is sound in `s` is sound in `t`, where the waits `ws` are away too. -/
def Session.Upholds (L : Licence η) (s : Session η) (ws : List Wait) (t : Session η) : Prop :=
  ∀ away owed, Sound L away owed s → Sound L (ws.map Wait.handler ++ away) owed t

namespace Sound

variable {away away' : List Handler} {owed owed' : List Tracked} {s : Session η}

theorem of_accounts {t : Session η} (h : Accounts L (away ++ s.chain) (owed ++ s.tracked) t)
    (hc : t.chain = s.chain) (ht : t.tracked = s.tracked) : Sound L away owed t := by
  unfold Sound
  rwa [hc, ht]

theorem perm (h : Sound L away owed s) (ha : away.Perm away') (ho : owed.Perm owed') :
    Sound L away' owed' s :=
  Accounts.perm h (ha.append_right _) (ho.append_right _)

theorem complete {g : Handler} {op : OperationId} (h : Sound L (g :: away) owed s)
    (hop : g.operation? = some op) (ht : g.timer? = none)
    (outcome : Except Failure Outcome) : Sound L away owed (s.complete op outcome) :=
  of_accounts (Accounts.complete h hop ht outcome) (Session.complete_chain ..)
    (Session.complete_tracked ..)

/-- Waits that go nowhere are completed. -/
theorem drop_waits {r : Reply} (h : Sound L (r.waits.map Wait.handler ++ away) owed s) :
    Sound L away owed (r.drop s) := by
  unfold Reply.drop
  generalize r.waits = ws at h
  induction ws generalizing s with
  | nil => exact h
  | cons w ws ih => exact ih (Sound.complete h rfl rfl _)

/-- Behind a timer there is a wait. -/
theorem inner_eq {id : TimerId} {inner : Handler}
    (h : Sound L (.timed id inner :: away) owed s) : ∃ p op, inner = .wait p op := by
  have hf : Handler.Formed L (.timed id inner) := h.formed _ List.mem_cons_self
  cases inner with
  | wait p op => exact ⟨p, op, rfl⟩
  | _ => exact hf.elim

/-! ## Emissions -/

section Callbacks

variable {app : Application η} (happ : app.Keeps L (Session.Upholds L))
include happ

/-- The turn of a subscriber that was attached when the emission started, in `s`. -/
theorem notify (i : Indication) {t : Session η} {slot : Slot} (ht : Sound L away owed t)
    (hst : s.Connects t) (hslot : slot ∈ s.slots) :
    Sound L away owed (t.notify app i slot) := by
  rcases Session.notify_cases app i t slot with
    heq | ⟨watch, op, outcome, hconnected, hsub, -, heq⟩ | ⟨callback, -, heq⟩ <;> rw [heq]
  · exact ht
  · -- The subscriber with the connection is the same as when the emission started.
    have hmem := hst.stays hslot hconnected
    have hop : slot.subscriber.operation? = some op := by rw [hsub]; rfl
    exact of_accounts (Accounts.fire ht hmem hop _) (Session.complete_chain ..)
      (Session.complete_tracked ..)
  · have hcalling : Sound L away owed { t with running := slot.connection :: t.running } :=
      Accounts.congr ht rfl rfl rfl rfl
    exact Accounts.congr (happ.hear _ _ _ _ away owed hcalling) rfl rfl rfl rfl

variable (hold : app.Keeps L fun s _ t => Session.Connects s t)
include hold

/-- What the turns of the subscribers keep, which were attached when the emission started, the
emission keeps. -/
theorem emit_induct {Q : Session η → Prop} {i : Indication} (h : Sound L away owed s) (hQ : Q s)
    (turn : ∀ t, ∀ slot ∈ s.audience i.event, s.Connects t → Sound L away owed t → Q t →
      Q (t.notify app i slot))
    (retain : ∀ t, Sound L away owed t → Q t → Q (t.retain i.event)) : Q (s.emit app i) := by
  have hconnects := Session.narrow_connects.stable.notify hold i
  obtain ⟨-, hsound, hfold⟩ := List.foldlRecOn (s.audience i.event) (Session.notify app i)
    (motive := fun t => s.Connects t ∧ Sound L away owed t ∧ Q t)
    ⟨Session.narrow_connects.stable.refl s, h, hQ⟩ fun t ⟨hst, ht, hQt⟩ slot hslot =>
      ⟨Session.narrow_connects.trans hst (hconnects t slot),
        ht.notify happ i hst (Session.mem_audience.1 hslot).1, turn t slot hslot hst ht hQt⟩
  rw [Session.emit_eq hold]
  exact retain _ hsound hfold

omit happ hold in
theorem retain (h : Sound L away owed s) (event : Event) : Sound L away owed (s.retain event) :=
  Accounts.congr h rfl (Session.slots_retain event s) rfl rfl

theorem emit (h : Sound L away owed s) (i : Indication) : Sound L away owed (s.emit app i) :=
  h.emit_induct happ hold h
    (fun _ _ hslot hst ht _ => ht.notify happ i hst (Session.mem_audience.1 hslot).1)
    fun _ _ ht => ht.retain i.event

/-! ## Handlers -/

omit hold in
/-- Whoever takes the answer to a request hands its operation over, or completes it. -/
theorem resume {accepted : List Command} {a : Aftermath}
    (h : Sound L (.response accepted a :: away) owed s) (answer : Except Failure Bytes) :
    Sound L ((a.resume app answer s).2.waits.map Wait.handler ++ away)
      ((a.resume app answer s).2.tracked ++ owed) (a.resume app answer s).1 := by
  rcases a.resume_cases app answer s with ⟨callback, rfl⟩ |
    ⟨op, hop, ⟨outcome, -, heq⟩ | ⟨c, rfl, heq⟩ | ⟨ends, allowed, rfl, heq⟩⟩
  · have hgone : Sound L away owed s := Accounts.drop h rfl (by rintro _ ⟨⟩)
    simp only [Aftermath.resume, happ.answered_tracked]
    exact happ.answered callback answer s away owed hgone
  · rw [heq]
    exact h.complete hop rfl outcome
  · rw [heq]
    exact Accounts.swap h (Or.inl rfl) rfl rfl rfl
  · rw [heq]
    exact Accounts.subscribe_watcher h rfl rfl _ _

/-- A handler that is offered a frame stays, or what it carries is completed or handed
over. -/
theorem offer {g : Handler} (h : Sound L (g :: away) owed s) (f : Frame) :
    Sound L
      (Chain.left g (g.offer app f s).2.verdict ++
        ((g.offer app f s).2.waits.map Wait.handler ++ away))
      ((g.offer app f s).2.tracked ++ owed) (g.offer app f s).1 := by
  cases g with
  | indication kind command event lenient =>
    simp only [Handler.offer]
    split
    · split
      · exact h.emit happ hold _
      · exact h
    · exact h
  | response accepted a =>
    simp only [Handler.offer]
    split
    · exact h.resume happ _
    · exact h
  | wait pattern op =>
    simp only [Handler.offer]
    split
    · exact h.complete rfl rfl _
    · exact h
  | timed id inner =>
    obtain ⟨p, op, rfl⟩ := h.inner_eq
    cases hid : s.timers.active id with
    | true =>
      rw [Handler.offer_timed_of_active hid]
      cases hm : p.match? f with
      | none =>
        have hpass : (Handler.wait p op).offer app f s = (s, {}) := by simp [Handler.offer, hm]
        rw [hpass]
        exact h
      | some rest =>
        have htake : (Handler.wait p op).offer app f s =
            (s.complete op (.ok (.payload rest)), { verdict := .consume }) := by
          simp [Handler.offer, hm]
        have hgone := Sound.complete (Accounts.disarm h hid) rfl rfl (.ok (.payload rest))
        rw [← Session.disarm_complete] at hgone
        rw [htake]
        exact hgone
    | false =>
      rw [Handler.offer_timed_of_not_active hid]
      refine Accounts.drop h ?_ ?_
      · simp [Handler.carried?, hid]
      · rintro _ ⟨⟩
        exact hid
  | custom callback permanent =>
    have hdone := happ.offer callback f s (.custom callback permanent :: away) owed h
    simp only [Handler.offer, happ.offer_tracked]
    cases hr : (app.offer callback f s).2.verdict.remove with
    | true =>
      rw [Chain.left, if_pos hr]
      exact Accounts.drop (hdone.perm List.perm_middle (List.Perm.refl _)) rfl (by rintro _ ⟨⟩)
    | false =>
      rw [Chain.left, if_neg (by simp [hr])]
      exact hdone.perm List.perm_middle (List.Perm.refl _)

omit hold in
/-- A handler that is aborted completes what it carries. -/
theorem abort {g : Handler} (h : Sound L (g :: away) owed s) (e : Failure) :
    Sound L away owed (g.abort app e s) := by
  cases g with
  | indication kind command event lenient => exact Accounts.drop h rfl (by rintro _ ⟨⟩)
  | response accepted a =>
    have hresumed := h.resume happ (.error e)
    have htracked : (a.resume app (.error e) s).2.tracked = [] := by
      cases a with
      | application callback => exact happ.answered_tracked callback _ s
      | _ => rfl
    rw [htracked] at hresumed
    exact hresumed.drop_waits
  | wait pattern op => exact h.complete rfl rfl _
  | timed id inner =>
    obtain ⟨p, op, rfl⟩ := h.inner_eq
    simp only [Handler.abort]
    split
    · rename_i hid
      exact Sound.complete (Accounts.disarm h hid) rfl rfl _
    · rename_i hid
      exact Accounts.drop h (if_neg hid) (by rintro _ ⟨⟩; simpa using hid)
  | custom callback permanent =>
    exact happ.abort callback e s away owed (Accounts.drop h rfl (by rintro _ ⟨⟩))

/-! ## Dispatch -/

omit happ hold in
/-- At the start of a dispatch all handlers are away. -/
theorem enter (h : Sound L away owed s) : Sound L (s.chain ++ away) owed s.enter := by
  have hcomm := Accounts.perm h List.perm_append_comm (List.Perm.refl _)
  simpa [Sound, Session.enter] using Accounts.congr (t := s.enter) hcomm rfl rfl rfl rfl

/-- In its turn a handler that is done makes room for the waits that it asks for. -/
theorem turn {before behind : List Handler} {g : Handler} {waits : List Wait}
    {tracked : List Tracked}
    (h : Sound L (before ++ g :: behind ++ (waits.map Wait.handler ++ away)) (tracked ++ owed) s)
    (f : Frame) :
    let (st, verdict) := Session.turn app f g (s, waits, tracked)
    Sound L (before ++ (Chain.left g verdict ++ behind) ++ (st.2.1.map Wait.handler ++ away))
      (st.2.2 ++ owed) st.1 := by
  have hfront : (before ++ g :: behind ++ (waits.map Wait.handler ++ away)).Perm
      (g :: (before ++ behind ++ (waits.map Wait.handler ++ away))) :=
    List.perm_middle.append_right _
  have hdone := (h.perm hfront (List.Perm.refl _)).offer happ hold f
  refine hdone.perm ?_ ?_
  · refine List.perm_iff_count.2 fun x => ?_
    simp only [List.map_append, List.count_append]
    omega
  · refine List.perm_iff_count.2 fun x => ?_
    simp only [List.count_append]
    omega

/-- What the handlers keep in their turns, a part of a walk keeps. -/
theorem dispatch_induct {Q : Session η → Prop} {chain : List Handler} {waits : List Wait}
    {tracked : List Tracked} {f : Frame}
    (h : Sound L (chain ++ (waits.map Wait.handler ++ away)) (tracked ++ owed) s) (hQ : Q s)
    (turn : ∀ g ∈ chain, ∀ away' owed' t, away ⊆ away' → owed ⊆ owed' →
      Sound L (g :: away') owed' t → Q t → Q (g.offer app f t).1) :
    Q (Chain.dispatch (Session.turn app f) chain (s, waits, tracked)).2.1.1 := by
  refine (Chain.dispatch_induct (Session.turn app f)
    (fun left st => Sound L (left ++ (st.2.1.map Wait.handler ++ away)) (st.2.2 ++ owed) st.1 ∧
      left ⊆ chain ∧ Q st.1) ?_ chain [] (s, waits, tracked)
    ⟨h, List.Subset.refl chain, hQ⟩).2.2
  rintro before g behind ⟨t, waits, tracked⟩ ⟨ht, hleft, hQt⟩
  have hfront : (before ++ g :: behind ++ (waits.map Wait.handler ++ away)).Perm
      (g :: (before ++ behind ++ (waits.map Wait.handler ++ away))) :=
    List.perm_middle.append_right _
  have hstays := Chain.turn_sublist before behind g (Session.turn app f g (t, waits, tracked)).2
  refine ⟨ht.turn happ hold f, List.Subset.trans hstays.subset hleft, ?_⟩
  refine turn g (hleft (List.mem_append_right _ List.mem_cons_self)) _ _ t ?_
    (List.subset_append_right tracked owed) (ht.perm hfront (List.Perm.refl _)) hQt
  exact fun x hx => List.mem_append_right _ (List.mem_append_right _ hx)

/-- What the handlers keep in their turns, a walk keeps. -/
theorem walk_induct {Q : Session η → Prop} {chain : List Handler} {f : Frame}
    (h : Sound L (chain ++ away) owed s) (hQ : Q s)
    (turn : ∀ g ∈ chain, ∀ away' owed' t, away ⊆ away' → owed ⊆ owed' →
      Sound L (g :: away') owed' t → Q t → Q (g.offer app f t).1) :
    Q (s.walk app f chain).2.1.1 := by
  have hstart : Sound L (chain ++ (([] : List Wait).map Wait.handler ++ away)) ([] ++ owed) s := h
  exact hstart.dispatch_induct happ hold hQ turn

/-- As a walk goes on, the handlers that are done make room for the waits they ask for. -/
theorem walk (chain : List Handler) (h : Sound L (chain ++ away) owed s) (f : Frame) :
    Sound L
      ((s.walk app f chain).1 ++ ((s.walk app f chain).2.1.2.1.map Wait.handler ++ away))
      ((s.walk app f chain).2.1.2.2 ++ owed) (s.walk app f chain).2.1.1 := by
  rw [Session.walk_eq]
  exact Chain.dispatch_induct (Session.turn app f)
    (fun chain st => Sound L (chain ++ (st.2.1.map Wait.handler ++ away)) (st.2.2 ++ owed) st.1)
    (fun _ _ _ _ ht => turn happ hold ht f) chain [] (s, [], []) h

omit happ hold in
theorem restore {chain : List Handler} (h : Sound L (chain ++ away) owed s) :
    Sound L away owed (s.restore chain) := by
  have hperm : (chain ++ away ++ s.chain).Perm (away ++ (chain ++ s.chain)) := by
    rw [← List.append_assoc]
    exact List.perm_append_comm.append_right _
  exact (Accounts.perm h hperm (List.Perm.refl _)).congr rfl rfl rfl rfl

omit happ hold in
/-- A wait comes to the chain, behind a new timer if it has a window. -/
theorem install {w : Wait} (h : Sound L (w.handler :: away) owed s) :
    Sound L away owed (s.install w) := by
  have hfront {g : Handler} : (g :: (away ++ s.chain)).Perm (away ++ (s.chain ++ [g])) := by
    rw [← List.append_assoc]
    exact (List.perm_append_singleton g _).symm
  unfold Session.install
  split
  · exact (Accounts.perm h hfront (List.Perm.refl _)).congr rfl rfl rfl rfl
  · rename_i window _
    have harmed := Accounts.arm h (s.now + window)
    exact (harmed.perm hfront (List.Perm.refl _)).congr rfl rfl rfl rfl

omit happ hold in
/-- A tracked operation comes to the list. -/
theorem track {t : Tracked} (h : Sound L away (t :: owed) s) :
    Sound L away owed (s.track t) := by
  have hperm : (t :: owed ++ s.tracked).Perm (owed ++ (s.tracked ++ [t])) := by
    rw [← List.append_assoc]
    exact (List.perm_append_singleton t _).symm
  have hsub : (owed ++ (s.tracked.filter (fun u => !s.isDone u) ++ [t])).Sublist
      (owed ++ (s.tracked ++ [t])) :=
    (List.Sublist.refl _).append (List.filter_sublist.append (List.Sublist.refl _))
  refine ((Accounts.perm h (List.Perm.refl _) hperm).sublist hsub ?_).congr rfl rfl rfl rfl
  intro u hu hgone
  simp only [List.mem_append, List.mem_filter, not_or] at hu hgone
  rcases hu with hu | hu | hu
  · exact absurd hu hgone.1
  · simpa [hu] using hgone.2.1
  · exact absurd hu hgone.2.2

omit happ hold in
theorem leave {chain : List Handler} {waits : List Wait} {tracked : List Tracked}
    (h : Sound L (chain ++ (waits.map Wait.handler ++ away)) (tracked ++ owed) s) :
    Sound L away owed (s.leave chain waits tracked) := by
  have hwaits : ∀ (ws : List Wait) (t : Session η),
      Sound L (ws.map Wait.handler ++ away) (tracked ++ owed) t →
      Sound L away (tracked ++ owed) (ws.foldl (fun t w => t.install w) t) := by
    intro ws
    induction ws with
    | nil => exact fun _ ht => ht
    | cons w ws ih => exact fun t ht => ih _ (install ht)
  have htracked : ∀ (ts : List Tracked) (t : Session η), Sound L away (ts ++ owed) t →
      Sound L away owed (ts.foldl (fun t x => t.track x) t) := by
    intro ts
    induction ts with
    | nil => exact fun _ ht => ht
    | cons x ts ih => exact fun t ht => ih _ (track ht)
  exact htracked _ _ (hwaits _ _ (Accounts.congr h.restore rfl rfl rfl rfl))

/-! ## Teardown -/

omit happ hold in
/-- A tracked operation is completed and its watcher detached, unless it is done. -/
theorem abortTracked {t : Tracked} (h : Sound L away (t :: owed) s) (e : Failure) :
    Sound L away owed (s.abortTracked e t) := by
  have hmem : t ∈ t :: owed ++ s.tracked := List.mem_cons_self
  have habort : Sound L away (t :: owed) (s.abortTracked e t) := by
    unfold Session.abortTracked
    cases hc : s.isConnected t.connection with
    | true =>
      obtain ⟨slot, hslot, heq⟩ := Session.isConnected_iff.1 hc
      have hop := h.watchers.watcher t hmem slot hslot heq
      rw [← heq]
      exact of_accounts (Accounts.fire h hslot hop _) (Session.complete_chain ..)
        (Session.complete_tracked ..)
    | false =>
      have hdecided : s.pending t.operation = false := by
        rw [Bool.eq_false_iff]
        intro hp
        rw [h.watchers.attached t hmem hp] at hc
        cases hc
      rwa [Session.disconnect_of_not_isConnected hc,
        Session.complete_of_not_pending _ _ _ hdecided]
  have hgone : (s.abortTracked e t).isConnected t.connection = false := by
    rw [← Session.isConnected_disconnect_self s t.connection]
    simp [Session.abortTracked, Session.isConnected]
  refine Accounts.sublist habort (List.sublist_cons_self t _) fun u hu hgone' => ?_
  rcases List.mem_cons.1 hu with rfl | hu
  · simp [Session.isDone, hgone]
  · exact absurd hu hgone'

omit happ hold in
/-- At the start of a teardown all handlers are away and all tracked operations owed. -/
theorem cleared (h : Sound L away owed s) :
    Sound L (s.chain ++ away) (s.tracked ++ owed)
      { s with chain := [], tracked := [], outbound := [] } := by
  have hcomm := Accounts.perm h List.perm_append_comm List.perm_append_comm
  simpa [Sound] using Accounts.congr
    (t := { s with chain := [], tracked := [], outbound := [] }) hcomm rfl rfl rfl rfl

omit hold in
theorem drain (chain : List Handler) (h : Sound L (chain ++ away) owed s) (e : Failure) :
    Sound L ((Chain.drain Handler.permanent (Handler.abort app e) chain s).1 ++ away) owed
      (Chain.drain Handler.permanent (Handler.abort app e) chain s).2 :=
  Chain.drain_induct (fun chain t => Sound L (chain ++ away) owed t)
    (fun _ _ _ _ _ ht =>
      abort happ (ht.perm (List.perm_middle.append_right _) (List.Perm.refl _)) e) chain [] s h

omit hold in
/-- What the handlers keep that are aborted, their teardown keeps. -/
theorem drain_induct {Q : Session η → Prop} {chain : List Handler} {e : Failure}
    (h : Sound L (chain ++ away) owed s) (hQ : Q s)
    (abort : ∀ g away' t, away ⊆ away' → Sound L (g :: away') owed t → Q t → Q (g.abort app e t)) :
    Q (Chain.drain Handler.permanent (Handler.abort app e) chain s).2 := by
  refine (Chain.drain_induct (fun chain t => Sound L (chain ++ away) owed t ∧ Q t) ?_ chain [] s
    ⟨h, hQ⟩).2
  intro before g behind t _ ⟨ht, hQt⟩
  have hfront := ht.perm (List.perm_middle.append_right _) (List.Perm.refl _)
  exact ⟨hfront.abort happ e, abort g _ t (List.subset_append_right _ away) hfront hQt⟩

omit happ hold in
/-- As tracked operations are aborted, they leave the list. -/
theorem abortedTracked {ts : List Tracked} (h : Sound L away (ts ++ owed) s) (e : Failure) :
    Sound L away owed (ts.foldl (Session.abortTracked e) s) := by
  induction ts generalizing s with
  | nil => exact h
  | cons t ts ih => exact ih (abortTracked h e)

omit hold in
/-- A teardown aborts the handlers that are in the chain, and the operations tracked. -/
theorem tearDown (h : Sound L away owed s) (e : Failure) :
    Sound L away owed (s.tearDown app e) :=
  ((h.cleared.drain happ s.chain e).abortedTracked e).restore

omit hold in
theorem shutdown (h : Sound L away owed s) (e : Failure) :
    Sound L away owed (s.shutdown app e) := by
  unfold Session.shutdown
  split
  · exact h.tearDown happ e
  · exact Accounts.congr h rfl rfl rfl rfl

omit hold in
theorem settleDeferred (h : Sound L away owed s) :
    Sound L away owed (s.settleDeferred app) := by
  unfold Session.settleDeferred
  split
  · exact shutdown happ (s := { s with deferred := none })
      (Accounts.congr h rfl rfl rfl rfl) _
  · exact h

theorem deliver (h : Sound L away owed s) (f : Frame) :
    Sound L away owed (s.deliver app f) :=
  (h.enter.walk happ hold s.chain f).leave.settleDeferred happ

end Callbacks

/-! ## Calls -/

/-- An operation is issued to a handler, which is away. -/
theorem issue {g : Handler} (h : Sound L away owed s) (hf : g.Formed L)
    (hop : g.operation? = some s.issue.1) (ht : g.timer? = none) :
    Sound L (g :: away) owed s.issue.2 :=
  Accounts.issue h hf hop ht

/-- A handler comes to the end of the chain. -/
theorem addHandler {g : Handler} (h : Sound L (g :: away) owed s) :
    Sound L away owed (s.addHandler g) := by
  have hperm : (g :: (away ++ s.chain)).Perm (away ++ (s.chain ++ [g])) := by
    rw [← List.append_assoc]
    exact (List.perm_append_singleton g _).symm
  exact (Accounts.perm h hperm (List.Perm.refl _)).congr rfl rfl rfl rfl

theorem exchange (h : Sound L away owed s) (x : Exchange) :
    Sound L away owed (s.exchange x).2 := by
  unfold Session.exchange
  split
  · exact h
  · let g := Handler.response x.responses (x.aftermath s.issue.1)
    have hg : g.Formed L ∧ g.operation? = some s.issue.1 := by
      simp only [g, Exchange.aftermath]
      split <;> exact ⟨trivial, rfl⟩
    exact Accounts.congr (h.issue hg.1 hg.2 rfl).addHandler rfl rfl rfl rfl

theorem ask (h : Sound L away owed s) (hL : L.handlers) (x : Exchange)
    (callback : CallbackId) : Sound L away owed (s.ask x callback).2 := by
  unfold Session.ask
  split
  · exact h
  · have hadded : Sound L (.response x.responses (.application callback) :: away) owed s :=
      Accounts.add h hL rfl rfl
    exact Accounts.congr hadded.addHandler rfl rfl rfl rfl

/-- The operation of a reset goes to its watcher at once, as from a handler. -/
theorem reset (h : Sound L away owed s) (soft : Bool) :
    Sound L away owed (s.reset soft).2 := by
  have hissued := h.issue (g := .response [] (.settle s.issue.1)) trivial rfl rfl
  have hwatched : Sound L away (⟨s.freshConnection, s.issue.1⟩ :: owed)
      (s.issue.2.subscribe .reset (.watcher .nextReset s.issue.1)).2 :=
    Accounts.subscribe_watcher hissued rfl rfl _ _
  exact Accounts.congr hwatched.track rfl rfl rfl rfl

theorem call (h : Sound L away owed s) (c : Call) (hp : L.Permits (.call c)) :
    Sound L away owed (s.call c).2 := by
  cases c with
  | request r =>
    simp only [Session.call, Session.request]
    split
    · exact h
    · exact h.exchange _
  | reset soft => exact h.reset soft
  | reachState ends allowed =>
    have hissued := h.issue (g := .response [(ConfigurationRequest.infoItem .deviceState).command]
      (.follow ends allowed s.issue.1)) trivial rfl rfl
    exact Accounts.congr hissued.addHandler rfl rfl rfl rfl
  | waitFor p window =>
    exact (h.issue (g := (Wait.mk p window s.issue.1).handler) (Or.inr hp.2) rfl rfl).install

end Sound

/-! ## Every run -/

/-- Each deed upholds the invariant, as long as the callbacks in it do. -/
theorem Session.upholds_perform {app : Application η} (happ : app.Keeps L (Upholds L))
    (hold : app.Keeps L fun s _ t => Connects s t) {d : Deed η} (hd : L.Permits d)
    {s : Session η} (hown : d.Own s) : Upholds L s [] (d.perform app s) := by
  intro away owed h
  cases d with
  | call c => exact h.call c hd
  | ask x callback => exact h.ask hd.2 x callback
  | deliver f => exact h.deliver happ hold f
  | expire =>
    have hchain : s.expireTimers.chain = s.chain := by rw [expireTimers_eq]
    have htracked : s.expireTimers.tracked = s.tracked := by rw [expireTimers_eq]
    exact Sound.of_accounts (Accounts.expire h) hchain htracked
  | shutdown e => exact h.shutdown happ e
  | next =>
    simp only [Deed.perform, nextOutbound]
    split
    · exact h
    · exact Accounts.congr h rfl rfl rfl rfl
  | subscribe event callback => exact Accounts.subscribe_application h event callback
  | disconnect connection =>
    refine Accounts.disconnect_application h fun slot hslot hc => ?_
    obtain ⟨callback, hsub⟩ := hown slot hslot hc
    rw [hsub]
    rfl
  | emit i => exact h.emit happ hold i
  | addHandler callback permanent =>
    have hadded : Sound L (.custom callback permanent :: away) owed s :=
      Accounts.add h hd.2 rfl rfl
    exact hadded.addHandler
  | advance | send | takeAll | think => exact Accounts.congr h rfl rfl rfl rfl

theorem Session.upholds_kept (L : Licence η) : L.Kept (Upholds L) where
  refl _ := fun _ _ h => h
  deed hst hlaw happ hd hown := fun away owed h =>
    Accounts.congr (upholds_perform happ hlaw.connects hd hown _ owed (hst away owed h))
      rfl rfl rfl rfl
  wait {s t ws} p window hst hp := fun away owed h => by
    have hissued := (hst away owed h).issue (g := (Wait.mk p window t.issue.1).handler)
      (Or.inr hp) rfl rfl
    refine hissued.perm ?_ (List.Perm.refl _)
    rw [List.map_append, List.append_assoc]
    exact List.perm_middle.symm

theorem Lawful.upholds {app : Application η} (happ : Lawful L app) :
    app.Keeps L (Session.Upholds L) :=
  happ.keeps (Session.upholds_kept L)

/-- When a frame has passed those in front, the handler whose turn it is and those behind
are still to be walked. -/
theorem Sound.reached {away : List Handler} {owed : List Tracked} {s u : Session η}
    (hs : Sound L away owed s) {app : Application η} (happ : Lawful L app) {f : Frame}
    {before behind left : List Handler} {h : Handler} {waits : List Wait}
    {tracked : List Tracked} {stopped : Bool} (hchain : s.chain = before ++ h :: behind)
    (hpassed : Chain.dispatch (Session.turn app f) before (s.enter, [], []) =
      (left, (u, waits, tracked), stopped)) :
    Sound L (h :: behind ++ (waits.map Wait.handler ++ (left ++ away))) (tracked ++ owed) u := by
  have hentered := hs.enter
  rw [hchain, List.append_assoc] at hentered
  have hwalked := hentered.walk happ.upholds happ.connects before f
  rw [Session.walk_eq, hpassed] at hwalked
  refine hwalked.perm (List.perm_iff_count.2 fun x => ?_) (List.Perm.refl _)
  simp only [List.count_append]
  omega

/-- What a dispatch leaves is sound, before a teardown that was deferred to its end. -/
theorem Sound.dispatched {away : List Handler} {owed : List Tracked} {s : Session η}
    (hs : Sound L away owed s) {app : Application η} (happ : Lawful L app) (f : Frame) :
    Sound L away owed (s.dispatched app f) :=
  (hs.enter.walk happ.upholds happ.connects s.chain f).leave

/-- A new session is sound : it has no operations. -/
theorem Sound.start (L : Licence η) (config : SessionConfig) (host : η) :
    Sound L [] [] (Session.start config host) where
  formed h hh := by
    obtain ⟨event, -, rfl⟩ := List.mem_map.1 hh
    exact ⟨rfl, rfl, rfl⟩
  loyal h hh := by
    obtain ⟨event, -, rfl⟩ := List.mem_map.1 hh
    rintro _ ⟨⟩
  carried op := by
    have hnone : (Session.start config host).carriedBy (Session.start config host).chain = [] :=
      rfl
    rw [List.nil_append, hnone]
    simp [Session.start, Session.pending, Ledger.pending]
  timers := by
    have hnone : (Session.start config host).chain.filterMap Handler.timer? = [] := rfl
    refine ⟨?_, ?_, List.nodup_nil, ?_, ?_⟩
    · rintro _ ⟨⟩
    · simp [hnone]
    · simp [hnone]
    · rintro _ ⟨⟩
  watchers := by
    have hnone : (Session.start config host).slots = [] := rfl
    constructor <;> simp [hnone] <;> simp [Session.start]

/-- Every session that an application reaches is sound. -/
theorem Reachable.sound {s : Session η} (hs : Reachable L s) : Sound L [] [] s := by
  obtain ⟨config, host, h⟩ := hs
  exact h.keeps (Session.upholds_kept L) [] [] (Sound.start L config host)

end ZigbeeHost
