import ZigbeeHost.Proofs.Session.Guarded
/-!
# What happens between callbacks

Between the callbacks of the application a session `Drifts` : operations are issued and decided,
handlers come and go, watchers are attached, but the application's state stays, and nobody is
detached. The exception is a watcher that an indication decides.

A `Steadfast` relation between sessions holds across all of this. If the callbacks of an
application keep it (`Application.Heeds`), then so do walks and the tearing down of the chain. It
may leave out indications that are not to be emitted, and it may rely on an invariant `K` of the
sessions in which callbacks are called.
-/

namespace ZigbeeHost

variable {η : Type} {L : Licence η}

namespace Session

/-- From `s` to `t` nobody is called back and nobody is detached. Whoever is attached is a
watcher. -/
structure Drifts (s t : Session η) : Prop where
  host : t.host = s.host
  running : t.running = s.running
  fresh : s.freshConnection ≤ t.freshConnection
  size : s.operations.size ≤ t.operations.size
  slots : ∃ watchers, t.slots = s.slots ++ watchers ∧
    ∀ slot ∈ watchers, slot.subscriber.operation? ≠ none
  outlives : s.Outlives t

namespace Drifts

variable {s t u : Session η}

/-- What the application sees stays. -/
theorem of_eq (hhost : t.host = s.host) (hrunning : t.running = s.running)
    (hfresh : t.freshConnection = s.freshConnection) (hslots : t.slots = s.slots)
    (hops : t.operations = s.operations) : Drifts s t where
  host := hhost
  running := hrunning
  fresh := Nat.le_of_eq hfresh.symm
  size := hops ▸ Nat.le_refl _
  slots := ⟨[], by rw [hslots, List.append_nil], nofun⟩
  outlives := narrow_outlives.other hops hslots hfresh

theorem refl (s : Session η) : Drifts s s := of_eq rfl rfl rfl rfl rfl

theorem trans (h : Drifts s t) (h' : Drifts t u) : Drifts s u := by
  obtain ⟨watchers, hslots, hwatch⟩ := h.slots
  obtain ⟨watchers', hslots', hwatch'⟩ := h'.slots
  refine ⟨h'.host.trans h.host, h'.running.trans h.running, Nat.le_trans h.fresh h'.fresh,
    Nat.le_trans h.size h'.size,
    ⟨watchers ++ watchers', by rw [hslots', hslots, List.append_assoc], fun slot hslot => ?_⟩,
    narrow_outlives.trans h.outlives h'.outlives⟩
  exact (List.mem_append.1 hslot).elim (hwatch slot) (hwatch' slot)

/-- Whoever was attached still is. -/
theorem slots_subset (h : Drifts s t) : s.slots ⊆ t.slots := by
  obtain ⟨watchers, hslots, -⟩ := h.slots
  rw [hslots]
  exact List.subset_append_left ..

theorem complete (s : Session η) (op : OperationId) (outcome : Except Failure Outcome) :
    Drifts s (s.complete op outcome) where
  host := complete_host ..
  running := by rw [complete_eq]
  fresh := Nat.le_of_eq (complete_freshConnection ..).symm
  size := Nat.le_of_eq (size_operations_complete ..).symm
  slots := ⟨[], by rw [complete_slots, List.append_nil], nofun⟩
  outlives := outlives_complete s op outcome

theorem issue (s : Session η) : Drifts s s.issue.2 where
  host := rfl
  running := rfl
  fresh := Nat.le_refl _
  size := by simp [Session.issue]
  slots := ⟨[], (List.append_nil _).symm, nofun⟩
  outlives := outlives_issue s

/-- A watcher is attached. -/
theorem watch (s : Session η) (event : Event) (watch : Watch) (op : OperationId) :
    Drifts s (s.subscribe event (.watcher watch op)).2 where
  host := rfl
  running := rfl
  fresh := (freshConnection_subscribe ..).symm ▸ Nat.le_succ _
  size := Nat.le_refl _
  slots := by
    refine ⟨[⟨s.freshConnection, event, .watcher watch op⟩], slots_subscribe ..,
      fun slot hslot => ?_⟩
    rw [List.mem_singleton.1 hslot]
    exact nofun
  outlives := narrow_outlives.subscribe s event _

theorem retain (s : Session η) (event : Event) : Drifts s (s.retain event) :=
  of_eq rfl rfl rfl (slots_retain event s) rfl

/-- To install a wait calls nobody. -/
theorem install (s : Session η) (w : Wait) : Drifts s (s.install w) :=
  of_eq (install_host ..) (by rw [install_eq]) (install_freshConnection ..) (install_slots ..)
    (install_operations ..)

/-- And so it is at the end of a dispatch. -/
theorem leave (chain : List Handler) (waits : List Wait) (tracked : List Tracked)
    (s : Session η) : Drifts s (s.leave chain waits tracked) := by
  rw [leave_eq]
  exact of_eq rfl rfl rfl rfl rfl

theorem drop (r : Reply) (s : Session η) : Drifts s (r.drop s) :=
  List.foldlRecOn r.waits _ (motive := fun t => Drifts s t) (refl s)
    fun _ ht w _ => ht.trans (complete _ w.operation _)

/-- A call that starts an operation attaches a watcher at most. -/
theorem call (c : Call) (s : Session η) : Drifts s (s.call c).2 := by
  have hsent {t : Session η} (f : Frame) (g : Handler) : Drifts t ((t.addHandler g).send f) :=
    of_eq rfl rfl rfl rfl rfl
  cases c with
  | request r =>
    simp only [Session.call, request]
    split
    · exact refl s
    · unfold exchange
      split
      · exact refl s
      · exact (issue s).trans (hsent _ _)
  | reset soft =>
    have hwatched := (issue s).trans (watch s.issue.2 .reset .nextReset s.issue.1)
    exact hwatched.trans (of_eq rfl rfl rfl rfl rfl)
  | reachState ends allowed => exact (issue s).trans (hsent _ _)
  | waitFor p window => exact (issue s).trans (install _ _)

/-- An expiry calls nobody. -/
theorem expireTimers (s : Session η) : Drifts s s.expireTimers := by
  have hfired : Drifts s { s with timers := (s.timers.expire s.now).2 } :=
    of_eq rfl rfl rfl rfl rfl
  exact List.foldlRecOn (s.timers.expire s.now).1 _ (motive := fun t => Drifts s t) hfired
    fun _ ht op _ => ht.trans (complete _ op _)

/-- Whoever takes an answer, unless it is the application. -/
theorem resume {a : Aftermath} (ha : ∀ callback, a ≠ .application callback)
    (app : Application η) (answer : Except Failure Bytes) (s : Session η) :
    Drifts s (a.resume app answer s).1 := by
  rcases a.resume_cases app answer s with ⟨callback, heq⟩ |
    ⟨op, -, ⟨outcome, -, heq⟩ | ⟨c, -, heq⟩ | ⟨ends, allowed, -, heq⟩⟩
  · exact absurd heq (ha callback)
  · rw [heq]
    exact complete s op outcome
  · rw [heq]
    exact refl s
  · rw [heq]
    exact watch ..

/-- Whoever carries on with what it got has an operation of its own. -/
theorem carryOn {h : Handler} {op : OperationId} (hf : h.Formed L) (hop : h.operation? = some op)
    (app : Application η) (answer : Except Failure Bytes) (s : Session η) :
    Drifts s (h.carryOn app answer s).1 := by
  cases h with
  | indication | custom => cases hop
  | response commands a =>
    refine resume ?_ app answer s
    rintro callback rfl
    cases hop
  | wait p op => exact complete s op _
  | timed id inner =>
    cases inner with
    | wait p op => exact (complete s op _).trans (.of_eq rfl rfl rfl rfl rfl)
    | _ => exact hf.elim

/-- A deed that calls nobody back, and does not concern the application's own subscribers or
state. -/
theorem perform {d : Deed η} (hquiet : d.quiet = true)
    (hsubscribe : ∀ event callback, d ≠ .subscribe event callback)
    (hdisconnect : ∀ connection, d ≠ .disconnect connection)
    (hthink : ∀ change, d ≠ .think change) (app : Application η) (s : Session η) :
    Drifts s (d.perform app s) := by
  cases d with
  | call c => exact call c s
  | ask x callback =>
    simp only [Deed.perform, ask]
    split
    · exact refl s
    · exact of_eq rfl rfl rfl rfl rfl
  | expire => exact expireTimers s
  | next =>
    simp only [Deed.perform, nextOutbound]
    split
    · exact refl s
    · exact of_eq rfl rfl rfl rfl rfl
  | subscribe event callback => exact absurd rfl (hsubscribe event callback)
  | disconnect connection => exact absurd rfl (hdisconnect connection)
  | think change => exact absurd rfl (hthink change)
  | deliver | shutdown | emit => cases hquiet
  | advance | send | takeAll | addHandler => exact of_eq rfl rfl rfl rfl rfl

end Drifts

/-- In its turn a subscriber is passed over, or it decides its operation, or it is called. It is
called if it is attached and is not being called already. -/
theorem notify_turn (app : Application η) (i : Indication) (s : Session η) (slot : Slot) :
    s.notify app i slot = s ∧ (s.isConnected slot.connection = false ∨
        slot.connection ∈ s.running ∨ slot.subscriber.operation? ≠ none) ∨
    (∃ watch op outcome, s.isConnected slot.connection = true ∧
      slot.subscriber = .watcher watch op ∧ watch.verdict? i = some outcome ∧
      s.notify app i slot = (s.disconnect slot.connection).complete op outcome) ∨
    ∃ callback, s.isConnected slot.connection = true ∧ slot.connection ∉ s.running ∧
      slot.subscriber = .application callback ∧
      s.notify app i slot =
        { app.hear callback slot.connection i
            { s with running := slot.connection :: s.running } with running := s.running } := by
  unfold notify
  split
  · rename_i hconnected
    split
    · rename_i watch op hsub
      split
      · rename_i outcome hverdict
        exact Or.inr (Or.inl ⟨watch, op, outcome, hconnected, hsub, hverdict, rfl⟩)
      · exact Or.inl ⟨rfl, Or.inr (Or.inr (by rw [hsub]; exact nofun))⟩
    · rename_i callback hsub
      split
      · rename_i hrunning
        exact Or.inl ⟨rfl, Or.inr (Or.inl hrunning)⟩
      · rename_i hrunning
        exact Or.inr (Or.inr ⟨callback, hconnected, hrunning, hsub, rfl⟩)
  · rename_i hconnected
    exact Or.inl ⟨rfl, Or.inl (Bool.eq_false_iff.2 hconnected)⟩

end Session

/-! ## Steadfast relations -/

/-- A relation that holds across all that happens between callbacks, and composes. -/
structure Steadfast (L : Licence η) (R : Session η → Session η → Prop) : Prop where
  trans : ∀ {s t u}, R s t → R t u → R s u
  drift : ∀ {away owed s t}, Sound L away owed t → s.Drifts t → R s t

/-- The callbacks of `app` are in the relation, if they are called in sound sessions in which `K`
holds, and so are emissions of the indications in `E`. -/
structure Application.Heeds (L : Licence η) (E : Indication → Prop) (K : Session η → Prop)
    (R : Session η → Session η → Prop) (app : Application η) : Prop where
  lawful : Lawful L app
  /-- The invariant is kept. -/
  keeps : app.Keeps L fun s _ t => K s → K t
  emit : ∀ {away owed s i}, Sound L away owed s → K s → E i → R s (s.emit app i)
  offer : ∀ {away owed s} callback f, Sound L away owed s → K s → R s (app.offer callback f s).1
  answered : ∀ {away owed s} callback answer, Sound L away owed s → K s →
    R s (app.answered callback answer s).1
  abort : ∀ {away owed s} callback e, Sound L away owed s → K s → R s (app.abort callback e s)

/-- What holds of all sessions is an invariant. -/
theorem stable_true : Stable fun _ _ : Session η => True → True := by
  constructor <;> intros <;> trivial

namespace Steadfast

variable {E : Indication → Prop} {R : Session η → Session η → Prop} {K : Session η → Prop}
  {app : Application η} {away : List Handler} {owed : List Tracked} {s : Session η}
  {f : Frame} (hR : Steadfast L R)
include hR

/-- An emission keeps a relation if the subscribers do in their turns, watchers that hear what
they watch for among them. -/
theorem emit (hlaw : Lawful L app) (hstable : Stable fun s t : Session η => K s → K t)
    (hkeeps : app.Keeps L fun s _ t => K s → K t) {i : Indication}
    (fire : ∀ {t : Session η} {slot watch op outcome}, Sound L away owed t → slot ∈ s.slots →
      slot ∈ t.slots → slot.event = i.event → slot.subscriber = .watcher watch op →
      watch.verdict? i = some outcome → R t ((t.disconnect slot.connection).complete op outcome))
    (hear : ∀ {t : Session η} {slot callback}, Sound L away owed t → K t → slot ∈ t.slots →
      slot.event = i.event → slot.subscriber = .application callback →
      R t { app.hear callback slot.connection i
        { t with running := slot.connection :: t.running } with running := t.running })
    (hs : Sound L away owed s) (hK : K s) : R s (s.emit app i) := by
  refine (hs.emit_induct hlaw.upholds hlaw.connects
    (Q := fun t => K t ∧ R s t) ⟨hK, hR.drift hs (.refl s)⟩ ?_ ?_).2
  · intro t slot hslot hst ht ⟨hKt, hRt⟩
    obtain ⟨hmem, hevent⟩ := Session.mem_audience.1 hslot
    refine ⟨hstable.notify hkeeps i t slot hKt, hR.trans hRt ?_⟩
    rcases Session.notify_turn app i t slot with
      ⟨heq, -⟩ | ⟨watch, op, outcome, hconnected, hsub, hverdict, heq⟩ |
        ⟨callback, hconnected, -, hsub, heq⟩ <;> rw [heq]
    · exact hR.drift ht (.refl t)
    · exact fire ht hmem (hst.stays hmem hconnected) hevent hsub hverdict
    · exact hear ht hKt (hst.stays hmem hconnected) hevent hsub
  · intro t ht ⟨hKt, hRt⟩
    exact ⟨hstable.retain t i.event hKt,
      hR.trans hRt (hR.drift (ht.retain i.event) (.retain t i.event))⟩

variable (happ : app.Heeds L E K R)
include happ

/-- What becomes of an answer is related to what was. -/
theorem resume {accepted : List Command} {a : Aftermath}
    (hs : Sound L (.response accepted a :: away) owed s) (hK : K s)
    (answer : Except Failure Bytes) : R s (a.resume app answer s).1 := by
  have hresumed := hs.resume happ.lawful.upholds answer
  cases a with
  | application callback => exact happ.answered callback answer hs hK
  | _ => exact hR.drift hresumed (.resume (fun _ h => by cases h) app answer s)

/-- A handler that emits nothing but indications in `E`. -/
theorem offer {g : Handler} (hs : Sound L (g :: away) owed s) (hK : K s)
    (hi : ∀ i, g.emission? f = some i → E i) : R s (g.offer app f s).1 := by
  have hoffered := hs.offer happ.lawful.upholds happ.lawful.connects f
  rcases Handler.offer_cases (hs.formed g List.mem_cons_self) f app s with
    heq | ⟨i, hemits, heq⟩ | ⟨accepted, a, answer, rfl, heq⟩ | ⟨p, op, rest, rfl, heq⟩ |
      ⟨id, p, op, rest, rfl, heq⟩ | ⟨callback, permanent, rfl, heq⟩ <;> rw [heq] at hoffered ⊢
  · exact hR.drift hs (.refl s)
  · exact happ.emit hs hK (hi i hemits)
  · exact hR.resume happ hs hK answer
  · exact hR.drift hoffered (.complete s op _)
  · exact hR.drift hoffered ((Session.Drifts.complete s op _).trans (.of_eq rfl rfl rfl rfl rfl))
  · exact happ.offer callback f hs hK

/-- What becomes of a handler that is aborted is related to what was. -/
theorem abort {g : Handler} (hs : Sound L (g :: away) owed s) (hK : K s) (e : Failure) :
    R s (g.abort app e s) := by
  have haborted := hs.abort happ.lawful.upholds e
  cases g with
  | indication kind command event lenient => exact hR.drift hs (.refl s)
  | response accepted a =>
    exact hR.trans (hR.resume happ hs hK (.error e)) (hR.drift haborted (.drop _ _))
  | wait p op => exact hR.drift haborted (.complete s op _)
  | timed id inner =>
    obtain ⟨p, op, rfl⟩ := hs.inner_eq
    refine hR.drift haborted ?_
    simp only [Handler.abort]
    split
    · have hdisarmed : s.Drifts (s.disarm id) := .of_eq rfl rfl rfl rfl rfl
      exact hdisarmed.trans (.complete _ op _)
    · exact .refl s
  | custom callback permanent => exact happ.abort callback e hs hK

variable (hstable : Stable fun s t : Session η => K s → K t)
include hstable

/-- A walk whose handlers emit nothing but indications in `E`. -/
theorem walk (chain : List Handler) (hs : Sound L (chain ++ away) owed s) (hK : K s)
    (hi : ∀ h ∈ chain, ∀ i, h.emission? f = some i → E i) : R s (s.walk app f chain).2.1.1 := by
  refine (hs.walk_induct happ.lawful.upholds happ.lawful.connects
    (Q := fun t => K t ∧ R s t) ⟨hK, hR.drift hs (.refl s)⟩ ?_).2
  intro g hg away' owed' t _ _ ht ⟨hKt, hRt⟩
  refine ⟨?_, hR.trans hRt (hR.offer happ ht hKt (hi g hg))⟩
  exact hstable.steady.offer (fun _ _ => trivial) happ.keeps f g t hKt

/-- A dispatch whose handlers emit nothing but indications in `E`. -/
theorem dispatched (hs : Sound L away owed s) (hK : K s.enter)
    (hi : ∀ h ∈ s.chain, ∀ i, h.emission? f = some i → E i) : R s (s.dispatched app f) := by
  have hentered : s.Drifts s.enter := .of_eq rfl rfl rfl rfl rfl
  have hwalked := hR.walk happ hstable s.chain hs.enter hK hi
  have hleft := hR.drift (hs.dispatched happ.lawful f) (.leave ..)
  exact hR.trans (hR.drift hs.enter hentered) (hR.trans hwalked hleft)

/-- As handlers are aborted. -/
theorem drain (chain : List Handler) (hs : Sound L (chain ++ away) owed s) (hK : K s)
    (e : Failure) : R s (Chain.drain Handler.permanent (Handler.abort app e) chain s).2 := by
  refine (hs.drain_induct happ.lawful.upholds (Q := fun t => K t ∧ R s t)
    ⟨hK, hR.drift hs (.refl s)⟩ ?_).2
  intro g away' t _ ht ⟨hKt, hRt⟩
  exact ⟨hstable.abort happ.keeps e g t hKt, hR.trans hRt (hR.abort happ ht hKt e)⟩

end Steadfast

end ZigbeeHost
