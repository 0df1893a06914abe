import ZigbeeHost.Proofs.Session.Chronicle
import ZigbeeHost.Proofs.Session.Completion
import ZigbeeHost.Proofs.Session.Correlation
import ZigbeeHost.Proofs.Session.Teardown
/-!
# Deferred teardowns

A teardown that is asked for in a dispatch, by whomever and however deep, waits for the end
of the outermost one. Until then every frame is dispatched as if nobody had asked, so the
handler that accepts it still completes its operation (`Sound.completes`). At the end there
is one teardown, with the first failure that was given; it finds all that the dispatch left
under way, and leaves a session that has no trace of it (`Session.TakesEffect`).

An application that uses the session while it is torn down finds its traces there
afterwards. `Application.reviving` does so : it pings the co-processor when a handler of its
own is aborted, and the ping is in the queue when the dispatch returns.
-/

namespace ZigbeeHost

variable {η θ : Type} {L : Licence η}

/-! ## Frames in a dispatch -/

/-- Whoever accepts a frame for its operation carries it. -/
theorem Handler.Accepts.carried?_of_settles {timers : Timers OperationId} {f : Frame}
    {h : Handler} {op : OperationId} (hf : h.Formed L) (hyes : h.Accepts timers f)
    (hop : h.settles? = some op) : h.carried? timers = some op := by
  cases h with
  | indication | custom => cases hop
  | response commands a =>
    cases a with
    | settle => exact hop
    | _ => cases hop
  | wait p => exact hop
  | timed id inner =>
    cases inner with
    | wait p => exact (if_pos hyes.1).trans hop
    | _ => exact hf.elim

/-- A handler that a frame reaches, and that accepts it, completes its operation with what
it gets, whatever those in front of it did. -/
theorem Sound.completes {away : List Handler} {owed : List Tracked} {s u : Session η}
    (hs : Sound L away owed s) {app : Application η} (happ : Lawful L app) {f : Frame}
    {before behind left : List Handler} {h : Handler} {waits : List Wait}
    {tracked : List Tracked} (hchain : s.chain = before ++ h :: behind)
    (hpassed : Chain.dispatch (Session.turn app f) before (s.enter, [], []) =
      (left, (u, waits, tracked), false))
    (hyes : h.Accepts u.timers f) {op : OperationId} (hop : h.settles? = some op) :
    ∃ answer, h.Gets f answer ∧
      (s.dispatched app f).outcome? op = some (answer.map .payload) := by
  obtain ⟨-, answer, hgets, hwalk⟩ := Session.walk_of_accepts hchain hpassed hyes
  have hreached := hs.reached happ hchain hpassed
  have hf := hreached.formed h List.mem_cons_self
  have hpending := Accounts.pending_of_handler hreached List.mem_cons_self
    (hyes.carried?_of_settles hf hop)
  refine ⟨answer, hgets, ?_⟩
  simp only [Session.dispatched, hwalk]
  exact Session.narrow_outlives.leave _ _ _ _ op _
    (Handler.outcome?_carryOn hf hop app answer hpending)

/-! ## The end of a dispatch -/

namespace Session

/-- One teardown with the failure `e`, at the end `u` of a dispatch, leaves `t`. -/
structure TakesEffect (app : Application η) (e : Failure) (u t : Session η) : Prop where
  torn : t = { u with deferred := none }.tearDown app e
  depth : t.depth = 0
  deferred : t.deferred = none
  /-- Outcomes stay, and all that was under way is decided. -/
  outlives : u.Outlives t
  decided : ∀ op, u.pending op = true → (t.outcome? op).isSome = true
  /-- If the application resigns, all that was under way failed with `e`. The permanent
  handlers and the subscribers of the application are there as in a session that was never
  torn down : no timer is armed, nothing is tracked, and nothing is left to be sent. -/
  resigned : app.Resigns e → t = { Session.start u.config t.host with
      now := u.now
      chain := u.chain.filter Handler.permanent
      timers := { fresh := u.timers.fresh }
      operations := u.operations.map fun o => some (o.getD (.error e))
      subscribers := u.subscribers.lowerEach (u.tracked.map Tracked.connection)
      running := u.running } ∧
    t.slots = u.slots.filter (fun slot => slot.connection ∉ u.tracked.map Tracked.connection) ∧
    t.freshConnection = u.freshConnection

variable {u : Session η} {app : Application η} {e : Failure}

/-- What a late teardown leaves is a new session, but for clock, identities and subscribers. -/
theorem TornDown.eq {s t : Session η} (h : TornDown e s t) (hsound : Sound L [] [] t)
    (hdepth : s.depth = 0) (hdeferred : s.deferred = none) :
    t = { Session.start s.config t.host with
      now := s.now
      chain := s.chain.filter Handler.permanent
      timers := { fresh := s.timers.fresh }
      operations := s.operations.map fun o => some (o.getD (.error e))
      subscribers := s.subscribers.lowerEach (s.tracked.map Tracked.connection)
      running := s.running } := by
  have hidle := h.idle
  have harmed := hsound.armed_eq_nil hidle.chain
  have hops : t.operations = s.operations.map fun o => some (o.getD (.error e)) := by
    refine Array.ext_getElem? fun op => ?_
    have hpending := hsound.not_pending hidle.chain hidle.tracked op
    rw [Bool.eq_false_iff, Ne, pending_iff] at hpending
    rw [Array.getElem?_map]
    rcases h.ledger op with hsame | ⟨hs, ht⟩
    · rw [hsame] at hpending ⊢
      rcases hop : s.operations[op]? with _ | _ | outcome
      · rfl
      · exact absurd hop hpending
      · rfl
    · rw [hs, ht]
      rfl
  rw [h.other, h.chain, h.subscribers, h.tracked, h.outbound, hops, harmed, hdeferred, hdepth]
  rfl

/-- A teardown that was deferred takes effect at the end of the outermost dispatch. -/
theorem takesEffect (hsound : Sound L [] [] u) (happ : Lawful L app) (hdepth : u.depth = 0)
    (hdeferred : u.deferred = some e) : TakesEffect app e u (u.settleDeferred app) := by
  have hsettled : u.settleDeferred app = { u with deferred := none }.shutdown app e := by
    simp only [settleDeferred, hdepth, hdeferred]
  have hshutdown : { u with deferred := none }.shutdown app e =
      { u with deferred := none }.tearDown app e := if_pos hdepth
  have hcleared : Sound L [] [] { u with deferred := none } :=
    Accounts.congr hsound rfl rfl rfl rfl
  have hcalm := calm_shutdown happ.calm e { u with deferred := none }
  rw [hsettled]
  exact {
    torn := hshutdown
    depth := hcalm.1.trans hdepth
    deferred := hcalm.2 hdepth rfl
    outlives := narrow_outlives.shutdown happ.outlives e { u with deferred := none }
    decided := fun op hp => hcleared.shutdown_decides hdepth happ e hp
    resigned := fun hresigns => by
      have htorn := tornDown_of_resigns (s := { u with deferred := none }) hcleared.formed
        (fun _ => hresigns) hdepth
      rw [hshutdown]
      refine ⟨htorn.eq (hcleared.tearDown happ.upholds e) hdepth rfl, htorn.slots, ?_⟩
      rw [Session.freshConnection, htorn.subscribers]
      exact Roster.fresh_lowerEach .. }

end Session

/-! ## Reachable sessions -/

/-- In a dispatch no run tears anything down, however many teardowns it asks for. A frame
still completes the operation of the handler that accepts it. When the outermost dispatch is
done, one teardown takes effect, with the first failure that was given in it. -/
theorem Reachable.deferred_teardown {s : Session (θ × List Moment)}
    (hs : Reachable (.chronicled θ) s) {app : Application (θ × List Moment)}
    (happ : Lawful (.chronicled θ) app) (f : Frame) :
    (∀ v ws w, Uses (.chronicled θ) v ws w → v.depth ≠ 0 →
      w.depth = v.depth ∧ v.Upholds (.chronicled θ) ws w ∧ (∃ new, Session.Defers new v w) ∧
      ∀ app' e, w.shutdown app' e = { w with deferred := w.deferred <|> some e }) ∧
    (∀ away owed v before h behind left u waits tracked op, Sound (.chronicled θ) away owed v →
      v.chain = before ++ h :: behind →
      Chain.dispatch (Session.turn app f) before (v.enter, [], []) =
        (left, (u, waits, tracked), false) →
      h.Accepts u.timers f → h.settles? = some op →
      ∃ answer, h.Gets f answer ∧
        (v.dispatched app f).outcome? op = some (answer.map .payload)) ∧
    ∃ new, Session.Defers new s (s.dispatched app f) ∧ (s.dispatched app f).depth = 0 ∧
      match new.findSome? Moment.failure? with
      | none => s.deliver app f = s.dispatched app f
      | some e => Session.TakesEffect app e (s.dispatched app f) (s.deliver app f) := by
  refine ⟨fun v ws w h hdepth => ?_, ?_, ?_⟩
  · obtain ⟨hsame, hdefers⟩ := h.suspends hdepth
    exact ⟨hsame, h.keeps (Session.upholds_kept _), hdefers,
      fun app' e => if_neg (hsame ▸ hdepth)⟩
  · intro away owed v before h behind left u waits tracked op hsound hchain hpassed hyes hop
    exact hsound.completes happ hchain hpassed hyes hop
  · obtain ⟨hdepth, hdeferred⟩ := hs.calm
    obtain ⟨hsame, new, hnew⟩ := Session.dispatched_defers happ.suspends f s
    have hfirst : (s.dispatched app f).deferred = new.findSome? Moment.failure? := by
      rw [hnew.deferred, hdeferred, Option.none_or]
    refine ⟨new, hnew, hsame.trans hdepth, ?_⟩
    rw [Session.deliver_eq]
    cases he : new.findSome? Moment.failure? with
    | none => exact Session.settleDeferred_of_none (hfirst.trans he) app
    | some e =>
      exact Session.takesEffect (hs.sound.dispatched happ f) happ (hsame.trans hdepth)
        (hfirst.trans he)

/-- An application whose subscribers ping the co-processor and then tear the session down,
twice. -/
def Application.closing : Application (Unit × List Moment) :=
  .acting (.chronicled Unit) .silent fun _ =>
    [.call (.request (.system .ping)), .shutdown .timeout, .shutdown .dropped]

/-- A subscriber that shuts down keeps to the licence. -/
theorem Lawful.closing : Lawful (.chronicled Unit) .closing := by
  refine .acting (.silent fun _ => trivial) (fun _ d hd => ?_) fun _ d hd s => ?_
  all_goals
    simp only [List.mem_cons, List.not_mem_nil, or_false] at hd
    rcases hd with rfl | rfl | rfl
  all_goals first | exact ⟨trivial, trivial⟩ | exact trivial

/-- It adds nothing when handlers are aborted. -/
theorem Application.Resigns.closing (e : Failure) : Application.closing.Resigns e where
  abort _ s _ := ⟨s.host, rfl⟩
  answered _ s _ := ⟨s.host, rfl⟩

/-- A session that pinged the co-processor, with a subscriber and a handler of the
application. -/
def Session.overheard : Session (Unit × List Moment) :=
  [.call (.request (.system .ping)), .subscribe .permitJoin 0, .addHandler 0 false].foldl
    (fun s d => (Licence.chronicled Unit).perform .silent d s) (.start {} ((), []))

/-- The announcement was overheard while a request was under way. -/
theorem Reachable.overheard : Reachable (.chronicled Unit) .overheard := by
  have hsilent : Lawful (.chronicled Unit) .silent := .silent fun _ => trivial
  have hpinged := (Reachable.start (.chronicled Unit) {} ((), [])).deed hsilent
    (d := .call (.request (.system .ping))) ⟨trivial, trivial⟩ trivial
  have hheard := hpinged.deed hsilent (d := .subscribe .permitJoin 0) ⟨trivial, trivial⟩ trivial
  exact hheard.deed hsilent (d := .addHandler 0 false) ⟨trivial, trivial⟩ trivial

/-- A pong in a dispatch still answers the ping. The subscriber defers a teardown, at whose
end both pings fail with the first failure that was given, though none does before. -/
theorem overheard_closed :
    (Session.overheard.dispatched .closing pong).outcome? 0 =
      some (.ok (.payload pong.payload)) ∧
    (Application.closing.hear 0 0 (.permitJoin ⟨60⟩) Session.overheard.enter).depth = 1 ∧
    (Session.overheard.dispatched .closing permitJoin).operations = #[none, none] ∧
    (Session.overheard.deliver .closing permitJoin).operations =
      #[some (.error .timeout), some (.error .timeout)] := by
  obtain ⟨hrun, -, new, hdefers, -, heffect⟩ :=
    Reachable.deferred_teardown .overheard .closing permitJoin
  obtain ⟨hear, -, -, -, -, -, -⟩ := Lawful.closing
  have hlive : (Session.overheard.dispatched .closing permitJoin).operations = #[none, none] := rfl
  have hfirst : new.findSome? Moment.failure? = some .timeout := hdefers.deferred.symm
  refine ⟨?_, (hrun _ [] _ (hear 0 0 _ _) Nat.one_ne_zero).1, hlive, ?_⟩
  · obtain ⟨-, hpong, -⟩ := Reachable.deferred_teardown .overheard .closing pong
    obtain ⟨answer, hgets, houtcome⟩ := hpong [] [] _ (Session.start {} ()).chain
      (.response [⟨.sys, 0x01⟩] (.settle 0)) [.custom 0 false] (Session.start {} ()).chain
      Session.overheard.enter [] [] 0 Reachable.overheard.sound rfl rfl
      ⟨rfl, Or.inl (List.mem_singleton.2 rfl)⟩ rfl
    cases hgets with
    | answer => exact houtcome
    | rejection hmem => exact absurd (List.mem_singleton.2 rfl) hmem
  · rw [hfirst] at heffect
    rw [(heffect.resigned (.closing .timeout)).1]
    simp only [hlive, List.map_toArray, List.map_cons, List.map_nil, Option.getD_none]

/-- The application of before, which pings the co-processor when its handler is aborted. -/
def Application.reviving : Application (Unit × List Moment) :=
  { Application.closing with
    abort := fun _ _ s =>
      (Licence.chronicled Unit).perform .silent (.call (.request (.system .ping))) s }

/-- A subscriber that starts a request when it is aborted keeps to the licence. -/
theorem Lawful.reviving : Lawful (.chronicled Unit) .reviving := by
  obtain ⟨hear, offer, offer_tracked, offer_verdict, answered, answered_tracked, -⟩ :=
    Lawful.closing
  refine .intro hear offer offer_tracked offer_verdict answered answered_tracked fun _ _ s => ?_
  exact .deed (.refl s) (.silent fun _ => trivial) ⟨trivial, trivial⟩ trivial

/-- What is pinged in a teardown is still to be sent when the dispatch is done. -/
theorem overheard_revived :
    Lawful (.chronicled Unit) .reviving ∧ Reachable (.chronicled Unit) .overheard ∧
    (Session.overheard.dispatched .reviving permitJoin).deferred = some .timeout ∧
    (Session.overheard.deliver .reviving permitJoin).outbound = [⟨.sreq, ⟨.sys, 0x01⟩, []⟩] :=
  ⟨.reviving, .overheard, rfl, rfl⟩

end ZigbeeHost
