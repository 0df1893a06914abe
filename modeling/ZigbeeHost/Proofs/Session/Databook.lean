import ZigbeeHost.Proofs.Session.Credits
/-!
# What runs make of confirmations

An application that keeps the log `dataBook` writes down what concerns its requests that send data.
Here the deeds are shown, one after the other, to add to it what they have to (`Session.Credits`),
as long as the callbacks in them do.

A dispatch is followed turn by turn. A handler without an operation calls the application back or
emits an indication, which is a part of a run (`Sound.turn_credits`). Whoever else lets a frame
pass that confirms data waits for something else, or its timer is gone. So all that happens in
front of the handler that takes the frame is written down (`Sound.front_credits`), and so is what
this handler does (`Sound.accepts_credits`, `Sound.idle_credits`). A teardown fails whoever waits
(`Sound.tearDown_credits`), and timers that fire fail theirs (`Sound.expire_credits`).

`Written.credits` puts the deeds together, for runs at any depth of dispatches.
-/

namespace ZigbeeHost

/-- An application writes down its requests that send data, and whatever becomes of them. -/
def dataBook {θ : Type} : Logbook θ DataSign where
  after
    | _, s, .call (.request (.endpoint (.sendData r))) =>
      match (s.call (.request (.endpoint (.sendData r)))).1 with
      | .ok op => [.called op r]
      | .error _ => []
    | app, s, .deliver f => (s.taker? app f).toList.map (.took s.depth s.pages.length f) ++
        (s.dispatched app f).due?.toList.map fun _ => .torn
    | _, s, .expire => [.expired (s.timers.expire s.now).1]
    | _, s, .shutdown _ => if s.depth = 0 then [.torn] else []
    | _, _, _ => []

/-- Nobody waits for data to be confirmed but the requests that send it. -/
def Licence.sole (η : Type) : Licence η where
  pattern p := p ≠ .dataConfirm

/-- An application on its own may do everything. -/
theorem Licence.open_sole {θ σ : Type} : (Licence.sole (θ × List σ)).Open where
  think _ := trivial
  note _ _ _ := rfl

/-- A watch comes to no payload. -/
theorem Watch.ne_payload {watch : Watch} {i : Indication} {outcome : Except Failure Outcome}
    (h : watch.verdict? i = some outcome) (b : Bytes) : outcome ≠ .ok (.payload b) := by
  cases watch with
  | nextReset =>
    cases i with
    | reset info =>
      cases h
      intro heq
      cases heq
    | _ => cases h
  | decisiveState ends allowed =>
    cases i with
    | stateChange state =>
      simp only [verdict?] at h
      split at h
      · cases h
        intro heq
        cases heq
      · split at h
        · cases h
          intro heq
          cases heq
        · cases h
    | _ => cases h

/-! ## What handlers do that have an operation -/

/-- A status of success is the one byte zero. -/
theorem checkOnlyStatus_eq_ok_iff {b : Bytes} : checkOnlyStatus b = .ok () ↔ b = [0] := by
  constructor
  · intro h
    rcases b with _ | ⟨status, _ | ⟨x, rest⟩⟩
    · cases h
    all_goals
      by_cases hstatus : status = statusSuccess
      · simp only [checkOnlyStatus, checkStatus, hstatus, if_true, bind, Except.bind] at h
        first
          | rw [hstatus]; rfl
          | cases h
      · simp only [checkOnlyStatus, checkStatus, hstatus, if_false, bind, Except.bind] at h
        cases h
  · rintro rfl
    rfl

namespace Handler

variable {η : Type} {L : Licence η} {h : Handler} {op : OperationId} {f : Frame}
  {answer : Except Failure Bytes} {timers : Timers OperationId}

/-- Whoever carries on asks for a wait at most, if it awaits the answer to a request that is to be
confirmed. -/
theorem waits_carryOn (hf : h.Formed L) (hop : h.operation? = some op) (app : Application η)
    (answer : Except Failure Bytes) (s : Session η) :
    (h.carryOn app answer s).2.waits = [] ∨ ∃ commands c,
      h = .response commands (.confirm c op) ∧
        (h.carryOn app answer s).2.waits = [⟨c.pattern, c.window, op⟩] := by
  cases h with
  | indication | custom => cases hop
  | wait => exact Or.inl rfl
  | timed id inner =>
    cases inner with
    | wait => exact Or.inl rfl
    | _ => exact hf.elim
  | response commands a =>
    rw [carryOn]
    rcases a.resume_cases app answer s with ⟨callback, rfl⟩ |
      ⟨op', hop', ⟨outcome, -, heq⟩ | ⟨c, rfl, heq⟩ | ⟨ends, allowed, rfl, heq⟩⟩
    · cases hop
    · rw [heq]
      exact Or.inl rfl
    · rw [heq]
      cases hop
      exact Or.inr ⟨commands, c, rfl, rfl⟩
    · rw [heq]
      exact Or.inl rfl

/-- A handler that does not settle its operation with what it gets leaves nobody a payload. -/
theorem unpaid_carryOn (hno : h.settles? = none) (app : Application η)
    (hf : h.Formed L) (hop : h.operation? = some op) (s : Session η) :
    s.Unpaid (h.carryOn app answer s).1 := by
  have hrefl : s.Unpaid s := fun _ _ hb => hb
  cases h with
  | indication | custom => cases hop
  | wait => cases hno
  | timed id inner =>
    cases inner with
    | wait => cases hno
    | _ => exact hf.elim
  | response commands a =>
    cases a with
    | settle => cases hno
    | application => cases hop
    | confirm c op' =>
      simp only [carryOn, Aftermath.resume]
      split
      · exact hrefl
      · exact Session.unpaid_complete (fun _ heq => by cases heq) s op'
    | follow ends allowed op' =>
      simp only [carryOn, Aftermath.resume]
      split
      · exact Session.unpaid_complete (fun _ heq => by cases heq) s op'
      · split
        · exact Session.unpaid_complete (fun _ heq => by cases heq) s op'
        · split
          · exact Session.unpaid_complete (fun _ heq => by cases heq) s op'
          · exact hrefl

/-- The operation that comes to wait for its confirmation is the one whose request succeeded. -/
theorem accepted_of_accepts (hf : h.Formed L) (hop : h.operation? = some op)
    (hyes : h.Accepts timers f) (hgets : h.Gets f answer) (depth since : Nat)
    (app : Application η) (s : Session η) :
    DataSign.accepted [.took depth since f h] =
      (h.carryOn app answer s).2.waits.filterMap (·.handler.confirmee?) := by
  have hsign : (∀ commands c op', h ≠ .response commands (.confirm c op')) →
      DataSign.accepted [.took depth since f h] =
        (h.carryOn app answer s).2.waits.filterMap (·.handler.confirmee?) := by
    intro hother
    rcases waits_carryOn hf hop app answer s with hnone | ⟨commands, c, rfl, -⟩
    · rw [hnone]
      cases h with
      | response commands a =>
        cases a with
        | confirm c op' => exact absurd rfl (hother commands c op')
        | _ => rfl
      | _ => rfl
    · exact absurd rfl (hother commands c op)
  cases h with
  | response commands a =>
    cases a with
    | confirm c op' =>
      have hanswer : answer? commands f = some answer := answer?_of_gets hyes.1 hgets
      have hsuccess : answer.bind checkOnlyStatus = .ok () ↔ answer = .ok [0] := by
        cases answer with
        | ok b => exact checkOnlyStatus_eq_ok_iff.trans ⟨congrArg _, Except.ok.inj⟩
        | error e => constructor <;> intro hok <;> cases hok
      have hwait : [Wait.mk c.pattern c.window op'].filterMap (·.handler.confirmee?) =
          if c.pattern = .dataConfirm then [op'] else [] := by
        by_cases hpattern : c.pattern = .dataConfirm <;>
          simp [hpattern, confirmee?, Wait.handler, awaits?, operation?]
      cases hcheck : answer.bind checkOnlyStatus with
      | ok =>
        obtain rfl := hsuccess.1 hcheck
        have hwaits : (carryOn app (.ok [0]) (.response commands (.confirm c op')) s).2.waits =
            [⟨c.pattern, c.window, op'⟩] := rfl
        rw [hwaits, hwait]
        by_cases hpattern : c.pattern = .dataConfirm <;>
          simp [DataSign.accepted, DataSign.accepted?, hanswer, hpattern]
      | error e =>
        have hbad : answer ≠ .ok [0] := fun hok => by
          rw [hsuccess.2 hok] at hcheck
          cases hcheck
        simp [DataSign.accepted, DataSign.accepted?, hanswer, hbad, carryOn, Aftermath.resume,
          hcheck]
    | _ => exact hsign fun _ _ _ heq => by cases heq
  | _ => exact hsign fun _ _ _ heq => by cases heq

/-- Who is in the chain when the handler has carried on was there, or comes from the handler, or was
waited for before. -/
theorem mem_leave_carryOn (hf : h.Formed L) (hop : h.operation? = some op) {app : Application η}
    {u : Session η} (hadv : Advances h op u (h.carryOn app answer u).1)
    {left behind : List Handler} {waits : List Wait} {tracked : List Tracked} {k : Handler}
    (hk : k ∈ ((h.carryOn app answer u).1.leave (left ++ behind)
      (waits ++ (h.carryOn app answer u).2.waits) tracked).chain) :
    k ∈ left ++ h :: behind ++ u.chain ∨ h.LeadsTo k ∨
      ∃ w ∈ waits, k.operation? = some w.operation := by
  rcases Session.mem_leave hk with hk | ⟨w, hw, hawaits, hkop⟩
  · rw [hadv.other] at hk
    refine Or.inl (List.mem_append.2 ((List.mem_append.1 hk).imp_left fun hk => ?_))
    exact ((List.sublist_cons_self h behind).append_left left).mem hk
  · rcases List.mem_append.1 hw with hw | hw
    · exact Or.inr (Or.inr ⟨w, hw, hkop⟩)
    · rcases waits_carryOn hf hop app answer u with hnone | ⟨commands, c, rfl, hwaits⟩
      · rw [hnone] at hw
        cases hw
      · rw [hwaits] at hw
        obtain rfl := List.mem_singleton.1 hw
        exact Or.inr (Or.inl (Or.inr ⟨commands, c, op, rfl, hawaits, hkop⟩))

/-- A payload that is there when the handler has carried on was there before, or the handler
settles with it. -/
theorem earned_carryOn (hf : h.Formed L) (hop : h.operation? = some op) {app : Application η}
    {u : Session η} (hadv : Advances h op u (h.carryOn app answer u).1) {i : OperationId}
    {b : Bytes} (hb : (h.carryOn app answer u).1.outcome? i = some (.ok (.payload b))) :
    u.outcome? i = some (.ok (.payload b)) ∨ h.settles? = some i := by
  cases hsettles : h.settles? with
  | none => exact Or.inl (unpaid_carryOn hsettles app hf hop u i b hb)
  | some j =>
    have hsame := (operation?_of_settles? hsettles).symm.trans hop
    by_cases hi : i = op
    · exact Or.inr (hi ▸ hsame)
    · rw [Session.outcome?_of_eq (hadv.ledger i hi)] at hb
      exact Or.inl hb

end Handler

namespace Session

open DataSign

variable {θ : Type} {L : Licence (θ × List DataSign)} {away : List Handler} {owed : List Tracked}
  {s t : Session (θ × List DataSign)} {ws : List Wait} {log : List DataSign} {floor : Nat}

/-- A run that leads from `s` to `t`, and ends with waits to be installed, credits what it has to.
It cannot know what is out meanwhile. -/
def Credited (L : Licence (θ × List DataSign)) (s : Session (θ × List DataSign)) (ws : List Wait)
    (t : Session (θ × List DataSign)) : Prop :=
  ∀ away owed, Sound L away owed s → ∃ log, Credits s.depth away s ws t log

/-- Whoever has no operation makes no difference. -/
theorem expected_cons_of_idle {η : Type} {g : Handler} (hop : g.operation? = none)
    (hs : List Handler) (s : Session η) : s.expected (g :: hs) = s.expected hs := by
  have hnobody : s.expected [g] = [] := expected_eq_nil fun h hh => by
    rw [List.mem_singleton.1 hh, Handler.confirmee?, hop, ite_self]
  rw [← List.singleton_append, expected_append, hnobody, List.nil_append]

/-- What comes next writes nothing. -/
theorem Credits.next {u : Session (θ × List DataSign)} (h : Credits floor away s ws t log)
    (h' : Credits floor (ws.map Wait.handler ++ away) t [] u []) :
    Credits floor away s ws u log := by
  simpa using h.trans h'

end Session

namespace Sound

open Session DataSign

variable {θ : Type} {L : Licence (θ × List DataSign)} {away : List Handler} {owed : List Tracked}
  {s t : Session (θ × List DataSign)} {app : Application (θ × List DataSign)} {floor : Nat}

/-- A handler that has no operation may go. -/
theorem dismiss {η : Type} {L : Licence η} {s : Session η} {g : Handler}
    (hs : Sound L (g :: away) owed s) (hop : g.operation? = none) : Sound L away owed s := by
  have hgone (htimer : g.timer? = none) : Sound L away owed s := by
    refine Accounts.drop hs ((Handler.carried?_of_timer?_eq_none htimer _).trans hop) ?_
    rw [htimer]
    exact nofun
  cases g with
  | timed id inner =>
    obtain ⟨p, op, rfl⟩ := hs.inner_eq
    cases hop
  | _ => exact hgone rfl

section Callbacks

variable (happ : app.Records L dataBook (Credited L)) (hlaw : Lawful L app)
include happ

/-- A subscriber that is called. -/
theorem hear_credits (hs : Sound L away owed s) (hfloor : floor ≤ s.depth)
    (connection : Connection) (callback : CallbackId) (i : Indication) :
    ∃ log, Credits floor away s [] { app.hear callback connection i
      { s with running := connection :: s.running } with running := s.running } log := by
  let calling := { s with running := connection :: s.running }
  have hcalling : Sound L away owed calling := Accounts.congr hs rfl rfl rfl rfl
  have hheard := happ.hear callback connection i calling away owed
  rw [show calling.write (dataBook.called connection i) = calling from write_nil _] at hheard
  obtain ⟨log, hcredits⟩ := hheard hcalling
  have hcalled : Credits floor away s [] calling [] := .of_eq rfl rfl rfl rfl
  exact ⟨_, (hcalled.trans (hcredits.mono (List.Subset.refl _) hfloor)).next
    (.of_eq rfl rfl rfl rfl)⟩

include hlaw

/-- An emission credits whomever its callbacks do. -/
theorem emit_credits (hs : Sound L away owed s) (hfloor : floor ≤ s.depth) (i : Indication) :
    ∃ log, Credits floor away s [] (s.emit app i) log := by
  refine (hs.emit_induct hlaw.upholds hlaw.connects
    (Q := fun t => s.Calm t ∧ ∃ log, Credits floor away s [] t log)
    ⟨.refl s, [], .refl ..⟩ ?_ ?_).2
  · rintro t slot - - ht ⟨hcalm, log, hcredits⟩
    refine ⟨hcalm.trans (stable_calm.notify hlaw.calm i t slot), ?_⟩
    rcases t.notify_cases app i slot with
      heq | ⟨watch, op, outcome, -, -, hverdict, heq⟩ | ⟨callback, -, heq⟩ <;> rw [heq]
    · exact ⟨log, hcredits⟩
    · have hgone : Credits floor away t [] (t.disconnect slot.connection) [] :=
        .of_eq rfl rfl rfl rfl
      exact ⟨log, (hcredits.next hgone).next (.complete (Watch.ne_payload hverdict) _ op)⟩
    · obtain ⟨log', hheard⟩ :=
        hear_credits happ ht (hcalm.1 ▸ hfloor) slot.connection callback i
      exact ⟨_, hcredits.trans hheard⟩
  · rintro t - ⟨hcalm, log, hcredits⟩
    exact ⟨hcalm.trans (stable_calm.retain t i.event), log, hcredits.next (.of_eq rfl rfl rfl rfl)⟩

/-- A handler that has no operation is offered a frame. -/
theorem offer_credits {g : Handler} (hs : Sound L (g :: away) owed s) (hop : g.operation? = none)
    (hfloor : floor ≤ s.depth) (f : Frame) :
    ∃ log, Credits floor away s (g.offer app f s).2.waits (g.offer app f s).1 log := by
  have hgone := hs.dismiss hop
  cases g with
  | indication kind command event lenient =>
    simp only [Handler.offer]
    split
    · split
      · exact hgone.emit_credits happ hlaw hfloor _
      · exact ⟨[], .refl ..⟩
    · exact ⟨[], .refl ..⟩
  | response commands a =>
    cases a with
    | application callback =>
      simp only [Handler.offer, Aftermath.resume]
      split
      · obtain ⟨log, hcredits⟩ := happ.answered callback _ s away owed hgone
        exact ⟨log, hcredits.mono (List.Subset.refl _) hfloor⟩
      · exact ⟨[], .refl ..⟩
    | _ => cases hop
  | wait => cases hop
  | timed id inner =>
    obtain ⟨p, op, rfl⟩ := hs.inner_eq
    cases hop
  | custom callback permanent =>
    obtain ⟨log, hcredits⟩ := happ.offer callback f s away owed hgone
    exact ⟨log, hcredits.mono (List.Subset.refl _) hfloor⟩

/-- The turn of a handler that has no operation. -/
theorem turn_credits {kept rest : List Handler} {g : Handler} {ws : List Wait}
    {tracked : List Tracked} {log : List DataSign}
    (ht : Sound L (kept ++ g :: rest ++ (ws.map Wait.handler ++ away)) (tracked ++ owed) t)
    (hop : g.operation? = none) (hpos : 0 < floor) (hfloor : floor ≤ t.depth) (f : Frame)
    (h : Credits floor away s ws (t.restore (kept ++ g :: rest)) log) :
    ∃ log', Credits floor away s (ws ++ (g.offer app f t).2.waits) ((g.offer app f t).1.restore
      (kept ++ (Chain.left g (g.offer app f t).2.verdict ++ rest))) log' := by
  let t' := (g.offer app f t).1
  have hfront : Sound L (g :: (kept ++ rest ++ (ws.map Wait.handler ++ away)))
      (tracked ++ owed) t := ht.perm (List.perm_middle.append_right _) (List.Perm.refl _)
  have hgone := hfront.dismiss hop
  have hafter : Sound L ((g.offer app f t).2.waits.map Wait.handler ++
      (kept ++ rest ++ (ws.map Wait.handler ++ away)))
      ((g.offer app f t).2.tracked ++ (tracked ++ owed)) t' := by
    have hoffered := hfront.offer hlaw.upholds hlaw.connects f
    cases hr : (g.offer app f t).2.verdict.remove with
    | true =>
      rw [Chain.left, if_pos hr] at hoffered
      exact hoffered
    | false =>
      rw [Chain.left, if_neg (by simp [hr])] at hoffered
      exact hoffered.dismiss hop
  obtain ⟨log', hoffered⟩ := hfront.offer_credits happ hlaw hop hfloor f
  have hback := hoffered.frame hpos hgone hafter
  have hout : Credits floor (ws.map Wait.handler ++ away) (t.restore (kept ++ g :: rest)) []
      (t.restore (kept ++ rest)) [] := by
    refine .put_back ?_ fun x hx => Or.inl ?_
    · rw [expected_append, expected_append, expected_cons_of_idle hop]
    · exact ((List.sublist_cons_self g rest).append_left kept).mem hx
  have hin : Credits floor ((g.offer app f t).2.waits.map Wait.handler ++
      (ws.map Wait.handler ++ away)) (t'.restore (kept ++ rest)) []
      (t'.restore (kept ++ (Chain.left g (g.offer app f t).2.verdict ++ rest))) [] := by
    refine .put_back ?_ fun x hx => ?_
    · unfold Chain.left
      split
      · rfl
      · rw [expected_append, List.singleton_append, expected_cons_of_idle hop, ← expected_append]
    · rcases List.mem_append.1 hx with hx | hx
      · exact Or.inl (List.mem_append_left _ hx)
      · refine (List.mem_append.1 hx).symm.imp (List.mem_append_right _) fun hx => ?_
        rw [List.mem_singleton.1 ((Chain.left_sublist g _).mem hx), hop]
  exact ⟨_, h.trans ((hout.trans hback).next hin)⟩

/-- Handlers that let a frame pass in their turns. Those that are left are as good as put back. -/
theorem front_credits (hs : Sound L away owed s) {f : Frame} {before rest left : List Handler}
    {u : Session (θ × List DataSign)} {waits : List Wait} {tracked : List Tracked}
    (hchain : s.chain = before ++ rest)
    (hpassed : Chain.dispatch (Session.turn app f) before (s.enter, [], []) =
      (left, (u, waits, tracked), false)) :
    s.enter.Calm u ∧
      Sound L (left ++ rest ++ (waits.map Wait.handler ++ away)) (tracked ++ owed) u ∧
      ∃ log, Credits (s.depth + 1) away s waits (u.restore (left ++ rest)) log := by
  let Q (kept rest : List Handler) (st : Session (θ × List DataSign) × List Wait × List Tracked) :
      Prop := s.enter.Calm st.1 ∧
    Sound L (kept ++ rest ++ (st.2.1.map Wait.handler ++ away)) (st.2.2 ++ owed) st.1 ∧
      ∃ log, Credits (s.depth + 1) away s st.2.1 (st.1.restore (kept ++ rest)) log
  have hstart : Q [] (before ++ rest) (s.enter, [], []) := by
    refine ⟨.refl _, ?_, [], .of_eq rfl ?_ rfl rfl⟩
    · have hentered := hs.enter
      rw [hchain] at hentered
      exact hentered
    · rw [hchain]
      exact List.append_nil _
  have hends := Chain.pass_induct (Session.turn app f) Q ?_ rest before [] (s.enter, [], []) hstart
    (by rw [hpassed])
  · rw [hpassed] at hends
    exact hends
  rintro kept g rest ⟨t, ws, ts⟩ hgoes ⟨hcalm, ht, log, hcredits⟩
  have hcalm' := stable_calm.steady.offer (fun _ _ => trivial) hlaw.calm f g t
  have hturned : Sound L (kept ++ (Chain.left g (g.offer app f t).2.verdict ++ rest) ++
      ((ws ++ (g.offer app f t).2.waits).map Wait.handler ++ away))
      (ts ++ (g.offer app f t).2.tracked ++ owed) (g.offer app f t).1 :=
    ht.turn hlaw.upholds hlaw.connects f
  have hcredited : ∃ log', Credits (s.depth + 1) away s (ws ++ (g.offer app f t).2.waits)
      ((g.offer app f t).1.restore
        (kept ++ (Chain.left g (g.offer app f t).2.verdict ++ rest))) log' := by
    rcases Handler.offer_of_not_stop (ht.formed g (by simp)) hgoes with
      ⟨callback, permanent, rfl⟩ | ⟨-, hoffer⟩
    · exact ht.turn_credits happ hlaw rfl (Nat.succ_pos _) (Nat.le_of_eq hcalm.1.symm) f hcredits
    · rw [hoffer, List.append_nil]
      refine ⟨log, hcredits.next (.put_back ?_ fun x hx => Or.inl ?_)⟩
      · cases hawake : g.awake t.timers with
        | true => rfl
        | false =>
          have hnothing : g.expects? t.timers = none := Handler.expects?_of_not_awake hawake
          show t.expected (kept ++ rest) = t.expected (kept ++ g :: rest)
          rw [expected_append, expected_append]
          exact congrArg _ (List.filterMap_cons_none hnothing).symm
      · exact ((Chain.turn_sublist kept rest g _).mem hx)
  refine ⟨hcalm.trans hcalm', ?_, ?_⟩
  · rw [List.append_assoc kept]
    exact hturned
  · rw [List.append_assoc kept]
    exact hcredited

omit happ in
/-- Those who expect a confirmation when a handler took the frame. The one that it confirms has
left, and one that it accepted came last. -/
theorem expecting_of_accepts (hs : Sound L away owed s) {f : Frame}
    {before behind left : List Handler} {h : Handler} {op : OperationId}
    {u : Session (θ × List DataSign)} {waits : List Wait} {tracked : List Tracked}
    (hchain : s.chain = before ++ h :: behind)
    (hpassed : Chain.dispatch (Session.turn app f) before (s.enter, [], []) =
      (left, (u, waits, tracked), false)) (hyes : h.Accepts u.timers f)
    (hop : h.operation? = some op) (hwaits : waits.filterMap (·.handler.confirmee?) = []) :
    let sign := DataSign.took s.depth s.pages.length f h
    (u.restore (left ++ h :: behind)).expecting ++ accepted [sign] =
      confirmed [sign] ++ (s.dispatched app f).expecting := by
  intro sign
  obtain ⟨answer, hgets, -, -, -, hexpects, -⟩ :=
    hs.dispatched_of_accepts hlaw hchain hpassed hyes hop
  have hf := (hs.reached hlaw hchain hpassed).formed h List.mem_cons_self
  have haccepted := Handler.accepted_of_accepts hf hop hyes hgets s.depth s.pages.length app u
  rw [hexpects, List.filterMap_append, hwaits, List.nil_append, ← haccepted, expecting_restore,
    expected_append, ← List.singleton_append, expected_append]
  cases hi : h.confirmee? with
  | some i =>
    obtain ⟨hexpected, hdata⟩ := hyes.expects? hf hi
    have hnothing := hs.passed_expect_nothing hlaw hchain hpassed hdata
    have hthis : u.expected [h] = [i] := by simp [expected, hexpected]
    have hcredit : confirmed [sign] = [i] := by simp [confirmed, credit?, sign, hi]
    rw [Handler.reply_of_awaits (Handler.confirmee?_eq_some_iff.1 hi).1] at haccepted
    rw [haccepted, hnothing, hthis, hcredit]
    simp
  | none =>
    have hthis : u.expected [h] = [] := expected_eq_nil fun k hk => by
      rw [List.mem_singleton.1 hk, hi]
    have hcredit : confirmed [sign] = [] := by simp [confirmed, credit?, sign, hi]
    rw [hthis, hcredit]
    simp [sign]

/-- A dispatch in which a handler takes the frame that has an operation. -/
theorem accepts_credits (hs : Sound L away owed s) {f : Frame} {before behind left : List Handler}
    {h : Handler} {op : OperationId} {u : Session (θ × List DataSign)} {waits : List Wait}
    {tracked : List Tracked} (hchain : s.chain = before ++ h :: behind)
    (hpassed : Chain.dispatch (Session.turn app f) before (s.enter, [], []) =
      (left, (u, waits, tracked), false)) (hyes : h.Accepts u.timers f)
    (hop : h.operation? = some op) :
    let sign := DataSign.took s.depth s.pages.length f h
    ∃ log, Credits s.depth away s [] ((s.dispatched app f).write [sign]) (log ++ [sign]) := by
  intro sign
  obtain ⟨-, -, log, hfront⟩ := hs.front_credits happ hlaw hchain hpassed
  obtain ⟨answer, -, -, hadv, hdispatched, -, hspared⟩ :=
    hs.dispatched_of_accepts hlaw hchain hpassed hyes hop
  have hreached := hs.reached hlaw hchain hpassed
  have hf := hreached.formed h List.mem_cons_self
  have hlt := (hreached.loyal h List.mem_cons_self op hop).1
  have hdrifts : u.Drifts (s.dispatched app f) := by
    rw [hdispatched]
    exact (Drifts.carryOn hf hop app answer u).trans (.leave ..)
  have hconfirms {i : OperationId} (hi : h.confirmee? = some i) :
      h.expects? u.timers = some i ∧ f.ConfirmsData := hyes.expects? hf hi
  refine ⟨log, (hfront.mono (List.Subset.refl _) (Nat.le_succ _)).take (Nat.le_refl _)
    (List.mem_append_left _ (List.mem_append_right _ List.mem_cons_self)) hop hlt
    (congrArg Prod.snd hdrifts.host) hdrifts.size hdrifts.outlives (fun k hk => ?_) hspared ?_
    (fun i b hb => ?_) (fun hi => ⟨rfl, ?_⟩) (fun hi => ?_)⟩
  · rw [hdispatched] at hk
    exact Handler.mem_leave_carryOn hf hop hadv hk
  · exact hs.expecting_of_accepts hlaw hchain hpassed hyes hop
      (List.filterMap_eq_nil_iff.2 fun w hw => (hfront.waits w hw).1)
  · rw [hdispatched, leave_eq] at hb
    exact Handler.earned_carryOn hf hop hadv hb
  · obtain ⟨hawaits, hcarried⟩ := Handler.expects?_eq_some_iff.1 (hconfirms hi).1
    have hmem : h ∈ s.chain := by simp [hchain]
    have hbefore := hs.wanes hreached (fun i o ho => hfront.outlives i o ho)
      (List.mem_append_right _ hmem) (List.mem_append_left _ List.mem_cons_self) hcarried
    exact List.mem_filterMap.2 ⟨h, hmem, Handler.expects?_eq_some_iff.2 ⟨hawaits, hbefore⟩⟩
  · obtain ⟨hexpected, hdata⟩ := hconfirms hi
    exact ⟨hdata, (hs.dispatched_confirms hlaw hchain hpassed hdata hexpected).2.2.1⟩

/-- A dispatch in which a handler takes the frame that has no operation. -/
theorem idle_credits (hs : Sound L away owed s) {f : Frame} {before behind left : List Handler}
    {h : Handler} {u : Session (θ × List DataSign)} {waits : List Wait} {tracked : List Tracked}
    (hchain : s.chain = before ++ h :: behind)
    (hpassed : Chain.dispatch (Session.turn app f) before (s.enter, [], []) =
      (left, (u, waits, tracked), false)) (hstops : (h.offer app f u).2.verdict.stop = true)
    (hop : h.operation? = none) :
    let sign := DataSign.took s.depth s.pages.length f h
    ∃ log, Credits s.depth away s [] ((s.dispatched app f).write [sign]) (log ++ [sign]) := by
  intro sign
  obtain ⟨hcalm, hu, log, hfront⟩ := hs.front_credits happ hlaw hchain hpassed
  obtain ⟨log', hturned⟩ := hu.turn_credits happ hlaw hop (Nat.succ_pos _)
    (Nat.le_of_eq hcalm.1.symm) f hfront
  have hafter := hu.turn hlaw.upholds hlaw.connects f
  have hdispatched : s.dispatched app f = (h.offer app f u).1.leave
      (left ++ (Chain.left h (h.offer app f u).2.verdict ++ behind))
      (waits ++ (h.offer app f u).2.waits) (tracked ++ (h.offer app f u).2.tracked) := by
    have hgoes : (Chain.dispatch (Session.turn app f) before (s.enter, [], [])).2.2 = false := by
      rw [hpassed]
    simp only [Session.dispatched, walk_eq, hchain]
    rw [Chain.dispatch_append before _ _ hgoes, hpassed, Chain.dispatch_cons_of_stop behind hstops]
    rfl
  have hleft := (hturned.mono (List.Subset.refl _) (Nat.le_succ _)).leave hafter
  rw [← hdispatched] at hleft
  exact ⟨_, hleft.trans (.sign hop (Nat.le_refl _) _ f _)⟩

/-- A dispatch, before a teardown that was deferred to its end. -/
theorem dispatched_credits (hs : Sound L away owed s) (f : Frame) :
    let signs := (s.taker? app f).toList.map (DataSign.took s.depth s.pages.length f)
    ∃ log, Credits s.depth away s [] ((s.dispatched app f).write signs) (log ++ signs) := by
  intro signs
  cases htaker : s.taker? app f with
  | none =>
    have hsigns : signs = [] := by simp [signs, htaker]
    have hgoes := Chain.isSome_taker? (Session.turn app f) s.chain (s.enter, [], [])
    have hnobody : Chain.taker? (Session.turn app f) s.chain (s.enter, [], []) = none := htaker
    rw [hnobody] at hgoes
    generalize hpassed : Chain.dispatch (Session.turn app f) s.chain (s.enter, [], []) = d at hgoes
    obtain ⟨left, ⟨u, waits, tracked⟩, stopped⟩ := d
    obtain rfl : false = stopped := hgoes
    obtain ⟨-, hu, log, hfront⟩ :=
      hs.front_credits happ hlaw (List.append_nil s.chain).symm hpassed
    have hleft := (hfront.mono (List.Subset.refl _) (Nat.le_succ _)).leave hu
    have hdispatched : s.dispatched app f = u.leave (left ++ []) waits tracked := by
      simp only [Session.dispatched, walk_eq, hpassed, List.append_nil]
    rw [hsigns, write_nil, hdispatched]
    exact ⟨log, (List.append_nil log).symm ▸ hleft⟩
  | some h =>
    have hsigns : signs = [.took s.depth s.pages.length f h] := by simp [signs, htaker]
    obtain ⟨before, behind, hchain, hgoes, hstops⟩ := Chain.exists_of_taker? htaker
    generalize hpassed : Chain.dispatch (Session.turn app f) before (s.enter, [], []) = d at *
    obtain ⟨left, ⟨u, waits, tracked⟩, stopped⟩ := d
    obtain rfl : stopped = false := hgoes
    rw [hsigns]
    cases hop : h.operation? with
    | none => exact hs.idle_credits happ hlaw hchain hpassed hstops hop
    | some op =>
      have hf := (hs.reached hlaw hchain hpassed).formed h List.mem_cons_self
      rcases Handler.offer_of_stop hf hstops with
        ⟨callback, permanent, rfl⟩ | ⟨i, hemits, -⟩ | hyes
      · cases hop
      · cases h <;> first | cases hemits | cases hop
      · exact hs.accepts_credits happ hlaw hchain hpassed hyes hop

omit hlaw in
/-- Whoever is aborted is credited nothing. -/
theorem abort_credits {g : Handler} (hs : Sound L (g :: away) owed s) (hfloor : floor ≤ s.depth)
    (e : Failure) : ∃ log, Credits floor away s [] (g.abort app e s) log := by
  cases g with
  | indication kind command event lenient => exact ⟨[], .refl ..⟩
  | response commands a =>
    cases a with
    | application callback =>
      obtain ⟨log, hcredits⟩ := happ.answered callback (.error e) s away owed (hs.dismiss rfl)
      let reply := (app.answered callback (.error e) s).2
      let answered := (app.answered callback (.error e) s).1
      have hdropped : Credits floor (reply.waits.map Wait.handler ++ away) answered []
          (reply.drop answered) [] := .foldl (fun t (w : Wait) => .fail .dropped t w.operation) _ _
      exact ⟨log, ((hcredits.mono (List.Subset.refl _) hfloor).next hdropped).forget⟩
    | _ => exact ⟨[], .fail e s _⟩
  | wait p op => exact ⟨[], .fail e s op⟩
  | timed id inner =>
    obtain ⟨p, op, rfl⟩ := hs.inner_eq
    simp only [Handler.abort]
    split
    · exact ⟨[], (Credits.disarm hs).next (.fail e (s.disarm id) op)⟩
    · exact ⟨[], .refl ..⟩
  | custom callback permanent =>
    obtain ⟨log, hcredits⟩ := happ.abort callback e s away owed (hs.dismiss rfl)
    exact ⟨log, hcredits.mono (List.Subset.refl _) hfloor⟩

/-- A teardown that is written down behind the signs `xs`. -/
theorem tearDown_credits {xs log : List DataSign} (hs : Sound L away owed s)
    (hfloor : floor ≤ s.depth) (hxs : xs.length ≤ 1)
    (h : Credits floor away t [] (s.write xs) (log ++ xs)) (e : Failure) :
    ∃ log', Credits floor away t [] ((s.tearDown app e).write (xs ++ [.torn])) log' := by
  let cleared := { s with chain := [], tracked := [], outbound := [] }
  let drained := (Chain.drain Handler.permanent (Handler.abort app e) s.chain cleared).2
  have hdrain : ∃ log', Credits floor away cleared [] drained log' := by
    refine (hs.cleared.drain_induct hlaw.upholds (Q := fun u => cleared.Calm u ∧
      ∃ log', Credits floor away cleared [] u log') ⟨.refl _, [], .refl ..⟩ ?_).2
    rintro g away' u hsub hu ⟨hcalm, log', hcredits⟩
    have hdeep : floor ≤ u.depth := hcalm.1 ▸ hfloor
    obtain ⟨log'', haborted⟩ := hu.abort_credits happ hdeep e
    exact ⟨hcalm.trans (stable_calm.abort hlaw.calm e g u), _,
      hcredits.trans (haborted.mono hsub (Nat.le_refl _))⟩
  obtain ⟨log', hdrained⟩ := hdrain
  have hfailed (u : Session (θ × List DataSign)) (x : Tracked) :
      Credits floor away u [] (u.abortTracked e x) [] := by
    have hgone : Credits floor away u [] (u.disconnect x.connection) [] := .of_eq rfl rfl rfl rfl
    exact hgone.next (.fail e _ x.operation)
  have htracked : Credits floor away drained [] (s.tracked.foldl (Session.abortTracked e) drained)
      [] := .foldl hfailed s.tracked drained
  refine ⟨_, h.torn (hdrained.next htracked) (fun g hg => ?_) hxs fun op hop => ?_⟩
  · rw [Chain.drain_fst] at hg
    obtain ⟨hmem, hpermanent⟩ := List.mem_filter.1 hg
    exact ⟨hmem, (hs.formed g (List.mem_append_right _ hmem)).operation?_of_permanent hpermanent⟩
  · obtain ⟨g, hg, hexpects⟩ := List.mem_filterMap.1 hop
    have hgop := (Handler.confirmee?_eq_some_iff.1 (Handler.confirmee?_of_expects hexpects)).2
    exact (narrow_outlives.stable.abortTracked e s.tracked _).isSome
      (hs.cleared.drain_decides hlaw.upholds hlaw.outlives e s.chain hg hgop)

/-- A frame is delivered. -/
theorem deliver_credits (hs : Sound L away owed s) (f : Frame) :
    ∃ log, Credits s.depth away s [] (dataBook.perform app (.deliver f) s) log := by
  obtain ⟨log, hdispatched⟩ := hs.dispatched_credits happ hlaw f
  have hsound := hs.dispatched hlaw f
  generalize hxs : (s.taker? app f).toList.map (DataSign.took s.depth s.pages.length f) = xs at *
  have hlength : xs.length ≤ 1 := by
    rw [← hxs, List.length_map]
    cases s.taker? app f <;> simp
  have hperform : dataBook.perform app (.deliver f) s =
      ((s.dispatched app f).settleDeferred app).write
        (xs ++ (s.dispatched app f).due?.toList.map fun _ => .torn) := by
    rw [Logbook.perform, show dataBook.before s (.deliver f) = [] from rfl, write_nil, ← hxs]
    rfl
  rw [hperform, settleDeferred_eq]
  cases hdue : (s.dispatched app f).due? with
  | none => exact ⟨_, (List.append_nil xs).symm ▸ hdispatched⟩
  | some e =>
    have houtermost : (s.dispatched app f).depth = s.depth := dispatched_depth hlaw f s
    let settled := { s.dispatched app f with deferred := none }
    have hsettled : Sound L away owed settled := Accounts.congr hsound rfl rfl rfl rfl
    have hcleared : Credits s.depth away ((s.dispatched app f).write xs) [] (settled.write xs) [] :=
      .of_eq rfl rfl rfl rfl
    exact hsettled.tearDown_credits happ hlaw (Nat.le_of_eq houtermost.symm) hlength
      (hdispatched.next hcleared) e

end Callbacks

end Sound

/-! ## Deeds -/

namespace Sound

open Session DataSign

variable {θ : Type} {L : Licence (θ × List DataSign)} {away : List Handler} {owed : List Tracked}
  {s : Session (θ × List DataSign)} {app : Application (θ × List DataSign)} {floor : Nat}

/-- Timers expire, and that is written down. -/
theorem expire_credits (hs : Sound L away owed s) :
    let late := (s.timers.expire s.now).1
    Credits floor away s [] (s.expireTimers.write [.expired late]) [.expired late] := by
  intro late
  let t := s.expireTimers
  have hdrifts := Drifts.expireTimers s
  have hchain : t.chain = s.chain := by
    simp only [t]
    rw [expireTimers_eq]
  have htracked : t.tracked = s.tracked := by
    simp only [t]
    rw [expireTimers_eq]
  have htimers : t.timers = (s.timers.expire s.now).2 := by
    simp only [t]
    rw [expireTimers_eq]
  have ht : Sound L away owed t := .of_accounts (Accounts.expire hs) hchain htracked
  have hback {h : Handler} (hh : h ∈ s.chain) (op : OperationId)
      (hop : h.carried? t.timers = some op) : h.carried? s.timers = some op :=
    hs.timers.carried?_of_expire (List.mem_append_right away hh) (htimers ▸ hop)
  have hspares {h : Handler} (hh : h ∈ away ++ s.chain) {op : OperationId}
      (hop : h.carried? s.timers = some op) : h.carried? t.timers = some op ∨ op ∈ late :=
    htimers ▸ hs.timers.carried?_expire s.now hh hop
  have hunpaid : s.Unpaid t := List.foldlRecOn late _ (motive := fun u => s.Unpaid u)
    (.of_eq rfl) fun u hu op _ => hu.trans (unpaid_complete (fun _ heq => by cases heq) u op)
  have hexpecting : t.expecting = t.expected s.chain := by rw [expecting, hchain]
  have haccepted (ops : List OperationId) : ops ++ accepted [.expired late] = ops :=
    List.append_nil ops
  exact {
    pages := congrArg (·.2 ++ [DataSign.expired late]) hdrifts.host
    size := hdrifts.size
    outlives := hdrifts.outlives
    waits := fun _ hw => by cases hw
    vouches := fun h hh => .of_mem (hchain ▸ hh)
    took := fun depth since f h hh => by cases List.mem_singleton.1 hh
    called := fun op r hop => by cases List.mem_singleton.1 hop
    order := by
      show t.expecting.Sublist _
      rw [hexpecting, haccepted]
      exact expected_sublist fun h hh => hback hh
    spares := fun h hh op hop => (hspares (List.mem_append_left _ hh) hop).imp_right fun hmem =>
      ⟨late, List.mem_singleton.2 rfl, hmem⟩
    turns := fun hturn => by
      rw [haccepted] at hturn ⊢
      have hnobody := hturn _ (List.mem_singleton.2 rfl)
      show s.expecting = t.expecting
      rw [hexpecting]
      refine (expected_eq_of_stays (fun h hh => hback hh) fun h hh op hexpects => ?_).symm
      have hcarried := (Handler.expects?_eq_some_iff.1 hexpects).2
      refine (hspares (List.mem_append_right _ hh) hcarried).resolve_right fun hmem => ?_
      exact hnobody op hmem (List.mem_filterMap.2 ⟨h, hh, hexpects⟩)
    bides := fun op hop => by
      rw [haccepted] at hop
      show op ∈ t.expecting ∨ (t.outcome? op).isSome = true
      obtain ⟨h, hh, hexpects⟩ := List.mem_filterMap.1 hop
      have hthere : h ∈ away ++ t.chain := List.mem_append_right _ (hchain ▸ hh)
      refine (ht.expects_or_decided hthere (Handler.confirmee?_of_expects hexpects)).imp_left ?_
      intro hstill
      rw [hexpecting]
      exact List.mem_filterMap.2 ⟨h, hh, hstill⟩
    timely := timely_singleton fun _ _ _ _ heq => by cases heq
    earned := fun op b hb => Or.inl (hunpaid op b hb)
    paid := fun depth since f h op hh => by cases List.mem_singleton.1 hh }

/-- A call, before it is written down. -/
theorem call_credits (hs : Sound (.sole _) away owed s) {c : Call}
    (hp : (Licence.sole _).Permits (.call c : Deed (θ × List DataSign))) :
    Credits floor away s [] (s.call c).2 [] := by
  have hdrifts := Drifts.call c s
  have hgrown (new : List Handler) (hchain : (s.call c).2.chain = s.chain ++ new)
      (hnew : ∀ h ∈ new, h.confirmee? = none ∧ h.operation? = some s.operations.size)
      (hcarried : ∀ h ∈ away ++ s.chain,
        h.carried? (s.call c).2.timers = h.carried? s.timers)
      (hops : (s.call c).2.operations = s.issue.2.operations) :
      Credits floor away s [] (s.call c).2 [] := by
    refine .of_grown hchain (fun h hh => ⟨(hnew h hh).1, fun op hop => ?_⟩) hcarried
      (congrArg Prod.snd hdrifts.host) hdrifts.size hdrifts.outlives
      ((unpaid_issue s).trans (.of_eq hops))
    rw [(hnew h hh).2] at hop
    exact Nat.le_of_eq (Option.some.inj hop)
  cases c with
  | request r =>
    simp only [Session.call, Session.request] at hgrown ⊢
    split
    · exact .refl ..
    · rename_i x hx
      simp only [hx] at hgrown
      simp only [Session.exchange] at hgrown ⊢
      split
      · exact .refl ..
      · rename_i hallowed
        simp only [hallowed] at hgrown
        refine hgrown [.response x.responses (x.aftermath s.issue.1)] rfl ?_
          (fun _ _ => rfl) rfl
        intro h hh
        rw [List.mem_singleton.1 hh, Exchange.aftermath]
        split <;> exact ⟨rfl, rfl⟩
  | reset soft =>
    exact hgrown [] (List.append_nil _).symm (fun _ hh => by cases hh) (fun _ _ => rfl) rfl
  | reachState ends allowed =>
    refine hgrown [.response _ (.follow ends allowed s.issue.1)] rfl ?_ (fun _ _ => rfl) rfl
    intro h hh
    rw [List.mem_singleton.1 hh]
    exact ⟨rfl, rfl⟩
  | waitFor p window =>
    have hissued := hs.issue (g := (Wait.mk p window s.issue.1).handler) (Or.inr hp.2) rfl rfl
    obtain ⟨g, hchain, hawaits, hop⟩ := exists_install_chain s.issue.2 ⟨p, window, s.issue.1⟩
    refine hgrown [g] hchain (fun h hh => ?_) hissued.install_expects.2
      (install_operations ..)
    rw [List.mem_singleton.1 hh]
    refine ⟨if_neg fun hpattern => hp.2 ?_, hop⟩
    exact Option.some.inj (hawaits.symm.trans hpattern)

/-- A request that sends data is written down. -/
theorem sendData_credits (hs : Sound (.sole _) away owed s) (r : DataRequest) :
    let c := Call.request (.endpoint (.sendData r))
    ∃ log, Credits floor away s [] (dataBook.perform app (.call c) s) log := by
  intro c
  have hcalled : Credits floor away s [] (s.call c).2 [] := hs.call_credits ⟨trivial, trivial⟩
  have hperform : dataBook.perform app (.call c) s =
      (s.call c).2.write (dataBook.after app s (.call c)) := by
    rw [Logbook.perform, show dataBook.before s (.call c) = [] from rfl, write_nil]
    rfl
  rw [hperform]
  let x := (EndpointRequest.sendData r).exchange s.config
  have hexchange : s.call c = s.exchange x := rfl
  cases hrefused : x.refusal? with
  | some e =>
    have hnothing : dataBook.after app s (.call c) = [] := by
      simp only [dataBook, c, hexchange, Session.exchange, hrefused]
    rw [hnothing, write_nil]
    exact ⟨[], hcalled⟩
  | none =>
    let op := s.issue.1
    let g := Handler.asking ⟨.af, 0x01⟩
      ⟨EndpointRequest.dataConfirm, s.config.dataConfirmTimeout?, []⟩ op
    have hsign : dataBook.after app s (.call c) = [.called op r] := by
      simp only [dataBook, c, hexchange, Session.exchange, hrefused]
      rfl
    have hchain : (s.call c).2.chain = s.chain ++ [g] := by
      simp only [hexchange, Session.exchange, hrefused]
      rfl
    have hsize : (s.call c).2.operations.size = s.operations.size + 1 := by
      simp only [hexchange, Session.exchange, hrefused]
      exact Array.size_push ..
    rw [hsign]
    refine ⟨_, hcalled.book (Nat.le_refl _) (hsize ▸ Nat.lt_succ_self _) (fun h hh hop => ?_) r⟩
    rw [hchain] at hh
    rcases List.mem_append.1 hh with hh | hh
    · have hlt := (hs.loyal h (List.mem_append_right _ hh) op hop).1
      exact absurd hlt (Nat.lt_irrefl _)
    · rw [List.mem_singleton.1 hh]
      exact Or.inl ⟨_, rfl⟩

/-- What a deed, with its callbacks, adds to the log. -/
theorem perform_credits (happ : app.Records (.sole _) dataBook (Credited (.sole _)))
    (hlaw : Lawful (.sole _) app) (hs : Sound (.sole _) away owed s) {d : Deed (θ × List DataSign)}
    (hd : (Licence.sole _).Permits d) (hdiscreet : d.Discreet) :
    ∃ log, Credits s.depth away s [] (dataBook.perform app d s) log := by
  cases d with
  | call c =>
    have hquiet (hperform : dataBook.perform app (.call c) s = (s.call c).2) :
        ∃ log, Credits s.depth away s [] (dataBook.perform app (.call c) s) log := by
      rw [hperform]
      exact ⟨[], hs.call_credits hd⟩
    cases c with
    | request r =>
      cases r with
      | endpoint r =>
        cases r with
        | sendData r => exact hs.sendData_credits r
        | register => exact hquiet (Logbook.perform_eq rfl rfl)
      | _ => exact hquiet (Logbook.perform_eq rfl rfl)
    | _ => exact hquiet (Logbook.perform_eq rfl rfl)
  | deliver f => exact hs.deliver_credits happ hlaw f
  | expire =>
    rw [Logbook.perform, show dataBook.before s .expire = [] from rfl, write_nil]
    exact ⟨_, hs.expire_credits⟩
  | shutdown e =>
    rw [Logbook.perform, show dataBook.before s (.shutdown e) = [] from rfl, write_nil]
    by_cases hdepth : s.depth = 0
    · have hnothing : Credits s.depth away s [] (s.write []) ([] ++ []) := by
        rw [write_nil]
        exact .refl ..
      have htorn := hs.tearDown_credits happ hlaw (Nat.le_refl _) (Nat.zero_le _) hnothing e
      simpa [dataBook, Deed.perform, Session.shutdown, hdepth] using htorn
    · have hdeferred : Credits s.depth away s []
          { s with deferred := s.deferred <|> some e } [] := .of_eq rfl rfl rfl rfl
      refine ⟨[], ?_⟩
      simpa [dataBook, Deed.perform, Session.shutdown, hdepth] using hdeferred
  | emit i =>
    rw [Logbook.perform_eq rfl rfl]
    exact hs.emit_credits happ hlaw (Nat.le_refl _) i
  | ask x callback =>
    rw [Logbook.perform_eq rfl rfl]
    simp only [Deed.perform, Session.ask]
    split
    · exact ⟨[], .refl ..⟩
    · exact ⟨[], .of_idle (g := .response x.responses (.application callback)) rfl rfl rfl rfl rfl⟩
  | addHandler callback permanent =>
    rw [Logbook.perform_eq rfl rfl]
    exact ⟨[], .of_idle (g := .custom callback permanent) rfl rfl rfl rfl rfl⟩
  | next =>
    rw [Logbook.perform_eq rfl rfl]
    simp only [Deed.perform, Session.nextOutbound]
    split <;> exact ⟨[], .of_eq rfl rfl rfl rfl⟩
  | think change =>
    rw [Logbook.perform_eq rfl rfl]
    exact ⟨[], .of_eq (hdiscreet s.host) rfl rfl rfl⟩
  | advance | send | takeAll | subscribe | disconnect =>
    rw [Logbook.perform_eq rfl rfl]
    exact ⟨[], .of_eq rfl rfl rfl rfl⟩

end Sound

/-! ## Runs -/

section Runs

open Session

variable {θ : Type} {s t : Session (θ × List DataSign)} {ws : List Wait}
  {app : Application (θ × List DataSign)}

/-- An application that writes such a log is lawful. -/
theorem Writing.lawful_dataBook (happ : Writing (.sole _) dataBook app) : Lawful (.sole _) app :=
  happ.lawful Licence.open_sole fun _ => trivial

/-- What a run adds to the log, at any depth of dispatches. -/
theorem Written.credits (h : Written (.sole _) dataBook s ws t) : Credited (.sole _) s ws t := by
  refine h.keeps (fun s away _ _ => ⟨[], .refl ..⟩) ?_ ?_
  · intro s t ws app d hrun hst happ hrecords hd hdiscreet _ away owed hs
    have huses := hrun.uses Licence.open_sole fun _ => trivial
    have ht := huses.keeps (upholds_kept _) away owed hs
    obtain ⟨log, hcredits⟩ := hst away owed hs
    obtain ⟨log', hperformed⟩ := ht.perform_credits hrecords happ.lawful_dataBook hd hdiscreet
    have hdepth : t.depth = s.depth := huses.calm.1
    rw [hdepth] at hperformed
    exact ⟨_, by simpa using hcredits.trans hperformed⟩
  · intro s t ws p window _ hst hp away owed hs
    obtain ⟨log, hcredits⟩ := hst away owed hs
    exact ⟨_, by simpa using hcredits.trans (.ask_wait hp window t)⟩

end Runs

end ZigbeeHost
