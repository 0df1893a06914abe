import ZigbeeHost.Proofs.Session.Confirmation
/-!
# Who waits for data to be confirmed

A request that sends data waits for its confirmation after its answer. Frames that confirm data
are told apart by their command only, so such a frame is for whichever wait it comes to first.
`Session.expecting` lists the operations of the waits in the chain that are still to be confirmed,
in the order of the chain.

A wait goes behind all others when it is installed (`Sound.leave_expects`), and it expects nothing
any more when its timer has fired. Nobody else's timer makes a difference to it. When a frame
that confirms data comes to a wait, those in front have nothing to expect, and those behind go on
waiting (`Sound.dispatched_confirms`).
-/

namespace ZigbeeHost

variable {η : Type} {L : Licence η}

/-- What is waited for when data is to be confirmed. -/
def Pattern.dataConfirm : Pattern := ⟨.areq, EndpointRequest.dataConfirm, []⟩

/-- The frame confirms data. -/
def Frame.ConfirmsData (f : Frame) : Prop :=
  f.kind = .areq ∧ f.command = EndpointRequest.dataConfirm

namespace Handler

/-- The operation of a wait for data to be confirmed. -/
def confirmee? (h : Handler) : Option OperationId :=
  if h.awaits? = some .dataConfirm then h.operation? else none

/-- The operation that a wait for data to be confirmed is to complete, unless its timer is not
armed any more. -/
def expects? (timers : Timers OperationId) (h : Handler) : Option OperationId :=
  if h.awaits? = some .dataConfirm then h.carried? timers else none

variable {h : Handler} {op : OperationId} {timers : Timers OperationId} {f : Frame}

theorem confirmee?_eq_some_iff :
    h.confirmee? = some op ↔ h.awaits? = some .dataConfirm ∧ h.operation? = some op :=
  Option.ite_none_right_eq_some

theorem expects?_eq_some_iff :
    h.expects? timers = some op ↔ h.awaits? = some .dataConfirm ∧ h.carried? timers = some op :=
  Option.ite_none_right_eq_some

/-- Whoever expects a confirmation is one to be confirmed. -/
theorem confirmee?_of_expects (hexpects : h.expects? timers = some op) :
    h.confirmee? = some op := by
  obtain ⟨hawaits, hcarried⟩ := expects?_eq_some_iff.1 hexpects
  exact confirmee?_eq_some_iff.2 ⟨hawaits, operation?_of_carried? hcarried⟩

/-- Whoever expects something accepts the frames that confirm data. -/
theorem accepts_of_expects (hf : h.Formed L) (hexpects : h.expects? timers = some op)
    (hconfirms : f.ConfirmsData) : h.Accepts timers f := by
  obtain ⟨hawaits, hcarried⟩ := expects?_eq_some_iff.1 hexpects
  cases h with
  | indication | response | custom => cases hawaits
  | wait p =>
    cases hawaits
    exact ⟨hconfirms.1, hconfirms.2, List.nil_prefix⟩
  | timed id inner =>
    cases inner with
    | wait p =>
      cases hawaits
      obtain ⟨hid, -⟩ := Option.ite_none_right_eq_some.1 hcarried
      exact ⟨hid, hconfirms.1, hconfirms.2, List.nil_prefix⟩
    | _ => exact hf.elim

/-- A wait for data to be confirmed accepts no other frames, and only as long as it expects one. -/
theorem Accepts.expects? (hyes : h.Accepts timers f) (hf : h.Formed L)
    (hop : h.confirmee? = some op) : h.expects? timers = some op ∧ f.ConfirmsData := by
  obtain ⟨hawaits, hoperation⟩ := confirmee?_eq_some_iff.1 hop
  rw [expects?_eq_some_iff]
  cases h with
  | indication | response | custom => cases hawaits
  | wait p =>
    cases hawaits
    exact ⟨⟨rfl, hoperation⟩, hyes.1, hyes.2.1⟩
  | timed id inner =>
    cases inner with
    | wait p =>
      cases hawaits
      exact ⟨⟨rfl, (if_pos hyes.1).trans hoperation⟩, hyes.2.1, hyes.2.2.1⟩
    | _ => exact hf.elim

/-- Whoever only leaves expects nothing. -/
theorem expects?_of_not_awake (hawake : h.awake timers = false) : h.expects? timers = none := by
  cases h with
  | timed id inner =>
    have hnot : ¬timers.active id = true := Bool.eq_false_iff.1 hawake
    rw [expects?, carried?, if_neg hnot, ite_self]
  | _ => cases hawake

theorem expects?_congr {timers' : Timers OperationId}
    (hcarried : h.carried? timers' = h.carried? timers) :
    h.expects? timers' = h.expects? timers := by
  rw [expects?, expects?, hcarried]

end Handler

/-! ## Those in the chain -/

namespace Session

/-- The operations that the handlers expect to be confirmed. -/
def expected (hs : List Handler) (s : Session η) : List OperationId :=
  hs.filterMap (Handler.expects? s.timers)

/-- The operations of the chain that are to be confirmed, in order. -/
def expecting (s : Session η) : List OperationId := s.expected s.chain

variable {s t : Session η}

theorem expected_append (hs hs' : List Handler) (s : Session η) :
    s.expected (hs ++ hs') = s.expected hs ++ s.expected hs' := List.filterMap_append

/-- Handlers that are put back wait in front of the others. -/
theorem expecting_restore (hs : List Handler) (s : Session η) :
    (s.restore hs).expecting = s.expected hs ++ s.expecting := expected_append hs s.chain s

theorem expected_congr {hs : List Handler}
    (hcarried : ∀ h ∈ hs, h.carried? t.timers = h.carried? s.timers) :
    t.expected hs = s.expected hs :=
  List.filterMap_congr fun h hh => Handler.expects?_congr (hcarried h hh)

/-- A wait goes behind all others. -/
theorem exists_install_chain (s : Session η) (w : Wait) : ∃ g,
    (s.install w).chain = s.chain ++ [g] ∧ g.awaits? = some w.pattern ∧
      g.operation? = some w.operation := by
  unfold install
  split <;> exact ⟨_, rfl, rfl, rfl⟩

/-- Whoever is in the chain when a dispatch is left was there before, or waits for what was asked
for. -/
theorem mem_leave {chain : List Handler} {waits : List Wait} {tracked : List Tracked}
    {h : Handler} (hh : h ∈ (s.leave chain waits tracked).chain) : h ∈ chain ++ s.chain ∨
      ∃ w ∈ waits, h.awaits? = some w.pattern ∧ h.operation? = some w.operation := by
  let Known (t : Session η) : Prop := ∀ h ∈ t.chain, h ∈ chain ++ s.chain ∨
    ∃ w ∈ waits, h.awaits? = some w.pattern ∧ h.operation? = some w.operation
  have hinstall (t : Session η) (ht : Known t) (w : Wait) (hw : w ∈ waits) :
      Known (t.install w) := by
    obtain ⟨g, hchain, hawaits, hop⟩ := exists_install_chain t w
    intro h hh
    rw [hchain] at hh
    rcases List.mem_append.1 hh with hh | hh
    · exact ht h hh
    · rw [List.mem_singleton.1 hh]
      exact Or.inr ⟨w, hw, hawaits, hop⟩
  let back := { s.restore chain with depth := s.depth - 1 }
  have hinstalled : Known (waits.foldl (fun t w => t.install w) back) :=
    List.foldlRecOn waits _ (motive := Known) (fun _ => Or.inl) hinstall
  have htracked : Known (s.leave chain waits tracked) :=
    List.foldlRecOn tracked _ (motive := Known) hinstalled fun _ ht _ _ => ht
  exact htracked h hh

/-- If nobody carries more than before, nothing else is expected. -/
theorem expected_sublist {hs : List Handler}
    (hwanes : ∀ h ∈ hs, ∀ op, h.carried? t.timers = some op → h.carried? s.timers = some op) :
    (t.expected hs).Sublist (s.expected hs) := by
  induction hs with
  | nil => exact List.Sublist.refl []
  | cons h hs ih =>
    have ih := ih fun g hg => hwanes g (List.mem_cons_of_mem h hg)
    rw [← List.singleton_append, expected_append, expected_append]
    refine List.Sublist.append ?_ ih
    cases hexpects : h.expects? t.timers with
    | none => simp [expected, hexpects]
    | some op =>
      obtain ⟨hawaits, hcarried⟩ := Handler.expects?_eq_some_iff.1 hexpects
      have hbefore : h.expects? s.timers = some op :=
        Handler.expects?_eq_some_iff.2 ⟨hawaits, hwanes h List.mem_cons_self op hcarried⟩
      simp [expected, hexpects, hbefore]

/-- If besides everybody goes on carrying what it expected, the same is expected. -/
theorem expected_eq_of_stays {hs : List Handler}
    (hwanes : ∀ h ∈ hs, ∀ op, h.carried? t.timers = some op → h.carried? s.timers = some op)
    (hstays : ∀ h ∈ hs, ∀ op, h.expects? s.timers = some op → h.carried? t.timers = some op) :
    t.expected hs = s.expected hs := by
  refine List.filterMap_congr fun h hh => Option.ext fun op => ?_
  constructor <;> intro hexpects
  · obtain ⟨hawaits, hcarried⟩ := Handler.expects?_eq_some_iff.1 hexpects
    exact Handler.expects?_eq_some_iff.2 ⟨hawaits, hwanes h hh op hcarried⟩
  · have hawaits := (Handler.expects?_eq_some_iff.1 hexpects).1
    exact Handler.expects?_eq_some_iff.2 ⟨hawaits, hstays h hh op hexpects⟩

/-- Whoever waits for nothing of the kind expects nothing. -/
theorem expected_eq_nil {hs : List Handler} (hnone : ∀ h ∈ hs, h.confirmee? = none) :
    s.expected hs = [] := by
  refine List.filterMap_eq_nil_iff.2 fun h hh => ?_
  cases hexpects : h.expects? s.timers with
  | none => rfl
  | some op =>
    have hop := Handler.confirmee?_of_expects hexpects
    rw [hnone h hh] at hop
    cases hop

end Session

namespace Sound

open Session

variable {away away' : List Handler} {owed owed' : List Tracked} {s t u : Session η}

/-- What is carried later was carried before by whoever was there. -/
theorem wanes (hs : Sound L away owed s) (ht : Sound L away' owed' t) (hst : s.Outlives t)
    {h : Handler} (hh : h ∈ away ++ s.chain) (hh' : h ∈ away' ++ t.chain) {op : OperationId}
    (hcarried : h.carried? t.timers = some op) : h.carried? s.timers = some op := by
  have hpending := Accounts.pending_of_handler ht hh' hcarried
  obtain ⟨hlt, hloyal⟩ := hs.loyal h hh op (Handler.operation?_of_carried? hcarried)
  refine hloyal ?_
  by_contra hdecided
  have hsome := isSome_outcome?_iff.2 ⟨hlt, Bool.eq_false_iff.2 hdecided⟩
  obtain ⟨outcome, houtcome⟩ := Option.isSome_iff_exists.1 hsome
  have hout := hst op outcome houtcome
  rw [(isSome_outcome?_iff.1 (Option.isSome_of_eq_some hout)).2] at hpending
  cases hpending

/-- A wait for data to be confirmed goes on expecting that until its operation is decided. -/
theorem expects_or_decided {h : Handler} {op : OperationId} (hs : Sound L away owed s)
    (hh : h ∈ away ++ s.chain) (hop : h.confirmee? = some op) :
    h.expects? s.timers = some op ∨ (s.outcome? op).isSome = true := by
  obtain ⟨hawaits, hoperation⟩ := Handler.confirmee?_eq_some_iff.1 hop
  obtain ⟨hlt, hloyal⟩ := hs.loyal h hh op hoperation
  cases hpending : s.pending op with
  | true => exact Or.inl (Handler.expects?_eq_some_iff.2 ⟨hawaits, hloyal hpending⟩)
  | false => exact Or.inr (isSome_outcome?_iff.2 ⟨hlt, hpending⟩)

/-- Whoever expects to be confirmed has an operation that was issued and is not decided. -/
theorem pending_of_mem_expecting {op : OperationId} (hs : Sound L away owed s)
    (hop : op ∈ s.expecting) : s.pending op = true := by
  obtain ⟨h, hh, hexpects⟩ := List.mem_filterMap.1 hop
  exact Accounts.pending_of_handler hs (List.mem_append_right _ hh)
    (Handler.expects?_eq_some_iff.1 hexpects).2

/-- Whoever waits has an operation that was issued. -/
theorem lt_of_mem_expecting {op : OperationId} (hs : Sound L away owed s)
    (hop : op ∈ s.expecting) : op < s.operations.size :=
  pending_lt (hs.pending_of_mem_expecting hop)

/-- Whoever waits is not decided. -/
theorem outcome?_of_mem_expecting {op : OperationId} (hs : Sound L away owed s)
    (hop : op ∈ s.expecting) : s.outcome? op = none :=
  outcome?_of_pending (hs.pending_of_mem_expecting hop)

/-- A wait that is installed makes no difference to the others, and comes behind them. -/
theorem install_expects {w : Wait} (hs : Sound L (w.handler :: away) owed s) :
    (s.install w).expecting = s.expecting ++ w.handler.confirmee?.toList ∧
      ∀ g ∈ away ++ s.chain, g.carried? (s.install w).timers = g.carried? s.timers := by
  have hcarried : ∀ g ∈ away ++ s.chain,
      g.carried? (s.install w).timers = g.carried? s.timers := by
    intro g hg
    unfold Session.install
    split
    · rfl
    · exact ((TimersFit.cons_iff rfl).1 hs.timers).carried?_arm _ _ hg
  have hsame : (s.install w).expected s.chain = s.expecting :=
    expected_congr fun g hg => hcarried g (List.mem_append_right away hg)
  have hnew : ∃ g : Handler, (s.install w).chain = s.chain ++ [g] ∧
      g.expects? (s.install w).timers = w.handler.confirmee? := by
    unfold Session.install
    split
    · exact ⟨_, rfl, rfl⟩
    · rename_i window _
      have hactive :
          (s.timers.arm (s.now + window) w.operation).2.active s.timers.fresh = true := by
        simp [Timers.active_arm]
      have hcarried : Handler.carried? (s.timers.arm (s.now + window) w.operation).2
          (.timed s.timers.fresh w.handler) = some w.operation := if_pos hactive
      exact ⟨_, rfl, congrArg (fun carried =>
        if w.handler.awaits? = some .dataConfirm then carried else none) hcarried⟩
  obtain ⟨g, hchain, hexpects⟩ := hnew
  refine ⟨?_, hcarried⟩
  rw [expecting, hchain, expected_append, hsame]
  cases hop : w.handler.confirmee? <;> simp [expected, hexpects, hop]

/-- At the end of a dispatch the waits that were asked for come behind all others. -/
theorem leave_expects {chain : List Handler} {waits : List Wait} {tracked : List Tracked}
    (hs : Sound L (chain ++ (waits.map Wait.handler ++ away)) (tracked ++ owed) s) :
    (s.leave chain waits tracked).expecting =
        s.expected chain ++ s.expecting ++ waits.filterMap (·.handler.confirmee?) ∧
      ∀ g ∈ away, g.carried? (s.leave chain waits tracked).timers = g.carried? s.timers := by
  have hwaits : ∀ (ws : List Wait) (t : Session η),
      Sound L (ws.map Wait.handler ++ away) (tracked ++ owed) t →
        (ws.foldl (fun t w => t.install w) t).expecting =
          t.expecting ++ ws.filterMap (·.handler.confirmee?) ∧
        ∀ g ∈ away, g.carried? (ws.foldl (fun t w => t.install w) t).timers =
          g.carried? t.timers := by
    intro ws
    induction ws with
    | nil => exact fun t _ => ⟨(List.append_nil _).symm, fun _ _ => rfl⟩
    | cons w ws ih =>
      intro t ht
      obtain ⟨hexpects, hcarried⟩ := ht.install_expects
      obtain ⟨hexpects', hcarried'⟩ := ih _ ht.install
      refine ⟨?_, fun g hg => (hcarried' g hg).trans
        (hcarried g (List.mem_append_left _ (List.mem_append_right _ hg)))⟩
      rw [List.foldl_cons, hexpects', hexpects, List.append_assoc, List.filterMap_cons]
      cases w.handler.confirmee? <;> rfl
  have htracked : ∀ (ts : List Tracked) (t : Session η),
      (ts.foldl (fun t x => t.track x) t).expecting = t.expecting ∧
        (ts.foldl (fun t x => t.track x) t).timers = t.timers := by
    intro ts
    induction ts with
    | nil => exact fun _ => ⟨rfl, rfl⟩
    | cons x ts ih => exact fun t => ih (t.track x)
  let back := { s.restore chain with depth := s.depth - 1 }
  have hback : Sound L (waits.map Wait.handler ++ away) (tracked ++ owed) back :=
    Accounts.congr hs.restore rfl rfl rfl rfl
  obtain ⟨hexpects, hcarried⟩ := hwaits waits back hback
  obtain ⟨hsame, htimers⟩ := htracked tracked (waits.foldl (fun t w => t.install w) back)
  refine ⟨?_, fun g hg => ?_⟩
  · rw [← expecting_restore]
    exact hsame.trans hexpects
  · exact (congrArg (g.carried? ·) htimers).trans (hcarried g hg)

end Sound

/-! ## Handlers in their turn -/

namespace Handler

variable {h : Handler} {f : Frame} {app : Application η} {s : Session η}

/-- Whoever waits for a frame asks for nothing more when it comes. -/
theorem reply_of_awaits {p : Pattern} (hawaits : h.awaits? = some p) (app : Application η)
    (answer : Except Failure Bytes) (s : Session η) : (h.carryOn app answer s).2 = {} := by
  induction h with
  | wait => rfl
  | timed id inner ih => exact ih hawaits
  | _ => cases hawaits

/-- A handler of the session that lets a frame pass did not accept it, and at most it leaves. -/
theorem offer_of_not_stop (hf : h.Formed L) (hgoes : (h.offer app f s).2.verdict.stop = false) :
    (∃ callback permanent, h = .custom callback permanent) ∨
      ¬h.Accepts s.timers f ∧
        h.offer app f s = (s, { verdict := { remove := !h.awake s.timers } }) := by
  have hno : ¬h.Accepts s.timers f := by
    intro hyes
    obtain ⟨answer, -, hoffer⟩ := offer_of_accepts hyes app
    rw [hoffer] at hgoes
    cases hgoes
  cases h with
  | custom callback permanent => exact Or.inl ⟨callback, permanent, rfl⟩
  | indication kind command event lenient =>
    refine Or.inr ⟨hno, ?_⟩
    simp only [offer] at hgoes ⊢
    split
    · rename_i hmatch
      rw [if_pos hmatch] at hgoes
      split at hgoes
      · cases hgoes
      · rfl
    · rfl
  | response commands a => exact Or.inr ⟨hno, offer_response_of_not_accepts hno app⟩
  | wait p op => exact Or.inr ⟨hno, offer_wait_of_not_accepts hno app⟩
  | timed id inner =>
    refine Or.inr ⟨hno, ?_⟩
    cases hid : s.timers.active id with
    | true =>
      cases inner with
      | wait p op =>
        rw [offer_timed_of_active hid, offer_wait_of_not_accepts (fun hyes => hno ⟨hid, hyes⟩),
          awake, hid]
        rfl
      | _ => exact hf.elim
    | false =>
      rw [offer_timed_of_not_active hid, awake, hid]
      rfl

/-- A handler of the session that takes a frame emits what it carries, or it accepts it. -/
theorem offer_of_stop (hf : h.Formed L) (hstops : (h.offer app f s).2.verdict.stop = true) :
    (∃ callback permanent, h = .custom callback permanent) ∨
    (∃ i, h.emission? f = some i ∧ h.offer app f s = (s.emit app i, { verdict := .handled })) ∨
      h.Accepts s.timers f := by
  cases h with
  | custom callback permanent => exact Or.inl ⟨callback, permanent, rfl⟩
  | indication kind command event lenient =>
    refine Or.inr (Or.inl ?_)
    simp only [offer, emission?] at hstops ⊢
    split
    · rename_i hmatch
      rw [if_pos hmatch] at hstops
      split at hstops
      · rename_i i hread
        rw [hread]
        exact ⟨i, rfl, rfl⟩
      · cases hstops
    · rename_i hmatch
      rw [if_neg hmatch] at hstops
      cases hstops
  | response commands a =>
    refine Or.inr (Or.inr (by_contra fun hno => ?_))
    rw [offer_response_of_not_accepts hno app] at hstops
    cases hstops
  | wait p op =>
    refine Or.inr (Or.inr (by_contra fun hno => ?_))
    rw [offer_wait_of_not_accepts hno app] at hstops
    cases hstops
  | timed id inner =>
    refine Or.inr (Or.inr (by_contra fun hno => ?_))
    cases hid : s.timers.active id with
    | true =>
      cases inner with
      | wait p op =>
        rw [offer_timed_of_active hid,
          offer_wait_of_not_accepts (fun hyes => hno ⟨hid, hyes⟩)] at hstops
        cases hstops
      | _ => exact hf.elim
    | false =>
      rw [offer_timed_of_not_active hid] at hstops
      cases hstops

end Handler

/-- A handler that carries on has its own timer disarmed, if any. -/
theorem Sound.carried?_advances {away : List Handler} {owed : List Tracked} {s t : Session η}
    {h : Handler} {op : OperationId} (hs : Sound L (h :: away) owed s) (hadv : Advances h op s t) :
    ∀ g ∈ away ++ s.chain, g.carried? t.timers = g.carried? s.timers := by
  intro g hg
  cases g with
  | timed id inner =>
    have hother : h.timer? ≠ some id := by
      intro hid
      have hnodup := hs.timers.timer_nodup
      rw [List.cons_append, List.filterMap_cons, hid, List.nodup_cons] at hnodup
      exact hnodup.1 (List.mem_filterMap.2 ⟨_, hg, rfl⟩)
    have hactive : t.timers.active id = s.timers.active id := by
      rw [Bool.eq_iff_iff, Timers.active_iff, Timers.active_iff]
      simp only [hadv.armed, List.mem_filter, decide_eq_true_eq]
      constructor
      · rintro ⟨e, ⟨he, -⟩, hid⟩
        exact ⟨e, he, hid⟩
      · rintro ⟨e, he, rfl⟩
        exact ⟨e, ⟨he, hother⟩, rfl⟩
    rw [Handler.carried?, Handler.carried?, hactive]
  | _ => rfl

/-! ## The way of a frame that confirms data -/

namespace Sound

open Session

variable {away : List Handler} {owed : List Tracked} {s u : Session η} {app : Application η}
  {f : Frame} {before behind left : List Handler} {h : Handler} {op : OperationId}
  {waits : List Wait} {tracked : List Tracked}

/-- Those who let a frame pass that confirms data expect nothing, and nothing later. -/
theorem passed_expect_nothing (hs : Sound L away owed s) (happ : Lawful L app)
    (hchain : s.chain = before ++ behind)
    (hpassed : Chain.dispatch (Session.turn app f) before (s.enter, [], []) =
      (left, (u, waits, tracked), false)) (hconfirms : f.ConfirmsData) : u.expected left = [] := by
  have hstart : Sound L ([] ++ (before ++ behind) ++ (([] : List Wait).map Wait.handler ++ away))
      ([] ++ owed) s.enter := by
    rw [← hchain]
    exact hs.enter
  have hends := Chain.pass_induct (Session.turn app f)
    (fun kept rest st => Sound L (kept ++ rest ++ (st.2.1.map Wait.handler ++ away))
      (st.2.2 ++ owed) st.1 ∧ st.1.expected kept = []) ?_ behind before [] (s.enter, [], [])
    ⟨hstart, rfl⟩ (by rw [hpassed])
  · rw [hpassed] at hends
    exact hends.2
  rintro kept g rest ⟨t, waits, tracked⟩ hgoes ⟨ht, hnothing⟩
  let w := Session.turn app f g (t, waits, tracked)
  have hturned : Sound L (kept ++ Chain.left g w.2 ++ rest ++ (w.1.2.1.map Wait.handler ++ away))
      (w.1.2.2 ++ owed) w.1.1 := by
    rw [List.append_assoc kept]
    exact ht.turn happ.upholds happ.connects f
  refine ⟨hturned, ?_⟩
  rw [expected_append]
  have houtlives : t.Outlives (g.offer app f t).1 :=
    narrow_outlives.stable.steady.offer (fun _ _ => trivial) happ.outlives f g t
  have hkept : (g.offer app f t).1.expected kept = [] := by
    refine List.eq_nil_of_sublist_nil (hnothing ▸ expected_sublist fun x hx op' hop' => ?_)
    refine ht.wanes hturned houtlives ?_ ?_ hop'
    · simp [hx]
    · simp [hx]
  have hf := ht.formed g (by simp)
  refine List.append_eq_nil_iff.2 ⟨hkept, ?_⟩
  rcases Handler.offer_of_not_stop hf hgoes with ⟨callback, permanent, rfl⟩ | ⟨hno, hoffer⟩
  · refine expected_eq_nil fun x hx => ?_
    rw [List.mem_singleton.1 ((Chain.left_sublist _ _).mem hx)]
    rfl
  · refine List.filterMap_eq_nil_iff.2 fun x hx => ?_
    rw [List.mem_singleton.1 ((Chain.left_sublist _ _).mem hx)]
    simp only [Session.turn, hoffer]
    cases hexpects : g.expects? t.timers with
    | none => rfl
    | some op' => exact absurd (Handler.accepts_of_expects hf hexpects hconfirms) hno

/-- What a frame makes of a session when a handler accepts it that has an operation. -/
theorem dispatched_of_accepts (hs : Sound L away owed s) (happ : Lawful L app)
    (hchain : s.chain = before ++ h :: behind)
    (hpassed : Chain.dispatch (Session.turn app f) before (s.enter, [], []) =
      (left, (u, waits, tracked), false)) (hyes : h.Accepts u.timers f)
    (hop : h.operation? = some op) :
    ∃ answer, h.Gets f answer ∧
      let v := (h.carryOn app answer u).1
      let reply := (h.carryOn app answer u).2
      s.taker? app f = some h ∧ Advances h op u v ∧
      s.dispatched app f = v.leave (left ++ behind) (waits ++ reply.waits)
        (tracked ++ reply.tracked) ∧
      (s.dispatched app f).expecting =
        u.expected left ++ u.expected behind ++ u.expecting ++
          (waits ++ reply.waits).filterMap (·.handler.confirmee?) ∧
      ∀ g ∈ away, g.carried? (s.dispatched app f).timers = g.carried? u.timers := by
  obtain ⟨htaker, answer, hgets, hwalk⟩ := walk_of_accepts hchain hpassed hyes
  have hreached := hs.reached happ hchain hpassed
  have hadv := Handler.carryOn_advances (hreached.formed h List.mem_cons_self) hop app answer u
  have hcarried := carried?_advances hreached hadv
  have hwalked := hs.enter.walk happ.upholds happ.connects s.chain f
  rw [hwalk] at hwalked
  obtain ⟨hexpects, hspared⟩ := hwalked.leave_expects
  have hdispatched : s.dispatched app f = (h.carryOn app answer u).1.leave (left ++ behind)
      (waits ++ (h.carryOn app answer u).2.waits)
      (tracked ++ (h.carryOn app answer u).2.tracked) := by
    simp only [Session.dispatched, hwalk]
  have hsame : (h.carryOn app answer u).1.expecting = u.expecting := by
    rw [expecting, hadv.other]
    exact expected_congr fun g hg => hcarried g (List.mem_append_right _ hg)
  have hothers : (h.carryOn app answer u).1.expected (left ++ behind) =
      u.expected left ++ u.expected behind := by
    rw [← expected_append]
    refine expected_congr fun g hg => hcarried g ?_
    rcases List.mem_append.1 hg with hg | hg <;> simp [hg]
  refine ⟨answer, hgets, htaker, hadv, hdispatched, ?_, fun g hg => ?_⟩
  · rw [hdispatched]
    rw [hsame, hothers] at hexpects
    exact hexpects
  · rw [hdispatched]
    exact (hspared g hg).trans (hcarried g (by simp [hg]))

/-- A frame that confirms data is taken by the first wait that expects it, if it comes so far. Its
payload is the outcome of the operation of that wait, and no other operation changes. Those behind
go on waiting, and so does whoever came while the frame passed the handlers in front. -/
theorem dispatched_confirms (hs : Sound L away owed s) (happ : Lawful L app)
    (hchain : s.chain = before ++ h :: behind)
    (hpassed : Chain.dispatch (Session.turn app f) before (s.enter, [], []) =
      (left, (u, waits, tracked), false)) (hconfirms : f.ConfirmsData)
    (hexpects : h.expects? u.timers = some op) :
    s.taker? app f = some h ∧ u.expected left = [] ∧
    (s.dispatched app f).outcome? op = some (.ok (.payload f.payload)) ∧
    (∀ i : OperationId, i ≠ op →
      (s.dispatched app f).operations[i]? = u.operations[i]?) ∧
    (s.dispatched app f).expecting =
      u.expected behind ++ u.expecting ++ waits.filterMap (·.handler.confirmee?) := by
  have hf := (hs.reached happ hchain hpassed).formed h List.mem_cons_self
  obtain ⟨hawaits, hcarried⟩ := Handler.expects?_eq_some_iff.1 hexpects
  have hop := Handler.operation?_of_carried? hcarried
  have hyes := Handler.accepts_of_expects hf hexpects hconfirms
  have hnothing := hs.passed_expect_nothing happ hchain hpassed hconfirms
  obtain ⟨answer, -, htaker, hadv, hdispatched, hrest, -⟩ :=
    hs.dispatched_of_accepts happ hchain hpassed hyes hop
  refine ⟨htaker, hnothing, ?_, fun i hi => ?_, ?_⟩
  · obtain ⟨answer', hgets, hout⟩ := hs.completes happ hchain hpassed hyes
      (Handler.settles?_of_awaits hawaits hop)
    rw [hgets.eq_of_awaits hawaits rfl] at hout
    exact hout
  · rw [hdispatched, leave_eq]
    exact hadv.ledger i hi
  · rw [hrest, hnothing, Handler.reply_of_awaits hawaits]
    simp

end Sound

/-! ## A frame that nobody else is concerned with -/

/-- The application's own handlers let the frame pass, and do nothing about it. -/
def Application.Ignores (app : Application η) (f : Frame) (s : Session η) : Prop :=
  ∀ callback permanent, .custom callback permanent ∈ s.chain →
    ∀ t, app.offer callback f t = (t, {})

/-- Whoever waits for frames that confirm data takes any of them. -/
def Session.WaitsForAny (s : Session η) : Prop :=
  ∀ h ∈ s.chain, ∀ p, h.awaits? = some p → p.command = EndpointRequest.dataConfirm →
    p = .dataConfirm

/-- A confirmation is no event. -/
theorem Frame.ConfirmsData.not_takes {f : Frame} (hconfirms : f.ConfirmsData) (e : Event) :
    ¬e.Takes f := by
  rintro ⟨-, hcommand, -⟩
  rw [hconfirms.2] at hcommand
  cases e <;> cases hcommand

namespace Handler

variable {h : Handler} {f : Frame} {app : Application η} {s : Session η}

/-- Whoever accepts a frame that confirms data waits for one. -/
theorem Accepts.confirmee? {timers : Timers OperationId} (hyes : h.Accepts timers f)
    (hf : h.Formed L) (hconfirms : f.ConfirmsData)
    (hany : ∀ p, h.awaits? = some p → p.command = EndpointRequest.dataConfirm →
      p = .dataConfirm) : ∃ op, h.confirmee? = some op := by
  cases h with
  | indication | custom => exact hyes.elim
  | response commands a =>
    have hkind := hyes.1
    rw [hconfirms.1] at hkind
    cases hkind
  | wait p op =>
    obtain rfl := hany p rfl (hyes.2.1.symm.trans hconfirms.2)
    exact ⟨op, rfl⟩
  | timed id inner =>
    cases inner with
    | wait p op =>
      obtain rfl := hany p rfl (hyes.2.2.1.symm.trans hconfirms.2)
      exact ⟨op, rfl⟩
    | _ => exact hf.elim

/-- Whoever expects nothing lets a frame pass that confirms data. -/
theorem offer_of_expects_nothing (hf : h.Formed L) (hconfirms : f.ConfirmsData)
    (hany : ∀ p, h.awaits? = some p → p.command = EndpointRequest.dataConfirm → p = .dataConfirm)
    (hignores : ∀ callback permanent, h = .custom callback permanent →
      ∀ t, app.offer callback f t = (t, {}))
    (hnothing : h.expects? s.timers = none) :
    h.offer app f s = (s, { verdict := { remove := !h.awake s.timers } }) := by
  by_cases hcustom : ∃ callback permanent, h = .custom callback permanent
  · obtain ⟨callback, permanent, rfl⟩ := hcustom
    exact hignores callback permanent rfl s
  have hgoes : (h.offer app f s).2.verdict.stop = false := by
    refine Bool.eq_false_iff.2 fun hstops => ?_
    rcases offer_of_stop hf hstops with hc | ⟨i, hemits, -⟩ | hyes
    · exact hcustom hc
    · rw [emission?_of_free hf hconfirms.not_takes] at hemits
      cases hemits
    · obtain ⟨op, hop⟩ := hyes.confirmee? hf hconfirms hany
      rw [(hyes.expects? hf hop).1] at hnothing
      cases hnothing
  exact ((offer_of_not_stop hf hgoes).resolve_left hcustom).2

end Handler

namespace Sound

open Session

variable {away : List Handler} {owed : List Tracked} {s : Session η} {app : Application η}
  {f : Frame} {op : OperationId} {rest : List OperationId}

/-- A frame that confirms data goes to whoever has waited longest. Nobody else changes. -/
theorem deliver_confirms_first (hs : Sound L away owed s) (happ : Lawful L app)
    (hsettled : s.Settled) (hignores : app.Ignores f s) (hany : s.WaitsForAny)
    (hconfirms : f.ConfirmsData) (hexpecting : s.expecting = op :: rest) :
    (s.deliver app f).outcome? op = some (.ok (.payload f.payload)) ∧
    (∀ i, i ≠ op → (s.deliver app f).outcome? i = s.outcome? i) ∧
    (s.deliver app f).expecting = rest := by
  obtain ⟨before, h, behind, hchain, hfront, hexpects, hbehind⟩ :=
    List.filterMap_eq_cons_iff.1 hexpecting
  have hpassed : Chain.dispatch (Session.turn app f) before (s.enter, [], []) =
      (before.filter (Handler.awake s.timers), (s.enter, [], []), false) := by
    refine Chain.dispatch_of_pass _ _ _ fun g hg => ?_
    have hmem : g ∈ s.chain := by simp [hchain, hg]
    have hoffer : g.offer app f s.enter =
        (s.enter, { verdict := { remove := !g.awake s.timers } }) :=
      Handler.offer_of_expects_nothing (hs.formed g (List.mem_append_right _ hmem)) hconfirms
        (hany g hmem) (fun callback permanent heq => hignores callback permanent (heq ▸ hmem))
        (hfront g hg)
    simp only [Session.turn, hoffer]
    rfl
  obtain ⟨-, -, hout, hothers, hrest⟩ :=
    hs.dispatched_confirms happ hchain hpassed hconfirms hexpects
  -- Nobody is called back, so no teardown was asked for meanwhile.
  have hf := hs.formed h (List.mem_append_right _ (hchain ▸ by simp))
  have hop := Handler.operation?_of_carried? (Handler.expects?_eq_some_iff.1 hexpects).2
  obtain ⟨answer, -, -, hadv, hdispatched, -, -⟩ := hs.dispatched_of_accepts happ hchain hpassed
    (Handler.accepts_of_expects hf hexpects hconfirms) hop
  have hends : (s.dispatched app f).Settled := by
    have hsame : (s.dispatched app f).depth = s.depth ∧
        (s.dispatched app f).deferred = s.deferred := by
      rw [hdispatched, leave_eq]
      show (h.carryOn app answer s.enter).1.depth - 1 = s.depth ∧
        (h.carryOn app answer s.enter).1.deferred = s.deferred
      rw [hadv.other]
      exact ⟨Nat.add_sub_cancel .., rfl⟩
    intro hdepth
    rw [hsame.1] at hdepth
    rw [hsame.2, hsettled hdepth]
  rw [hends.deliver_eq]
  refine ⟨hout, fun i hi => ?_, ?_⟩
  · exact outcome?_of_eq (hothers i hi)
  · rw [hrest]
    exact (List.append_nil _).trans ((List.append_nil _).trans hbehind)

end Sound

end ZigbeeHost
