import ZigbeeHost.Proofs.Request.Conventions
import ZigbeeHost.Proofs.Session.Databook
/-!
# Which request a confirmation is credited to

A frame that confirms data names the endpoint and the transaction of a request. The session looks
at neither before it hands the frame to a wait; the request whose wait took it reads them.

So a request never succeeds with somebody else's confirmation (`Credits.transacted`) : its operation
has a payload only if its own wait took a frame with this payload, which was delivered after the
answer that accepted the request was taken. And a frame goes to the request that was accepted first
of those that wait, whatever it names (`Session.CreditsConfirmations.next`). If it names another
one, the request it goes to fails.

Those that wait are those in the chain. While a frame is dispatched the chain is out, so a frame
that a callback delivers then goes to whoever came since (`confirmed_out_of_turn`).
-/

namespace ZigbeeHost

/-! ## How a confirmation is read -/

namespace EndpointRequest

variable {r : DataRequest}

/-- A request succeeds with a confirmation of success that names its endpoint and its transaction,
and nothing else. -/
theorem read_sendData_eq_ok_iff {b : Bytes} :
    (sendData r).read b = .ok () ↔ b = [0, r.dstEndpoint, r.transId] := by
  rcases b with _ | ⟨status, rest⟩
  · exact ⟨nofun, nofun⟩
  by_cases hstatus : status = 0
  · subst hstatus
    rcases rest with _ | ⟨endpoint, _ | ⟨transaction, _ | ⟨x, rest⟩⟩⟩
    all_goals simp [read, checkStatus, statusSuccess, Codec.decode, Codec.pair, Codec.u8_read_cons,
      Codec.u8_read_nil, bind, Except.bind]
  · simp [read, checkStatus, statusSuccess, hstatus, bind, Except.bind]

/-- An answer to another transaction is refused as uncorrelated. -/
theorem read_sendData_of_mismatch {endpoint transaction : UInt8}
    (hother : (endpoint, transaction) ≠ (r.dstEndpoint, r.transId)) :
    (sendData r).read [0, endpoint, transaction] = .error .correlation := by
  have hdecode : (Codec.u8.pair Codec.u8).decode [endpoint, transaction] =
      .ok (endpoint, transaction) := by
    simp [Codec.decode, Codec.pair, Codec.u8_read_cons, bind, Except.bind]
  simp [read, checkStatus, statusSuccess, hdecode, hother, bind, Except.bind]

/-- An answer with a status other than success is an error. -/
theorem read_sendData_of_status {status : UInt8} (hstatus : status ≠ 0) (rest : Bytes) :
    (sendData r).read (status :: rest) = .error (.status status) := by
  simp [read, checkStatus, statusSuccess, hstatus, bind, Except.bind]

end EndpointRequest

/-! ## Transactions in a log -/

/-- A payload answers a request if it stands in the response to its command. -/
theorem answer?_eq_ok_iff {command : Command} {f : Frame} {b : Bytes} :
    answer? [command] f = some (.ok b) ↔ f = ⟨.srsp, command, b⟩ := by
  obtain ⟨kind, command', payload⟩ := f
  rw [answer?_eq_some_iff]
  simp [eq_comm]

namespace DataSign

theorem accepted?_eq_some_iff {sign : DataSign} {op : OperationId} :
    sign.accepted? = some op ↔ ∃ depth since f commands c,
      sign = .took depth since f (.response commands (.confirm c op)) ∧
        c.pattern = .dataConfirm ∧ answer? commands f = some (.ok [0]) := by
  constructor
  · intro h
    unfold accepted? at h
    split at h
    · obtain ⟨⟨hpattern, hanswer⟩, heq⟩ := Option.ite_none_right_eq_some.1 h
      cases heq
      exact ⟨_, _, _, _, _, rfl, hpattern, hanswer⟩
    · cases h
  · rintro ⟨depth, since, f, commands, c, rfl, hpattern, hanswer⟩
    exact if_pos ⟨hpattern, hanswer⟩

/-- The frames that were taken as confirmations, in order. -/
def confirmations (log : List DataSign) : List Frame := (log.filterMap credit?).map Prod.snd

/-- In a log that comes behind `base` signs, the answer to the request that has the operation is
taken, and accepts it. Its wait takes a frame later that confirms data, with the payload. When that
frame was delivered the answer had been taken. -/
def Transacted (base : Nat) (log : List DataSign) (op : OperationId) (payload : Bytes) : Prop :=
  ∃ i j depth since depth' since' window h,
    log[i]? = some (.took depth since ⟨.srsp, ⟨.af, 0x01⟩, [0]⟩
      (.asking ⟨.af, 0x01⟩ ⟨EndpointRequest.dataConfirm, window, []⟩ op)) ∧
    log[j]? = some (.took depth' since' ⟨.areq, EndpointRequest.dataConfirm, payload⟩ h) ∧
    h.confirmee? = some op ∧ base + i < since' ∧ since' ≤ base + j

end DataSign

namespace Session

open DataSign

variable {θ : Type} {L : Licence (θ × List DataSign)} {away : List Handler} {owed : List Tracked}
  {s t : Session (θ × List DataSign)} {ws : List Wait} {log : List DataSign} {floor : Nat}
  {op : OperationId} {r : DataRequest}

/-- A request of the run that has come to a payload was accepted, and confirmed later. -/
theorem Credits.transacted (h : Credits floor away s ws t log) (hs : Sound L away owed s)
    (hcalled : .called op r ∈ log) {b : Bytes}
    (hout : t.outcome? op = some (.ok (.payload b))) :
    Transacted s.pages.length log op b := by
  obtain ⟨hnew, -, -, hserves⟩ := h.called op r hcalled
  have hunissued : s.outcome? op ≠ some (.ok (.payload b)) := by
    intro hold
    rw [outcome?_eq_some_iff, Array.getElem?_eq_none hnew] at hold
    cases hold
  obtain ⟨depth', since', f', g, hg, hsettles⟩ := (h.earned op b hout).resolve_left hunissued
  have hop : g.confirmee? = some op := by
    rcases hserves g (Or.inr ⟨_, _, _, hg⟩) (Handler.operation?_of_settles? hsettles) with
      ⟨window, rfl⟩ | hop
    · cases hsettles
    · exact hop
  obtain ⟨⟨hkind, hcommand⟩, hpaid⟩ := h.paid depth' since' f' g op hg hop
  have hpayload : f'.payload = b := by
    rw [hout] at hpaid
    cases hpaid
    rfl
  obtain ⟨j, hj⟩ := List.getElem?_of_mem hg
  obtain ⟨hbase, hsince, hmem⟩ := h.timely j depth' since' f' g op hj hop
  have haccepted : op ∈ accepted (log.take (since' - s.pages.length)) := by
    refine (List.mem_append.1 hmem).resolve_left fun hold => ?_
    exact Nat.not_lt_of_le hnew (hs.lt_of_mem_expecting hold)
  obtain ⟨sign, hsign, haccepts⟩ := List.mem_filterMap.1 haccepted
  obtain ⟨depth, since, f, commands, c, rfl, -, hanswer⟩ := accepted?_eq_some_iff.1 haccepts
  obtain ⟨i, hi⟩ := List.getElem?_of_mem hsign
  rcases hserves _ (Or.inr ⟨_, _, _, List.mem_of_mem_take hsign⟩) rfl with ⟨window, heq⟩ | hnone
  · cases heq
    obtain rfl := answer?_eq_ok_iff.1 hanswer
    rw [List.getElem?_take] at hi
    split at hi
    · rename_i hlt
      refine ⟨i, j, depth, since, depth', since', window, g, hi, ?_, hop, by omega, hsince⟩
      rw [hj, ← hpayload, ← hkind, ← hcommand]
    · cases hi
  · cases hnone

/-- A request that succeeds was confirmed with its own transaction. -/
theorem payload_of_success
    (h : t.resolution (.endpoint (.sendData r)) op = some (.ok ())) :
    t.outcome? op = some (.ok (.payload [0, r.dstEndpoint, r.transId])) := by
  obtain ⟨outcome, hout, hread⟩ := Option.map_eq_some_iff.1 h
  cases outcome with
  | error e => cases hread
  | ok outcome =>
    cases outcome with
    | payload b => rw [hout, EndpointRequest.read_sendData_eq_ok_iff.1 hread]
    | _ => cases hread

/-- If the operations are confirmed in turn, the frame that is taken n-th is for the n-th of
them. -/
theorem Credits.confirms_nth (h : Credits floor away s ws t log)
    (hturn : ∀ sign ∈ log, sign.InTurn (s.expecting ++ accepted log)) {n : Nat} {f : Frame}
    (hop : (s.expecting ++ accepted log)[n]? = some op)
    (hf : (confirmations log)[n]? = some f) :
    t.outcome? op = some (.ok (.payload f.payload)) := by
  rw [confirmations, List.getElem?_map] at hf
  obtain ⟨⟨op', f'⟩, hcredit, rfl⟩ := Option.map_eq_some_iff.1 hf
  have hconfirmed : (confirmed log)[n]? = some op' := by
    rw [confirmed, List.getElem?_map, hcredit]
    rfl
  have hlt := (List.getElem?_eq_some_iff.1 hconfirmed).1
  rw [h.turns hturn, List.getElem?_append_left hlt, hconfirmed] at hop
  obtain rfl := Option.some.inj hop
  obtain ⟨sign, hsign, hcredit⟩ := List.mem_filterMap.1 (List.mem_of_getElem? hcredit)
  cases sign with
  | took depth since f h' =>
    obtain ⟨i, hi, heq⟩ := Option.map_eq_some_iff.1 hcredit
    cases heq
    exact (h.paid depth since _ h' _ hsign hi).2
  | _ => cases hcredit

/-- What becomes of the requests that send data in the part of a run that leads from `s` to `t`,
with what the part wrote down. -/
structure CreditsConfirmations (s t : Session (θ × List DataSign)) (log : List DataSign) :
    Prop where
  pages : t.pages = s.pages ++ log
  /-- A request of this part succeeds with a frame that confirms its own transaction, and was
  delivered after its answer. -/
  credited : ∀ op r, .called op r ∈ log →
    t.resolution (.endpoint (.sendData r)) op = some (.ok ()) →
    Transacted s.pages.length log op [0, r.dstEndpoint, r.transId]
  /-- Whoever has a confirmation to show for its outcome took it with a wait of its own. -/
  transacted : ∀ op r b, .called op r ∈ log → t.outcome? op = some (.ok (.payload b)) →
    Transacted s.pages.length log op b
  /-- A frame that a wait takes is the outcome of the operation of this wait. -/
  paid : ∀ depth since f h op, .took depth since f h ∈ log → h.confirmee? = some op →
    f.ConfirmsData ∧ t.outcome? op = some (.ok (.payload f.payload))
  /-- Those who wait stand in the chain in the order in which they were accepted. -/
  order : t.expecting.Sublist (s.expecting ++ accepted log)
  /-- They wait until they are decided. -/
  waiting : ∀ op, op ∈ t.expecting ↔ op ∈ s.expecting ++ accepted log ∧ t.outcome? op = none
  /-- If nothing intervenes the first to wait are the first to be confirmed. Whoever is confirmed
  with its own transaction succeeds. -/
  turns : (∀ sign ∈ log, sign.InTurn (s.expecting ++ accepted log)) →
    s.expecting ++ accepted log = confirmed log ++ t.expecting ∧
    ∀ (n : Nat) op r f, (s.expecting ++ accepted log)[n]? = some op →
      (confirmations log)[n]? = some f → f.payload = [0, r.dstEndpoint, r.transId] →
      t.resolution (.endpoint (.sendData r)) op = some (.ok ())
  /-- The next frame that confirms data is for whoever has waited longest, whatever transaction it
  names. All others stay as they are. -/
  next : ∀ {app}, Lawful (.sole _) app → ∀ f op rest, f.ConfirmsData → app.Ignores f t →
    t.WaitsForAny → t.expecting = op :: rest →
    let u := t.deliver app f
    u.outcome? op = some (.ok (.payload f.payload)) ∧ (∀ i, i ≠ op → u.outcome? i = t.outcome? i) ∧
    u.expecting = rest ∧
    ∀ r,
      (∀ endpoint transaction, f.payload = [0, endpoint, transaction] →
        (endpoint, transaction) ≠ (r.dstEndpoint, r.transId) →
        u.resolution (.endpoint (.sendData r)) op = some (.error .correlation)) ∧
      ∀ status more, f.payload = status :: more → status ≠ 0 →
        u.resolution (.endpoint (.sendData r)) op = some (.error (.status status))

end Session

section Runs

open Session DataSign

variable {θ : Type} {away : List Handler} {owed : List Tracked}
  {s t : Session (θ × List DataSign)} {ws : List Wait}

/-- Confirmations are never credited to the wrong request, in every run of an application that waits
for none itself, and in every part of it, at any depth of dispatches. -/
theorem Written.confirmations_credited (h : Written (.sole _) dataBook s ws t)
    (hs : Sound (.sole _) away owed s) (hsettled : s.Settled) :
    ∃ log, s.CreditsConfirmations t log := by
  have huses := h.uses Licence.open_sole fun _ => trivial
  have ht := huses.keeps (upholds_kept _) away owed hs
  obtain ⟨log, hcredits⟩ := h.credits away owed hs
  refine ⟨log, {
    pages := hcredits.pages
    credited := fun op r hcalled hsuccess => ?_
    transacted := fun op r b hcalled hout => hcredits.transacted hs hcalled hout
    paid := hcredits.paid
    order := hcredits.order
    waiting := fun op =>
      ⟨fun hop => ⟨hcredits.order.subset hop, ht.outcome?_of_mem_expecting hop⟩, ?_⟩
    turns := fun hturn => ⟨hcredits.turns hturn, fun n op r f hop hf hpayload => ?_⟩
    next := fun {app} happ f op rest hconfirms hignores hany hexpecting => ?_ }⟩
  · exact hcredits.transacted hs hcalled (payload_of_success hsuccess)
  · rintro ⟨hop, hnone⟩
    refine (hcredits.bides op hop).resolve_right fun hsome => ?_
    rw [hnone] at hsome
    cases hsome
  · rw [resolution_of_payload (hcredits.confirms_nth hturn hop hf)]
    exact congrArg some (EndpointRequest.read_sendData_eq_ok_iff.2 hpayload)
  · obtain ⟨hout, hothers, hrest⟩ := ht.deliver_confirms_first happ (huses.calm.settled hsettled)
      hignores hany hconfirms hexpecting
    refine ⟨hout, hothers, hrest, fun r => ⟨fun endpoint transaction hpayload hother => ?_,
      fun status more hpayload hstatus => ?_⟩⟩
    · rw [resolution_of_payload hout, hpayload]
      exact congrArg some (EndpointRequest.read_sendData_of_mismatch hother)
    · rw [resolution_of_payload hout, hpayload]
      exact congrArg some (EndpointRequest.read_sendData_of_status hstatus more)

end Runs

/-! ## Two requests -/

/-- Data for an endpoint. -/
def DataRequest.to (endpoint transaction : UInt8) : DataRequest where
  dstAddr := 0x1234
  dstEndpoint := endpoint
  srcEndpoint := 2
  clusterId := 6
  transId := transaction
  options := 0
  radius := 15
  data := [1, 0, 1]

/-- The call that starts the request. -/
def DataRequest.call (r : DataRequest) : Call := .request (.endpoint (.sendData r))

/-- The co-processor accepts the request. -/
def dataAccepted : Frame := ⟨.srsp, ⟨.af, 0x01⟩, [0]⟩

/-- A confirmation that data was sent. -/
def dataConfirmed (payload : Bytes) : Frame := ⟨.areq, EndpointRequest.dataConfirm, payload⟩

/-- A session in which two requests are accepted. -/
def Session.sending : Session (Unit × List DataSign) :=
  [.call (DataRequest.to 1 42).call, .call (DataRequest.to 3 43).call, .deliver dataAccepted,
      .deliver dataAccepted].foldl
    (fun s d => dataBook.perform dataBook.silent d s) (.start {} ((), []))

/-- Then both are confirmed. -/
def Session.sent : Session (Unit × List DataSign) :=
  [.deliver (dataConfirmed [0, 1, 42]), .deliver (dataConfirmed [0, 3, 43])].foldl
    (fun s d => dataBook.perform dataBook.silent d s) .sending

theorem Written.sending : Written (.sole _) dataBook (.start {} ((), [])) [] .sending := by
  refine (Written.refl _).deeds (.silent fun _ => trivial) fun d hd => ?_
  fin_cases hd <;> exact ⟨⟨trivial, trivial⟩, trivial, fun _ => trivial⟩

theorem Written.sent : Written (.sole _) dataBook (.start {} ((), [])) [] .sent := by
  refine Written.sending.deeds (.silent fun _ => trivial) fun d hd => ?_
  fin_cases hd <;> exact ⟨⟨trivial, trivial⟩, trivial, fun _ => trivial⟩

/-- Both requests succeed if their confirmations come in turn. If the one of the second request
comes too early it is for the first, and the second goes on waiting. -/
theorem sent_in_turn :
    DataSign.Transacted 0 Session.sent.pages 0 [0, 1, 42] ∧
    DataSign.Transacted 0 Session.sent.pages 1 [0, 3, 43] ∧
    Session.sent.resolution (.endpoint (.sendData (.to 1 42))) 0 = some (.ok ()) ∧
    Session.sent.resolution (.endpoint (.sendData (.to 3 43))) 1 = some (.ok ()) ∧
    (let u := Session.sending.deliver .silent (dataConfirmed [0, 3, 43])
     u.resolution (.endpoint (.sendData (.to 1 42))) 0 = some (.error .correlation) ∧
      u.outcome? 1 = none ∧ u.expecting = [1]) ∧
    (let u := Session.sending.deliver .silent (dataConfirmed [0xE9, 1, 42])
     u.resolution (.endpoint (.sendData (.to 1 42))) 0 = some (.error (.status 0xE9)) ∧
      u.outcome? 1 = none ∧ u.expecting = [1]) := by
  have hstart := Sound.start (.sole _) {} ((), ([] : List DataSign))
  obtain ⟨log, hsent⟩ := Written.sent.confirmations_credited hstart fun _ => rfl
  obtain ⟨log', hsending⟩ := Written.sending.confirmations_credited hstart fun _ => rfl
  obtain rfl : Session.sent.pages = log := hsent.pages
  obtain ⟨-, hconfirms⟩ := hsent.turns fun sign hsign => by
    fin_cases hsign <;> first | trivial | exact Or.inl rfl
  have hfirst := hconfirms 0 0 (.to 1 42) _ rfl rfl rfl
  have hsecond := hconfirms 1 1 (.to 3 43) _ rfl rfl rfl
  have hlaw : Lawful (.sole (Unit × List DataSign)) .silent := .silent fun _ => trivial
  have hchain : Session.sending.chain = Event.all.map Event.listener ++
      [.wait .dataConfirm 0, .wait .dataConfirm 1] := rfl
  have hnext (payload : Bytes) := hsending.next hlaw (dataConfirmed payload) 0 [1] ⟨rfl, rfl⟩
    (fun callback permanent hmem => by
      rw [hchain] at hmem
      simp [Event.listener] at hmem)
    (fun h hh p hawaits hcommand => by
      rw [hchain] at hh
      rcases List.mem_append.1 hh with hh | hh
      · obtain ⟨e, -, rfl⟩ := List.mem_map.1 hh
        cases hawaits
      · fin_cases hh <;> cases hawaits <;> rfl) rfl
  refine ⟨hsent.credited 0 _ (List.mem_of_getElem? (i := 0) rfl) hfirst,
    hsent.credited 1 _ (List.mem_of_getElem? (i := 1) rfl) hsecond, hfirst, hsecond, ?_, ?_⟩
  · obtain ⟨-, hothers, hrest, hread⟩ := hnext [0, 3, 43]
    exact ⟨(hread (.to 1 42)).1 3 43 rfl (by decide), hothers 1 (by decide), hrest⟩
  · obtain ⟨-, hothers, hrest, hread⟩ := hnext [0xE9, 1, 42]
    exact ⟨(hread (.to 1 42)).2 0xE9 _ rfl (by decide), hothers 1 (by decide), hrest⟩

/-- When its subscriber hears that nodes may join, the application sends data, and has the answer
and the confirmation delivered at once. -/
def Application.hasty : Application (Unit × List DataSign) :=
  dataBook.acting dataBook.silent fun _ _ =>
    [.call (DataRequest.to 3 43).call, .deliver dataAccepted, .deliver (dataConfirmed [0, 3, 43])]

/-- The session of such an application, in which a request is accepted. -/
def Session.overtaking : Session (Unit × List DataSign) :=
  [.subscribe .permitJoin 0, .call (DataRequest.to 1 42).call, .deliver dataAccepted].foldl
    (fun s d => dataBook.perform .hasty d s) (.start {} ((), []))

/-- Then nodes may join. -/
def Session.overtaken : Session (Unit × List DataSign) :=
  dataBook.perform .hasty (.deliver ⟨.areq, Event.permitJoin.command, [60]⟩) .overtaking

theorem Writing.hasty : Writing (.sole _) dataBook .hasty := by
  refine .acting (.silent fun _ => trivial) fun _ _ d hd => ?_
  fin_cases hd <;> exact ⟨⟨trivial, trivial⟩, trivial⟩

theorem Written.overtaken : Written (.sole _) dataBook (.start {} ((), [])) [] .overtaken := by
  have hovertaking : Written (.sole _) dataBook (.start {} ((), [])) [] .overtaking := by
    refine (Written.refl _).deeds .hasty fun d hd => ?_
    fin_cases hd <;> exact ⟨⟨trivial, trivial⟩, trivial, fun _ => trivial⟩
  exact hovertaking.deed .hasty ⟨trivial, trivial⟩ trivial trivial

/-- In the midst of a dispatch a frame goes to whoever came since. So the second request is
confirmed, while the first has waited longer and goes on waiting. -/
theorem confirmed_out_of_turn :
    Written (.sole _) dataBook (.start {} ((), [])) [] .overtaken ∧
    Session.overtaking.expecting = [0] ∧
    DataSign.accepted Session.overtaken.pages = [0, 1] ∧
    DataSign.confirmed Session.overtaken.pages = [1] ∧
    Session.overtaken.resolution (.endpoint (.sendData (.to 3 43))) 1 = some (.ok ()) ∧
    Session.overtaken.outcome? 0 = none ∧ Session.overtaken.expecting = [0] :=
  ⟨.overtaken, rfl, rfl, rfl, rfl, rfl, rfl⟩

end ZigbeeHost
