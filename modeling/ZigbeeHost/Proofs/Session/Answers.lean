import ZigbeeHost.Proofs.Session.Stable
/-!
# What a frame says to a handler

`Handler.Accepts` says which frames a handler takes and `Handler.Gets` what it learns from
one, in terms of the bytes of the frame and without regard to the walk of a chain. A
handler that accepts a frame carries on with what it gets from it
(`Handler.offer_of_accepts`).
-/

namespace ZigbeeHost

variable {η : Type}

/-! ## Notices of rejection -/

theorem Codec.u8_read_nil : u8.read [] = .error (.notEnough 8) := rfl

theorem Codec.u8_read_cons (b : UInt8) (rest : Bytes) : u8.read (b :: rest) = .ok (b, rest) := by
  simp [u8, word, ofLittleEndian]

/-- A notice of rejection is three bytes. -/
theorem RpcErrorInfo.decode_eq_ok_iff {payload : Bytes} {info : RpcErrorInfo} :
    codec.decode payload = .ok info ↔ payload = [info.code, info.packed, info.id] := by
  rcases payload with _ | ⟨code, _ | ⟨packed, _ | ⟨id, _ | ⟨b, rest⟩⟩⟩⟩
  all_goals simp [Codec.decode, codec, layout, Fields.record, Fields.pair, Layout.named,
    Layout.u8, Codec.map, Codec.pair, Codec.u8_read_cons, Codec.u8_read_nil, bind, Except.bind]
  constructor
  · rintro rfl
    exact ⟨rfl, rfl, rfl⟩
  · rintro ⟨rfl, rfl, rfl⟩
    rfl

/-! ## Who accepts a frame, and what it gets -/

/-- The frame rejects a request that one of the commands would answer, with a code. -/
def Rejects (f : Frame) (code : UInt8) (commands : List Command) : Prop :=
  f.command = .rpcError ∧ ∃ packed id, f.payload = [code, packed, id] ∧
    packed >>> 4 = FrameKind.sreq.bits ∧ ⟨.ofBits packed, id⟩ ∈ commands

/-- The handler accepts the frame, with the timers that are armed. -/
def Handler.Accepts (timers : Timers OperationId) (f : Frame) : Handler → Prop
  | response commands _ =>
    f.kind = .srsp ∧ (f.command ∈ commands ∨ ∃ code, Rejects f code commands)
  | wait p _ => f.kind = p.kind ∧ f.command = p.command ∧ p.opening <+: f.payload
  | timed timer inner => timers.active timer = true ∧ inner.Accepts timers f
  | _ => False

/-- What a handler gets from a frame that it accepts. -/
inductive Handler.Gets (f : Frame) : Handler → Except Failure Bytes → Prop
  | answer {commands a} : f.command ∈ commands → Gets f (response commands a) (.ok f.payload)
  | rejection {commands a code} : f.command ∉ commands → Rejects f code commands →
      Gets f (response commands a) (.error (.rpc code))
  | rest {p op rest} : f.payload = p.opening ++ rest → Gets f (wait p op) (.ok rest)
  | timed {timer inner answer} : Gets f inner answer → Gets f (timed timer inner) answer

/-- The operation that a handler has, if what the handler gets is its outcome. -/
def Handler.settles? : Handler → Option OperationId
  | response _ (.settle op) => some op
  | wait _ op => some op
  | timed _ inner => inner.settles?
  | _ => none

/-- A handler carries on with what it got, and takes its timer along. -/
def Handler.carryOn (app : Application η) (answer : Except Failure Bytes) :
    Handler → Session η → Session η × Reply
  | response _ a, s => a.resume app answer s
  | wait _ op, s => (s.complete op (answer.map .payload), {})
  | timed timer inner, s =>
    let (s, reply) := inner.carryOn app answer s
    (s.disarm timer, reply)
  | _, s => (s, {})

/-- A request is rejected by a notice that names one of its commands. -/
theorem rejects_iff {f : Frame} {code : UInt8} {commands : List Command} :
    Rejects f code commands ↔ f.command = .rpcError ∧ ∃ info,
      RpcErrorInfo.codec.decode f.payload = .ok info ∧ info.code = code ∧
        info.kind? = some .sreq ∧ info.command ∈ commands := by
  refine and_congr_right fun _ => ?_
  constructor
  · rintro ⟨packed, id, hpayload, hkind, hmem⟩
    exact ⟨⟨code, packed, id⟩, RpcErrorInfo.decode_eq_ok_iff.2 hpayload, rfl,
      FrameKind.ofBits?_eq_some_iff.2 hkind, hmem⟩
  · rintro ⟨info, hdecode, rfl, hkind, hmem⟩
    exact ⟨info.packed, info.id, RpcErrorInfo.decode_eq_ok_iff.1 hdecode,
      FrameKind.ofBits?_eq_some_iff.1 hkind, hmem⟩

/-- What a frame says to a request, in the words of this module. -/
theorem answer?_eq_some_iff {commands : List Command} {f : Frame}
    {answer : Except Failure Bytes} :
    answer? commands f = some answer ↔
      f.kind = .srsp ∧ (f.command ∈ commands ∧ answer = .ok f.payload ∨
        f.command ∉ commands ∧ ∃ code, Rejects f code commands ∧ answer = .error (.rpc code)) := by
  simp only [rejects_iff]
  unfold answer?
  by_cases hkind : f.kind = .srsp
  · by_cases hmem : f.command ∈ commands
    · simp [hkind, hmem, eq_comm]
    · by_cases hrpc : f.command = .rpcError
      · have hmem' : Command.rpcError ∉ commands := hrpc ▸ hmem
        cases hdecode : RpcErrorInfo.codec.decode f.payload with
        | error e => simp [hkind, hmem', hrpc]
        | ok info => simp [hkind, hmem', hrpc, eq_comm, and_assoc]
      · simp [hkind, hmem, hrpc]
  · simp [hkind]

/-- What a handler gets is the answer to its request. -/
theorem answer?_of_gets {f : Frame} {commands : List Command} {a : Aftermath}
    {answer : Except Failure Bytes} (hkind : f.kind = .srsp)
    (hgets : Handler.Gets f (.response commands a) answer) : answer? commands f = some answer := by
  refine answer?_eq_some_iff.2 ⟨hkind, ?_⟩
  cases hgets with
  | answer hmem => exact Or.inl ⟨hmem, rfl⟩
  | rejection hmem hrejects => exact Or.inr ⟨hmem, _, hrejects, rfl⟩

/-- Whoever awaits an answer takes the frame that it gets one from, and carries on. -/
theorem Handler.offer_of_gets {f : Frame} {commands : List Command} {a : Aftermath}
    {answer : Except Failure Bytes} (hkind : f.kind = .srsp)
    (hgets : Gets f (.response commands a) answer) (app : Application η) (s : Session η) :
    (response commands a).offer app f s = ((a.resume app answer s).1,
      { (a.resume app answer s).2 with verdict := .consume }) := by
  simp only [offer, answer?_of_gets hkind hgets]

/-- A handler that accepts the frame takes it, and carries on with what it gets. -/
theorem Handler.offer_of_accepts {f : Frame} {h : Handler} {s : Session η}
    (hyes : h.Accepts s.timers f) (app : Application η) :
    ∃ answer, h.Gets f answer ∧ h.offer app f s =
      ((h.carryOn app answer s).1,
        { (h.carryOn app answer s).2 with verdict := .consume }) := by
  induction h generalizing s with
  | indication | custom => exact hyes.elim
  | response commands a =>
    obtain ⟨hkind, hanswer⟩ := hyes
    by_cases hmem : f.command ∈ commands
    · exact ⟨_, .answer hmem, offer_of_gets hkind (.answer hmem) app s⟩
    · obtain ⟨code, hrejects⟩ := hanswer.resolve_left hmem
      exact ⟨_, .rejection hmem hrejects, offer_of_gets hkind (.rejection hmem hrejects) app s⟩
  | wait p op =>
    obtain ⟨hkind, hcommand, rest, hrest⟩ := hyes
    have hmatch : p.match? f = some rest := by
      simp [Pattern.match?, hkind, hcommand, ← hrest]
    refine ⟨.ok rest, .rest hrest.symm, ?_⟩
    simp only [offer, hmatch]
    rfl
  | timed id inner ih =>
    obtain ⟨hid, hinner⟩ := hyes
    obtain ⟨answer, hgets, hoffer⟩ := ih hinner
    refine ⟨answer, .timed hgets, ?_⟩
    rw [offer_timed_of_active hid, hoffer]
    rfl

/-- Whoever awaits an answer lets other frames pass. -/
theorem Handler.offer_response_of_not_accepts {f : Frame} {commands : List Command}
    {a : Aftermath} {s : Session η} (hno : ¬(response commands a).Accepts s.timers f)
    (app : Application η) : (response commands a).offer app f s = (s, {}) := by
  cases hanswer : answer? commands f with
  | some answer =>
    refine absurd ?_ hno
    obtain ⟨hkind, ⟨hmem, -⟩ | ⟨-, code, hrejects, -⟩⟩ := answer?_eq_some_iff.1 hanswer
    · exact ⟨hkind, Or.inl hmem⟩
    · exact ⟨hkind, Or.inr ⟨code, hrejects⟩⟩
  | none => simp only [offer, hanswer]

/-- A wait lets a frame pass that it does not accept. -/
theorem Handler.offer_wait_of_not_accepts {f : Frame} {p : Pattern} {op : OperationId}
    {s : Session η} (hno : ¬(wait p op).Accepts s.timers f) (app : Application η) :
    (wait p op).offer app f s = (s, {}) := by
  have hmatch : p.match? f = none := by
    refine if_neg fun hmatch => hno ?_
    exact ⟨hmatch.1, hmatch.2.1, List.isPrefixOf_iff_prefix.1 hmatch.2.2⟩
  simp only [offer, hmatch]

/-- The handler that takes the frame, if one does. -/
def Session.taker? (app : Application η) (f : Frame) (s : Session η) : Option Handler :=
  Chain.taker? (turn app f) s.chain (s.enter, [], [])

/-- If those in front of it let the frame pass, a handler that accepts it takes it. -/
theorem Session.walk_of_accepts {app : Application η} {f : Frame} {s u : Session η}
    {before behind left : List Handler} {h : Handler} {waits : List Wait}
    {tracked : List Tracked} (hchain : s.chain = before ++ h :: behind)
    (hpassed : Chain.dispatch (turn app f) before (s.enter, [], []) =
      (left, (u, waits, tracked), false))
    (hyes : h.Accepts u.timers f) :
    s.taker? app f = some h ∧ ∃ answer, h.Gets f answer ∧
      s.enter.walk app f s.chain =
        (left ++ behind, ((h.carryOn app answer u).1, waits ++ (h.carryOn app answer u).2.waits,
          tracked ++ (h.carryOn app answer u).2.tracked), true) := by
  obtain ⟨answer, hgets, hoffer⟩ := Handler.offer_of_accepts hyes app
  have hturn : turn app f h (u, waits, tracked) =
      (((h.carryOn app answer u).1, waits ++ (h.carryOn app answer u).2.waits,
        tracked ++ (h.carryOn app answer u).2.tracked), .consume) := by
    simp only [turn, hoffer]
  have hstop : (turn app f h (u, waits, tracked)).2.stop = true := by
    rw [hturn]
    rfl
  have hgoes : (Chain.dispatch (turn app f) before (s.enter, [], [])).2.2 = false := by
    rw [hpassed]
  refine ⟨?_, answer, hgets, ?_⟩
  · rw [taker?, hchain, Chain.taker?_append before _ _ hgoes, hpassed]
    exact Chain.taker?_cons_of_stop behind hstop
  · rw [walk_eq, hchain, Chain.dispatch_append before _ _ hgoes, hpassed,
      Chain.dispatch_cons_of_stop behind hstop, hturn]
    rfl

end ZigbeeHost
