import ZigbeeHost.Session.Emission
/-!
# Dispatch and teardown

`deliver` offers a frame to the handlers of a session. The chain is out of the session
while it is walked; handlers that are added meanwhile, by requests or nested deliveries,
go behind those that were walked. Waits that the walk asked for are installed at its end,
at the time it is then.

`shutdown` fails every operation under way and keeps the permanent handlers and the
subscriptions of the application. Asked for while a frame is dispatched, it takes effect
when the outermost dispatch is done, with the first failure that was given.
-/

namespace ZigbeeHost

/-! ## Offering a frame to one handler -/

/-- What a frame says to a request that accepts the answers `accepted` : the payload of
an answer, or the code with which the co-processor rejected the request. -/
def answer? (accepted : List Command) (f : Frame) : Option (Except Failure Bytes) :=
  if f.kind ≠ .srsp then none
  else if f.command ∈ accepted then some (.ok f.payload)
  else if f.command = .rpcError then
    match RpcErrorInfo.codec.decode f.payload with
    | .ok info =>
      if info.kind? = some .sreq ∧ info.command ∈ accepted then some (.error (.rpc info.code))
      else none
    | .error _ => none
  else none

/-- The value of the item `info` in the answer to a question about the device; the
answer echoes the item in front. -/
def deviceInfoValue (info : UInt8) : (response : Bytes) → Except Failure Bytes
  | [] => .error .emptyResponse
  | id :: value => if id = info then .ok value else .error (.mismatch .deviceInfo)

/-- The item of a device's information that tells its state. -/
def deviceStateInfo : UInt8 := 0

variable {η : Type}

/-- Carries on with the answer to a request. -/
def Aftermath.resume (app : Application η) (answer : Except Failure Bytes) (s : Session η) :
    Aftermath → Session η × Reply
  | settle op => (s.complete op (answer.map .payload), {})
  | confirm c op =>
    match answer.bind checkOnlyStatus with
    | .ok () => (s, { waits := [⟨⟨.areq, c.command, c.opening⟩, c.window, op⟩] })
    | .error e => (s.complete op (.error e), {})
  | follow ends allowed op =>
    match answer.bind (deviceInfoValue deviceStateInfo) >>= DeviceState.codec.decodeStart with
    | .error e => (s.complete op (.error e), {})
    | .ok state =>
      if state ∈ ends then (s.complete op (.ok (.state state)), {})
      else if state ∉ allowed then (s.complete op (.error (.invalidState state)), {})
      else
        let (connection, s) := s.subscribe .stateChange (.watcher (.decisiveState ends allowed) op)
        (s, { tracked := [⟨connection, op⟩] })
  | application callback => app.answered callback answer s

/-- Drops the waits that a reply asks for : nobody is left to complete their operations. -/
def Reply.drop (r : Reply) (s : Session η) : Session η :=
  r.waits.foldl (fun s w => s.complete w.operation (.error .dropped)) s

/-- Carries on with the failure that ended a request. What it asks for to be installed
goes nowhere. -/
def Aftermath.abort (app : Application η) (e : Failure) (s : Session η) (a : Aftermath) :
    Session η :=
  let (s, reply) := a.resume app (.error e) s
  reply.drop s

/-- Offers a frame to a handler. -/
def Handler.offer (app : Application η) (f : Frame) : Handler → Session η → Session η × Reply
  | indication kind command event lenient, s =>
    if f.kind = kind ∧ f.command = command then
      match event.read lenient f.payload with
      | .ok i => (s.emit app i, { verdict := .handled })
      | .error _ => (s, {})
    else (s, {})
  | response accepted aftermath, s =>
    match answer? accepted f with
    | some answer =>
      let (s, reply) := aftermath.resume app answer s
      (s, { reply with verdict := .consume })
    | none => (s, {})
  | wait pattern op, s =>
    match pattern.match? f with
    | some rest => (s.complete op (.ok (.payload rest)), { verdict := .consume })
    | none => (s, {})
  | timed timer inner, s =>
    if s.timers.active timer then
      let (s, reply) := inner.offer app f s
      (if reply.verdict.remove then s.disarm timer else s, reply)
    else (s, { verdict := .evict })
  | custom callback _, s => app.offer callback f s

/-- Aborts a handler. A timed one whose timer has fired is no longer concerned. -/
def Handler.abort (app : Application η) (e : Failure) : Handler → Session η → Session η
  | indication .., s => s
  | response _ aftermath, s => aftermath.abort app e s
  | wait _ op, s => s.complete op (.error e)
  | timed timer inner, s =>
    if s.timers.active timer then inner.abort app e (s.disarm timer) else s
  | custom callback _, s => app.abort callback e s

namespace Session

/-! ## Teardown -/

/-- Puts handlers back in front of those that were added while they were out. -/
def restore (chain : List Handler) (s : Session η) : Session η :=
  { s with chain := chain ++ s.chain }

/-- Fails a tracked operation. -/
def abortTracked (e : Failure) (s : Session η) (t : Tracked) : Session η :=
  (s.disconnect t.connection).complete t.operation (.error e)

/-- Fails every operation under way. -/
def tearDown (app : Application η) (e : Failure) (s : Session η) : Session η :=
  let cleared := { s with chain := [], tracked := [], outbound := [] }
  let (kept, drained) := Chain.drain Handler.permanent (Handler.abort app e) s.chain cleared
  (s.tracked.foldl (abortTracked e) drained).restore kept

/-- Fails every operation under way, at once or when the dispatches are done. -/
def shutdown (app : Application η) (e : Failure) (s : Session η) : Session η :=
  if s.depth = 0 then s.tearDown app e else { s with deferred := s.deferred <|> some e }

/-! ## Dispatch -/

/-- Offers a frame to the handlers of `chain`, and collects the waits and the tracked
operations that they ask for. -/
def walk (app : Application η) (f : Frame) (chain : List Handler) (s : Session η) :
    List Handler × (Session η × List Wait × List Tracked) × Bool :=
  Chain.dispatch
    (fun h (s, waits, tracked) =>
      let (s, reply) := h.offer app f s
      ((s, waits ++ reply.waits, tracked ++ reply.tracked), reply.verdict))
    chain (s, [], [])

/-- A session whose chain is out to be walked. -/
def enter (s : Session η) : Session η := { s with chain := [], depth := s.depth + 1 }

/-- A session whose chain is back, with what the walk asked for. -/
def leave (chain : List Handler) (waits : List Wait) (tracked : List Tracked)
    (s : Session η) : Session η :=
  let back := { s.restore chain with depth := s.depth - 1 }
  tracked.foldl (fun s t => s.track t) (waits.foldl (fun s w => s.install w) back)

/-- Runs a deferred teardown, unless a dispatch is still under way. -/
def settleDeferred (app : Application η) (s : Session η) : Session η :=
  match s.depth, s.deferred with
  | 0, some e => { s with deferred := none }.shutdown app e
  | _, _ => s

/-- The session at the end of a dispatch, before a teardown that was deferred to it. -/
def dispatched (app : Application η) (f : Frame) (s : Session η) : Session η :=
  let (chain, (walked, waits, tracked), _) := walk app f s.chain s.enter
  walked.leave chain waits tracked

/-- Offers a frame to the handlers of the session. -/
def deliver (app : Application η) (f : Frame) (s : Session η) : Session η :=
  let (chain, (walked, waits, tracked), _) := walk app f s.chain s.enter
  (walked.leave chain waits tracked).settleDeferred app

end Session

end ZigbeeHost
