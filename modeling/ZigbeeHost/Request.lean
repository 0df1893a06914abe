import ZigbeeHost.Request.System
import ZigbeeHost.Request.Endpoint
import ZigbeeHost.Request.Network
import ZigbeeHost.Request.Configuration
import ZigbeeHost.Request.Lookup
import ZigbeeHost.Request.Commissioning
/-!
# Requests and calls

A `Request` is a request of one of the subsystems, or a bare exchange whose answer is
taken as bytes. Its `exchange` says what goes over the line, and `read` what the answer
means.

A `Call` is anything that an application can ask of a session : a request, a reset, a
wait for a state of the device, or a wait for a frame. `Session.call` starts it, and
`Call.read` turns the outcome of its operation into the answer.
-/

namespace ZigbeeHost

/-! ## Requests -/

/-- A request to the co-processor. -/
inductive Request where
  | system (r : SystemRequest)
  | endpoint (r : EndpointRequest)
  | network (r : NetworkRequest)
  | configuration (r : ConfigurationRequest)
  | lookup (r : LookupRequest)
  | commissioning (r : CommissioningRequest)
  /-- An exchange whose answer, or confirmation, is taken as bytes. -/
  | bare (x : Exchange)

namespace Request

/-- What goes over the line, unless the request is refused. -/
def exchange (config : SessionConfig) : Request → Except Failure Exchange
  | system r => .ok r.exchange
  | endpoint r => .ok (r.exchange config)
  | network r => r.exchange config
  | configuration r => .ok r.exchange
  | lookup r => .ok r.exchange
  | commissioning r => .ok r.exchange
  | bare x => .ok x

/-- What the request yields. -/
abbrev Answer : Request → Type
  | system r => r.Answer
  | endpoint r => r.Answer
  | network r => r.Answer
  | configuration r => r.Answer
  | lookup r => r.Answer
  | commissioning r => r.Answer
  | bare _ => Bytes

/-- Reads the answer, or the confirmation where there is one. -/
def read : (r : Request) → Bytes → Except Failure r.Answer
  | system r, b => r.read b
  | endpoint r, b => r.read b
  | network r, b => r.read b
  | configuration r, b => r.read b
  | lookup r, b => r.read b
  | commissioning r, b => r.read b
  | bare _, b => .ok b

end Request

/-! ## Calls -/

/-- Anything that an application can ask of a session. -/
inductive Call where
  | request (r : Request)
  /-- Resets the device; the next reset that it reports is the answer. -/
  | reset (soft : Bool)
  /-- Waits until the device is in a state of `ends`, as long as all states before are in
  `allowed`. -/
  | reachState (ends allowed : List DeviceState)
  /-- Waits for a frame; the answer is what follows the opening of its payload. -/
  | waitFor (pattern : Pattern) (window : Option Nat)

namespace Call

/-- What the call yields. -/
abbrev Answer : Call → Type
  | request r => r.Answer
  | reset _ => ResetInfo
  | reachState .. => DeviceState
  | waitFor .. => Bytes

/-- Reads the answer from the outcome of the call's operation. An outcome of another kind
than the call waits for answers nothing. -/
def read : (c : Call) → Outcome → Except Failure c.Answer
  | request r, .payload b => r.read b
  | reset _, .reset info => .ok info
  | reachState .., .state state => .ok state
  | waitFor .., .payload b => .ok b
  | _, _ => .error .emptyResponse

end Call

namespace Session

variable {η : Type}

/-- Starts an exchange : the handler for its answer goes behind all others, and the
frame behind all frames. Nothing changes if the exchange is refused. -/
def exchange (x : Exchange) (s : Session η) : Except Failure OperationId × Session η :=
  match x.refusal? with
  | some e => (.error e, s)
  | none =>
    let (op, s) := s.issue
    (.ok op, (s.addHandler (.response x.responses (x.aftermath op))).send x.frame)

/-- Starts an exchange whose answer the application takes; the answer is why it was
refused, if it was. -/
def ask (x : Exchange) (callback : CallbackId) (s : Session η) : Option Failure × Session η :=
  match x.refusal? with
  | some e => (some e, s)
  | none => (none, (s.addHandler (.response x.responses (.application callback))).send x.frame)

/-- Starts a request. -/
def request (r : Request) (s : Session η) : Except Failure OperationId × Session η :=
  match r.exchange s.config with
  | .error e => (.error e, s)
  | .ok x => s.exchange x

/-- Resets the device. The subscriber for the reset that it will report is tracked at
once. -/
def reset (soft : Bool) (s : Session η) : OperationId × Session η :=
  let (op, s) := s.issue
  let (connection, s) := s.subscribe .reset (.watcher .nextReset op)
  (op, (s.track ⟨connection, op⟩).send ⟨.areq, ⟨.sys, 0x00⟩, Codec.flag.write soft⟩)

/-- Asks for the state of the device and follows it from there. -/
def reachState (ends allowed : List DeviceState) (s : Session η) : OperationId × Session η :=
  let (op, s) := s.issue
  let ask := ConfigurationRequest.infoItem .deviceState
  let handler := Handler.response [ask.command] (.follow ends allowed op)
  (op, (s.addHandler handler).send ask.exchange.frame)

/-- Waits for a frame. The window opens now. -/
def waitFor (pattern : Pattern) (window : Option Nat) (s : Session η) :
    OperationId × Session η :=
  let (op, s) := s.issue
  (op, s.install ⟨pattern, window, op⟩)

/-- Starts a call : its operation, or the failure that refused it. -/
def call (c : Call) (s : Session η) : Except Failure OperationId × Session η :=
  match c with
  | .request r => s.request r
  | .reset soft => let (op, s) := s.reset soft; (.ok op, s)
  | .reachState ends allowed => let (op, s) := s.reachState ends allowed; (.ok op, s)
  | .waitFor pattern window => let (op, s) := s.waitFor pattern window; (.ok op, s)

end Session

end ZigbeeHost
