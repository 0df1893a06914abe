import ZigbeeHost.Session.Basic
/-!
# Exchanges

Every request is an exchange : a synchronous request frame, answered by one of a few
commands, and for some requests confirmed by a later frame. An exchange that cannot be
carried out is refused before anything is sent.
-/

namespace ZigbeeHost

/-- What a request sends, and what answers and confirms it. -/
structure Exchange where
  command : Command
  /-- The commands that may answer. -/
  responses : List Command
  payload : Bytes := []
  /-- The confirmation, if an answer of success is not yet the end. -/
  confirmation : Option Confirmation := none
  deriving DecidableEq

namespace Exchange

/-- An exchange answered by the command that asks. -/
def simple (command : Command) (payload : Bytes) : Exchange :=
  { command, responses := [command], payload }

/-- An exchange that is answered by the command that asks, and confirmed. -/
def confirmed (command : Command) (payload : Bytes) (confirmation : Confirmation) : Exchange :=
  { command, responses := [command], payload, confirmation := some confirmation }

/-- Why the exchange is refused : nothing could answer it, or no frame can carry it. -/
def refusal? (x : Exchange) : Option Failure :=
  if x.responses.isEmpty then some .noResponseCommands
  else if x.payload.length > maxPayloadLength then some (.payloadTooLong x.payload.length)
  else none

/-- The frame that asks. -/
def frame (x : Exchange) : Frame := ⟨.sreq, x.command, x.payload⟩

/-- What becomes of the operation when the request is answered. -/
def aftermath (x : Exchange) (op : OperationId) : Aftermath :=
  match x.confirmation with
  | none => .settle op
  | some c => .confirm c op

end Exchange

/-- The address that a confirmation concerns, if its status is success. -/
def addressOfConfirmation (response : Bytes) : Except Failure ShortAddress := do
  let reply ← AddressStatus.codec.decode response
  if reply.status = statusSuccess then .ok reply.address else .error (.status reply.status)

end ZigbeeHost
