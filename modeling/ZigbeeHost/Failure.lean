import ZigbeeHost.Payload.Device
/-!
# Why operations fail

A `Failure` is a cause, and `message` puts it into words. Failures of the serial line
are a type of their own : `TransportFailure.fatal` tells those after which the line
cannot be trusted any more.
-/

namespace ZigbeeHost

/-! ## The serial line -/

/-- Why bytes are no frame, or a frame cannot be written. -/
inductive FrameFault where
  | tooSmall
  | badLength
  | badChecksum
  | unknownKind
  | payloadTooLong
  /-- A fault that a scripted line injects. -/
  | scripted
  deriving DecidableEq

/-- What is wrong with the frame, in words. -/
def FrameFault.message : FrameFault → String
  | tooSmall => "Frame too small"
  | badLength => "Bad frame length"
  | badChecksum => "Bad FCS"
  | unknownKind => "Unknown command type"
  | payloadTooLong => "Payload too long"
  | scripted => "scripted"

/-- Why a transfer over the serial line failed. -/
inductive TransportFailure where
  | other (text : String)
  | wouldBlock
  | bufferNotEmpty
  | unexpectedEof
  | invalidFrame (fault : FrameFault)
  deriving DecidableEq

/-- The reports of an operating system that matter to a transfer. -/
inductive DeviceReport where
  | wouldBlock
  | timedOut
  | unexpectedEof
  | other
  deriving DecidableEq

namespace TransportFailure

/-- The failure in words. -/
def message : TransportFailure → String
  | other text => text
  | wouldBlock => "Would block"
  | bufferNotEmpty => "Buffer not empty"
  | unexpectedEof => "Unexpected Eof"
  | invalidFrame fault => "Invalid frame: " ++ fault.message

/-- The line cannot be trusted any more. -/
def fatal : TransportFailure → Bool
  | unexpectedEof => true
  | _ => false

/-- A report that nothing is ready is no failure of the line, however it is worded; a
report without a meaning of its own keeps its text. -/
def ofReport (report : DeviceReport) (text : String) : TransportFailure :=
  match report with
  | .wouldBlock | .timedOut => wouldBlock
  | .unexpectedEof => unexpectedEof
  | .other => other text

end TransportFailure

/-! ## Operations -/

/-- What an answer echoed that the request did not ask for. -/
inductive Mismatch where
  | configurationOption
  | deviceInfo
  | group
  deriving DecidableEq

/-- What does not match, in words. -/
def Mismatch.message : Mismatch → String
  | configurationOption => "Read configuration returned wrong option"
  | deviceInfo => "Wrong DeviceInfo returned"
  | group => "Received GroupID did not match requested GroupID"

/-- Why an operation failed. -/
inductive Failure where
  | transport (failure : TransportFailure)
  | decode (failure : DecodeFailure)
  /-- Bytes are left after the value. -/
  | trailingBytes (count : Nat)
  /-- The co-processor rejected the request. -/
  | rpc (code : UInt8)
  | status (value : UInt8)
  | emptyResponse
  /-- Bytes follow a status that should stand alone. -/
  | unexpectedData (count : Nat)
  | mismatch (what : Mismatch)
  /-- A data confirmation for another transaction. -/
  | correlation
  | timeout
  | invalidState (state : DeviceState)
  | groupNameTooLong (bytes : Nat)
  | payloadTooLong (bytes : Nat)
  | noResponseCommands
  | shutdown (reason : String)
  deriving DecidableEq

namespace Failure

/-- The failure in words. -/
def message : Failure → String
  | transport failure => "Transport: " ++ failure.message
  | decode failure => "Decode: " ++ failure.message
  | trailingBytes count => s!"{count} unexpected trailing bytes"
  | rpc code => s!"RPC Error: {code}"
  | status s => s!"ZNP Status was not success (0x{hex 2 s.toNat})"
  | emptyResponse => "Empty response received"
  | unexpectedData count => s!"Empty response after status expected, got {count} bytes"
  | mismatch what => what.message
  | correlation => "AF_DATA_REQUEST & AF_DATA_CONFIRM synchronization mismatch"
  | timeout => "Timeout"
  | invalidState state => "Non-allowed state reached: " ++ state.name
  | groupNameTooLong bytes => s!"Group name is too long ({bytes} bytes)"
  | payloadTooLong bytes => s!"Payload is too long ({bytes} bytes)"
  | noResponseCommands => "No response commands given"
  | shutdown reason => "Shutdown: " ++ reason

/-- The message of the failure underneath, if there is one. -/
def cause? : Failure → Option String
  | transport failure => some failure.message
  | decode failure => some failure.message
  | _ => none

/-- The failure, followed by the one underneath. -/
def fullMessage (f : Failure) : String :=
  ": ".intercalate (f.message :: f.cause?.toList)

/-- The failure with all that is underneath, behind a heading. -/
def under (heading : String) (f : Failure) : String := heading ++ ": " ++ f.fullMessage

/-- Nobody is left who could complete the operation. -/
def dropped : Failure := shutdown "operation dropped"

end Failure

/-! ## Whole values -/

namespace Codec

variable {α : Type}

/-- Reads a value that fills `bytes`. -/
def decode (c : Codec α) (bytes : Bytes) : Except Failure α :=
  match c.read bytes with
  | .error e => .error (.decode e)
  | .ok (v, []) => .ok v
  | .ok (_, b :: rest) => .error (.trailingBytes (b :: rest).length)

/-- Reads a value from the start of `bytes`, whatever follows. -/
def decodeStart (c : Codec α) (bytes : Bytes) : Except Failure α :=
  match c.read bytes with
  | .error e => .error (.decode e)
  | .ok (v, _) => .ok v

end Codec

/-! ## Statuses -/

/-- The status that reports success. -/
def statusSuccess : UInt8 := 0

/-- What follows a leading status of success. -/
def checkStatus : (response : Bytes) → Except Failure Bytes
  | [] => .error .emptyResponse
  | status :: rest => if status = statusSuccess then .ok rest else .error (.status status)

/-- A status of success and nothing else. -/
def checkOnlyStatus (response : Bytes) : Except Failure Unit := do
  let rest ← checkStatus response
  if rest.isEmpty then .ok () else .error (.unexpectedData rest.length)

end ZigbeeHost
