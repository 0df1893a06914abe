import ZigbeeHost.Request
import ZigbeeHost.Bytes.Hex
/-!
# Bringing a network up

`BringUp` takes a device through a fixed sequence of calls : reset, liveness, versions
and state; then, if the configuration asks for it, it starts the coordinator and waits
for it, and permits joining. Each call is made when the one before it has succeeded. A
failure ends the sequence, except that of the last call, which is only noted.

On the way it notes what it finds out, and what the network reports by itself.
-/

namespace ZigbeeHost

/-! ## Notes -/

/-- How much a line of the record matters. -/
inductive Level where
  | info
  | warn
  deriving DecidableEq

/-- A line for the person who brings the network up. -/
structure Note where
  level : Level := .info
  text : String
  deriving DecidableEq

/-- What is noted of a report of the network. Resets are not : the bring-up notes the one
that it asked for. -/
def Indication.narration? : Indication → Option String
  | .reset _ => none
  | .stateChange state => some ("Device state: " ++ state.name)
  | .endDeviceAnnounce d => some ("Device announce: " ++ device d.nwkAddr d.ieeeAddr)
  | .trustCenterDevice d => some ("Trust center device: " ++ d.describe)
  | .permitJoin p => some s!"Permit join: {p.duration}s"
  | .leave d => some ("Device left: " ++ device d.srcAddr d.extAddr)
  | .nodeDescriptor d => some ("Node descriptor: " ++ d.describe)
  | .activeEndpoints e => some ("Active endpoints: " ++ e.describe)
  | .simpleDescriptor d => some ("Simple descriptor: " ++ d.describe)
  | .commissioning n => some ("Commissioning: " ++ n.describe)
  | .incomingMsg m =>
    some (s!"Message from {short m.srcAddr}/{m.srcEndpoint} cluster {short m.clusterId}: "
      ++ m.data.toHex)
where
  short (address : UInt16) : String := "0x" ++ upperHex 4 address.toNat
  device (address : ShortAddress) (ieee : IeeeAddress) : String :=
    short address ++ " " ++ upperHex 16 ieee.toNat

/-! ## The sequence -/

/-- The calls of the sequence. -/
inductive BringUpStep where
  | reset
  | ping
  | version
  | state
  | startup
  | coordinator
  | permitJoin (duration : UInt8)
  deriving DecidableEq

/-- How far a bring-up is. -/
inductive BringUp where
  | ready
  | waiting (step : BringUpStep) (operation : OperationId)
  /-- The sequence is done; there is nothing left to wait for. -/
  | up
  | failed (message : String)
  deriving DecidableEq

namespace BringUpStep

/-- The states that a coordinator goes through while it starts. -/
def startingStates : List DeviceState := [.hold, .init, .nwkDisc, .nwkJoining, .coordStarting]

/-- The call of a step. -/
def call (config : ToolConfig) : BringUpStep → Call
  | reset => .reset config.softReset
  | ping => .request (.system .ping)
  | version => .request (.system .version)
  | state => .request (.configuration (.infoItem .deviceState))
  | startup => .request (.network (.startup 100))
  | coordinator => .reachState [.zbCoord] startingStates
  | permitJoin duration => .request (.network (.permitJoin .shortAddress 0 duration 0))

/-- The step after the device is up : joining is permitted if the configuration says so. -/
def last? (config : ToolConfig) : Option BringUpStep := config.permitJoin.map permitJoin

/-- What follows from the outcome of a step : the message of the failure that ends the
sequence, or a note and the next step, if there is one. -/
def next (config : ToolConfig) (step : BringUpStep) (outcome : Except Failure Outcome) :
    Except String (Note × Option BringUpStep) :=
  match step with
  | reset =>
    match (outcome.bind (reset.call config).read : Except Failure ResetInfo) with
    | .error e => .error (e.under "Reset failed")
    | .ok info => .ok ({ text := "Reset: " ++ info.display }, some ping)
  | ping =>
    match (outcome.bind (ping.call config).read : Except Failure Capability) with
    | .error e => .error (e.under "Ping failed")
    | .ok found => .ok ({ text := "Capabilities: " ++ found.display }, some version)
  | version =>
    match (outcome.bind (version.call config).read : Except Failure VersionInfo) with
    | .error e => .error (e.under "Version query failed")
    | .ok found => .ok ({ text := "Version: " ++ found.display }, some state)
  | state =>
    match (outcome.bind (state.call config).read : Except Failure DeviceState) with
    | .error e => .error e.fullMessage
    | .ok found =>
      let wait := config.waitForCoordinator && found != .zbCoord
      .ok ({ text := "Current state: " ++ found.name },
        if wait then some startup else last? config)
  | startup =>
    match (outcome.bind (startup.call config).read : Except Failure StartupOutcome) with
    | .error e => .error e.fullMessage
    | .ok found => .ok ({ text := "Startup: " ++ found.name }, some coordinator)
  | coordinator =>
    match (outcome.bind (coordinator.call config).read : Except Failure DeviceState) with
    | .error e => .error (e.under "Coordinator did not start")
    | .ok reached => .ok ({ text := "Network up: " ++ reached.name }, last? config)
  | permitJoin duration =>
    match (outcome.bind ((permitJoin duration).call config).read : Except Failure ShortAddress) with
    | .error e => .ok ({ level := .warn, text := "Permit join failed: " ++ e.message }, none)
    | .ok _ => .ok ({ text := s!"Joining permitted for {duration}s" }, none)

end BringUpStep

namespace BringUp

variable {η : Type}

/-- Subscribes the callback that takes notes to all events but resets. -/
def narrate (narrator : CallbackId) (s : Session η) : Session η :=
  (Event.all.filter (· ≠ .reset)).foldl
    (fun s event => (s.subscribe event (.application narrator)).2) s

/-- Makes the call of a step. -/
def make (config : ToolConfig) (step : BringUpStep) (s : Session η) : BringUp × Session η :=
  match s.call (step.call config) with
  | (.ok op, s) => (waiting step op, s)
  | (.error e, s) => (failed e.fullMessage, s)

/-- Goes on as far as possible : starts the sequence, or takes the outcome of the call
under way, if it is decided. -/
def poll (config : ToolConfig) (narrator : CallbackId) (b : BringUp) (s : Session η) :
    BringUp × Session η × List Note :=
  match b with
  | ready =>
    let (b, s) := make config .reset (narrate narrator s)
    (b, s, [])
  | waiting step op =>
    match s.outcome? op with
    | none => (b, s, [])
    | some outcome =>
      match step.next config outcome with
      | .error message => (failed message, s, [])
      | .ok (note, none) => (up, s, [note])
      | .ok (note, some step) =>
        let (b, s) := make config step s
        (b, s, [note])
  | b => (b, s, [])

end BringUp

end ZigbeeHost
