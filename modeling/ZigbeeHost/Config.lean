/-!
# Configuration

The windows of a session and the wishes of the bring-up tool, with their defaults.
Windows are configured in seconds; a window of zero seconds never closes.
-/

namespace ZigbeeHost

/-- How long a session waits for confirmations, and how it paces its link. -/
structure SessionConfig where
  /-- Window for the confirmations of bindings. -/
  zdoTimeoutSecs : UInt64 := 15
  /-- Window for the confirmation of application data; none never closes. -/
  dataConfirmTimeoutSecs : Option UInt64 := none
  pollIntervalMs : UInt64 := 1
  deriving DecidableEq

namespace SessionConfig

/-- A number of seconds in milliseconds; zero stands for no limit. -/
def window? (secs : UInt64) : Option Nat :=
  if secs = 0 then none else some (1000 * secs.toNat)

/-- The window for the confirmations of bindings, in milliseconds. -/
def zdoTimeout? (c : SessionConfig) : Option Nat := window? c.zdoTimeoutSecs

/-- The window for the confirmation of application data, in milliseconds. -/
def dataConfirmTimeout? (c : SessionConfig) : Option Nat :=
  c.dataConfirmTimeoutSecs.bind window?

/-- The pause of an idle link, in milliseconds. -/
def pollInterval (c : SessionConfig) : Nat := c.pollIntervalMs.toNat

end SessionConfig

/-- What the bring-up tool connects to, and how it leaves the network. -/
structure ToolConfig where
  device : String
  baudRate : UInt32 := 115200
  log : String := "info"
  softReset : Bool := false
  waitForCoordinator : Bool := false
  /-- For how many seconds devices may join; zero closes the network. -/
  permitJoin : Option UInt8 := none
  session : SessionConfig := {}
  deriving DecidableEq

end ZigbeeHost
