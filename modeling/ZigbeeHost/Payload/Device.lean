import ZigbeeHost.Payload.Layout
/-!
# What a device reports about itself

Reset information, versions, capabilities and the states that a device goes through.
Each type has its `layout`, with the bytes alone as `codec`; an enumeration has the list
`all` of its alternatives with the number `id` and the `name` of each.
-/

namespace ZigbeeHost

/-! ## Enumerations -/

/-- Why a device was reset. -/
inductive ResetReason where
  | powerUp
  | external
  | watchdog
  deriving DecidableEq

namespace ResetReason

/-- All reasons, in the order of their numbers. -/
def all : List ResetReason := [powerUp, external, watchdog]

/-- The number of a reason on the wire. -/
def id : ResetReason → UInt8
  | powerUp => 0
  | external => 1
  | watchdog => 2

/-- The name of a reason. -/
def name : ResetReason → String
  | powerUp => "PowerUp"
  | external => "External"
  | watchdog => "Watchdog"

/-- One byte, presented by name. -/
def layout : Layout ResetReason := .enumeration "ResetReason" all id name

/-- The byte alone. -/
def codec : Codec ResetReason := layout.toCodec

end ResetReason

/-- The state of a device in its network. -/
inductive DeviceState where
  | hold
  | init
  | nwkDisc
  | nwkJoining
  | nwkRejoin
  | endDeviceUnauth
  | endDevice
  | router
  | coordStarting
  | zbCoord
  | nwkOrphan
  deriving DecidableEq

namespace DeviceState

/-- All states, in the order of their numbers. -/
def all : List DeviceState :=
  [hold, init, nwkDisc, nwkJoining, nwkRejoin, endDeviceUnauth, endDevice, router,
    coordStarting, zbCoord, nwkOrphan]

/-- The number of a state on the wire. -/
def id : DeviceState → UInt8
  | hold => 0
  | init => 1
  | nwkDisc => 2
  | nwkJoining => 3
  | nwkRejoin => 4
  | endDeviceUnauth => 5
  | endDevice => 6
  | router => 7
  | coordStarting => 8
  | zbCoord => 9
  | nwkOrphan => 10

/-- The name of a state. -/
def name : DeviceState → String
  | hold => "Hold"
  | init => "Init"
  | nwkDisc => "NwkDisc"
  | nwkJoining => "NwkJoining"
  | nwkRejoin => "NwkRejoin"
  | endDeviceUnauth => "EndDeviceUnauth"
  | endDevice => "EndDevice"
  | router => "Router"
  | coordStarting => "CoordStarting"
  | zbCoord => "ZbCoord"
  | nwkOrphan => "NwkOrphan"

/-- One byte, presented by name. -/
def layout : Layout DeviceState := .enumeration "DeviceState" all id name

/-- The byte alone. -/
def codec : Codec DeviceState := layout.toCodec

end DeviceState

/-- The role that a device is configured for. -/
inductive LogicalType where
  | coordinator
  | router
  | endDevice
  deriving DecidableEq

namespace LogicalType

/-- All roles, in the order of their numbers. -/
def all : List LogicalType := [coordinator, router, endDevice]

/-- The number of a role on the wire. -/
def id : LogicalType → UInt8
  | coordinator => 0
  | router => 1
  | endDevice => 2

/-- The name of a role. -/
def name : LogicalType → String
  | coordinator => "Coordinator"
  | router => "Router"
  | endDevice => "EndDevice"

/-- One byte, presented by name. -/
def layout : Layout LogicalType := .enumeration "LogicalType" all id name

/-- The byte alone. -/
def codec : Codec LogicalType := layout.toCodec

end LogicalType

/-- How fast an endpoint needs to be reached. -/
inductive Latency where
  | noLatency
  | fastBeacons
  | slowBeacons
  deriving DecidableEq

namespace Latency

/-- All latencies, in the order of their numbers. -/
def all : List Latency := [noLatency, fastBeacons, slowBeacons]

/-- The number of a latency on the wire. -/
def id : Latency → UInt8
  | noLatency => 0
  | fastBeacons => 1
  | slowBeacons => 2

/-- The name of a latency. -/
def name : Latency → String
  | noLatency => "NoLatency"
  | fastBeacons => "FastBeacons"
  | slowBeacons => "SlowBeacons"

/-- One byte, presented by name. -/
def layout : Layout Latency := .enumeration "Latency" all id name

/-- The byte alone. -/
def codec : Codec Latency := layout.toCodec

end Latency

/-- How the network came up when the host asked for it. -/
inductive StartupOutcome where
  | restored
  | new
  | leave
  deriving DecidableEq

namespace StartupOutcome

/-- All ways to come up, in the order of their numbers. -/
def all : List StartupOutcome := [restored, new, leave]

/-- The number of a way to come up on the wire. -/
def id : StartupOutcome → UInt8
  | restored => 0
  | new => 1
  | leave => 2

/-- The name of a way to come up. -/
def name : StartupOutcome → String
  | restored => "Restored"
  | new => "New"
  | leave => "Leave"

/-- One byte, presented by name. -/
def layout : Layout StartupOutcome := .enumeration "StartupFromAppResponse" all id name

/-- The byte alone. -/
def codec : Codec StartupOutcome := layout.toCodec

end StartupOutcome

/-! ## Reset, version, capabilities -/

/-- What a device announces after a reset. -/
structure ResetInfo where
  reason : ResetReason
  transportRev : UInt8
  productId : UInt8
  majorRel : UInt8
  minorRel : UInt8
  hwRev : UInt8
  deriving DecidableEq

namespace ResetInfo

open Layout in
/-- The reason, then the versions that go with a reset. -/
def layout : Layout ResetInfo :=
  ((ResetReason.layout.named "reason").pair <| (u8.named "transport_rev").pair <|
    (u8.named "product_id").pair <| (u8.named "major_rel").pair <|
    (u8.named "minor_rel").pair (u8.named "hw_rev")).record "ResetInfo"
    (fun (reason, transportRev, productId, majorRel, minorRel, hwRev) =>
      { reason, transportRev, productId, majorRel, minorRel, hwRev })
    (fun v => (v.reason, v.transportRev, v.productId, v.majorRel, v.minorRel, v.hwRev))

/-- The bytes alone. -/
def codec : Codec ResetInfo := layout.toCodec

/-- The information on one line. -/
def display (v : ResetInfo) : String :=
  s!"[{v.reason.name} {v.transportRev} {v.productId} {v.majorRel}.{v.minorRel}.{v.hwRev}]"

end ResetInfo

/-- The versions of a device's firmware. -/
structure VersionInfo where
  transportRev : UInt8
  productId : UInt8
  majorRel : UInt8
  minorRel : UInt8
  maintRel : UInt8
  revision : UInt32
  reserved : Vector UInt8 5

namespace VersionInfo

open Layout in
/-- The versions, then five bytes without a meaning. -/
def layout : Layout VersionInfo :=
  ((u8.named "transport_rev").pair <| (u8.named "product_id").pair <|
    (u8.named "major_rel").pair <| (u8.named "minor_rel").pair <| (u8.named "maint_rel").pair <|
    (u32.named "revision").pair ((block 5).named "reserved")).record "VersionInfo"
    (fun (transportRev, productId, majorRel, minorRel, maintRel, revision, reserved) =>
      { transportRev, productId, majorRel, minorRel, maintRel, revision, reserved })
    (fun v => (v.transportRev, v.productId, v.majorRel, v.minorRel, v.maintRel, v.revision,
      v.reserved))

/-- The bytes alone. -/
def codec : Codec VersionInfo := layout.toCodec

/-- The versions on one line. -/
def display (v : VersionInfo) : String :=
  s!"[{v.transportRev} {v.productId} {v.majorRel}.{v.minorRel}.{v.maintRel} rev {v.revision}]"

end VersionInfo

/-- The subsystems that a device offers, as a set of bits. -/
structure Capability where
  bits : UInt16
  deriving DecidableEq

namespace Capability

/-- Two bytes, presented as a number. -/
def layout : Layout Capability := Layout.u16.map Capability.mk Capability.bits

/-- The bytes alone. -/
def codec : Codec Capability := layout.toCodec

/-- The bits with a name, in the order in which they are listed. -/
def names : List (UInt16 × String) := [
  (0x0001, "SYS"), (0x0002, "MAC"), (0x0004, "NWK"), (0x0008, "AF"), (0x0010, "ZDO"),
  (0x0020, "SAPI"), (0x0040, "UTIL"), (0x0080, "DEBUG"), (0x0100, "APP"), (0x1000, "ZOAD")]

/-- Whether all bits of `flags` are set. -/
def has (c : Capability) (flags : UInt16) : Bool :=
  c.bits &&& flags == flags

/-- The bits that have no name. -/
def unnamed (c : Capability) : UInt16 :=
  names.foldl (fun left flag => left &&& ~~~flag.1) c.bits

/-- The names of the bits that are set, and the rest as one hexadecimal number. -/
def display (c : Capability) : String :=
  let known := (names.filter fun flag => c.bits &&& flag.1 != 0).map Prod.snd
  let rest := if c.unnamed = 0 then [] else [hex 1 c.unnamed.toNat]
  "|".intercalate (known ++ rest)

end Capability

end ZigbeeHost
