import ZigbeeHost.Request.Exchange
import ZigbeeHost.Session.Dispatch
/-!
# Requests for configuration and device information

A device keeps configuration items under option numbers, and tells items of information
about itself. Both can be asked for by number, as bytes, or by item, as values of the
item's type. An answer echoes the number that was asked for.
-/

namespace ZigbeeHost

/-! ## Configuration items -/

/-- What a device does with its configuration when it starts, as a set of bits. -/
structure StartupOption where
  bits : UInt8
  deriving DecidableEq

namespace StartupOption

/-- One byte, with a bit for each option. -/
def layout : Layout StartupOption := Layout.u8.map StartupOption.mk StartupOption.bits

/-- Both options. -/
def union (a b : StartupOption) : StartupOption := ⟨a.bits ||| b.bits⟩

end StartupOption

/-- The configuration items with a type of their own. -/
inductive ConfigItem where
  | startupOption
  | extendedPanId
  | preConfigKey
  | preConfigKeysEnable
  | panId
  | channelList
  | logicalType
  | zdoDirectCb
  deriving DecidableEq

namespace ConfigItem

/-- All items, in the order in which they are declared. -/
def all : List ConfigItem := [startupOption, extendedPanId, preConfigKey,
  preConfigKeysEnable, panId, channelList, logicalType, zdoDirectCb]

/-- The name of an item. -/
def name : ConfigItem → String
  | startupOption => "StartupOption"
  | extendedPanId => "ExtendedPanId"
  | preConfigKey => "PreConfigKey"
  | preConfigKeysEnable => "PreConfigKeysEnable"
  | panId => "PanId"
  | channelList => "ChannelList"
  | logicalType => "LogicalType"
  | zdoDirectCb => "ZdoDirectCb"

/-- The item's option number. -/
def option : ConfigItem → UInt8
  | startupOption => 0x03
  | extendedPanId => 0x2D
  | preConfigKey => 0x62
  | preConfigKeysEnable => 0x63
  | panId => 0x83
  | channelList => 0x84
  | logicalType => 0x87
  | zdoDirectCb => 0x8F

/-- The type of the item's values. -/
abbrev Value : ConfigItem → Type
  | startupOption => StartupOption
  | extendedPanId => UInt64
  | preConfigKey => Vector UInt8 16
  | preConfigKeysEnable => Bool
  | panId => UInt16
  | channelList => UInt32
  | logicalType => LogicalType
  | zdoDirectCb => Bool

/-- The layout of the item's values. -/
def layout : (item : ConfigItem) → Layout item.Value
  | startupOption => StartupOption.layout
  | extendedPanId => .u64
  | preConfigKey => .block 16
  | preConfigKeysEnable => .flag
  | panId => .u16
  | channelList => .u32
  | logicalType => LogicalType.layout
  | zdoDirectCb => .flag

end ConfigItem

/-! ## Device information -/

/-- The items of information about a device. -/
inductive InfoItem where
  | deviceState
  | ieeeAddress
  | shortAddress
  | parentShortAddress
  | parentIeeeAddress
  | channel
  | panId
  | extendedPanId
  deriving DecidableEq

namespace InfoItem

/-- All items, in the order of their numbers. -/
def all : List InfoItem := [deviceState, ieeeAddress, shortAddress, parentShortAddress,
  parentIeeeAddress, channel, panId, extendedPanId]

/-- The name of an item. -/
def name : InfoItem → String
  | deviceState => "DeviceState"
  | ieeeAddress => "DeviceIeeeAddress"
  | shortAddress => "DeviceShortAddress"
  | parentShortAddress => "ParentShortAddress"
  | parentIeeeAddress => "ParentIeeeAddress"
  | channel => "DeviceChannel"
  | panId => "DevicePanId"
  | extendedPanId => "DeviceExtendedPanId"

/-- The item's number. -/
def id : InfoItem → UInt8
  | deviceState => deviceStateInfo
  | ieeeAddress => 1
  | shortAddress => 2
  | parentShortAddress => 3
  | parentIeeeAddress => 4
  | channel => 5
  | panId => 6
  | extendedPanId => 7

/-- The type of the item's values. -/
abbrev Value : InfoItem → Type
  | deviceState => DeviceState
  | ieeeAddress | parentIeeeAddress => IeeeAddress
  | shortAddress | parentShortAddress => ShortAddress
  | channel => UInt8
  | panId => UInt16
  | extendedPanId => UInt64

/-- The layout of the item's values. -/
def layout : (item : InfoItem) → Layout item.Value
  | deviceState => DeviceState.layout
  | ieeeAddress => .u64
  | shortAddress => .u16
  | parentShortAddress => .u16
  | parentIeeeAddress => .u64
  | channel => .u8
  | panId => .u16
  | extendedPanId => .u64

end InfoItem

/-! ## Requests -/

/-- An option with its value, as it is written and as it is answered. -/
def optionCodec : Codec (UInt8 × Bytes) := Codec.u8.pair .byteString

/-- The value in the answer to a question for an option. -/
def optionValue (option : UInt8) (response : Bytes) : Except Failure Bytes := do
  let (found, value) ← optionCodec.decode (← checkStatus response)
  if found = option then .ok value else .error (.mismatch .configurationOption)

/-- Requests to the simple interface. -/
inductive ConfigurationRequest where
  | readOption (option : UInt8)
  | writeOption (option : UInt8) (value : Bytes)
  | deviceInfo (info : UInt8)
  | readItem (item : ConfigItem)
  | writeItem (item : ConfigItem) (value : item.Value)
  | infoItem (item : InfoItem)

namespace ConfigurationRequest

/-- The command that asks for device information. -/
def getDeviceInfo : Command := ⟨.sapi, 0x06⟩

/-- The command that carries the request. -/
def command : ConfigurationRequest → Command
  | readOption .. | readItem .. => ⟨.sapi, 0x04⟩
  | writeOption .. | writeItem .. => ⟨.sapi, 0x05⟩
  | deviceInfo .. | infoItem .. => getDeviceInfo

/-- The arguments as they are sent. -/
def payload : ConfigurationRequest → Bytes
  | readOption option => Codec.u8.write option
  | writeOption option value => optionCodec.write (option, value)
  | deviceInfo info => Codec.u8.write info
  | readItem item => Codec.u8.write item.option
  | writeItem item value => optionCodec.write (item.option, item.layout.write value)
  | infoItem item => Codec.u8.write item.id

/-- What is sent, and what is to come back. -/
def exchange (r : ConfigurationRequest) : Exchange := .simple r.command r.payload

/-- What the request yields. -/
abbrev Answer : ConfigurationRequest → Type
  | readOption .. | deviceInfo .. => Bytes
  | writeOption .. | writeItem .. => Unit
  | readItem item => item.Value
  | infoItem item => item.Value

/-- Reads the answer. A device pads the value of an item of information, so what follows
the value is ignored there. -/
def read : (r : ConfigurationRequest) → Bytes → Except Failure r.Answer
  | readOption option, b => optionValue option b
  | deviceInfo info, b => deviceInfoValue info b
  | writeOption .., b => checkOnlyStatus b
  | writeItem .., b => checkOnlyStatus b
  | readItem item, b => do item.layout.decode (← optionValue item.option b)
  | infoItem item, b => do item.layout.decodeStart (← deviceInfoValue item.id b)

end ConfigurationRequest

end ZigbeeHost
