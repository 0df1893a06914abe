import ZigbeeHost.Payload.Layout
/-!
# Addresses and bindings

A device has a short address in its network and an extended address of its own. A
binding sends what a cluster reports to a `BindTarget`, which is a group, a device under
either address, everyone or no one.
-/

namespace ZigbeeHost

/-- The short address of a device in its network. -/
abbrev ShortAddress := UInt16

/-- The extended address of a device. -/
abbrev IeeeAddress := UInt64

/-- The kinds of destination. -/
inductive AddressMode where
  | notPresent
  | group
  | shortAddress
  | ieeeAddress
  | broadcast
  deriving DecidableEq

namespace AddressMode

/-- All modes. -/
def all : List AddressMode := [notPresent, group, shortAddress, ieeeAddress, broadcast]

/-- The number of a mode on the wire. -/
def id : AddressMode → UInt8
  | notPresent => 0
  | group => 1
  | shortAddress => 2
  | ieeeAddress => 3
  | broadcast => 0xFF

/-- The name of a mode. -/
def name : AddressMode → String
  | notPresent => "NotPresent"
  | group => "Group"
  | shortAddress => "ShortAddress"
  | ieeeAddress => "IeeeAddress"
  | broadcast => "Broadcast"

/-- One byte, presented by name. -/
def layout : Layout AddressMode := .enumeration "AddrMode" all id name

/-- The byte alone. -/
def codec : Codec AddressMode := layout.toCodec

end AddressMode

/-- The destination of a binding. Its layout is the same for every mode; the mode says
which of the other fields mean anything. -/
structure BindTarget where
  mode : AddressMode
  address : UInt64
  endpoint : UInt8
  deriving DecidableEq

namespace BindTarget

/-- No one. -/
def notPresent : BindTarget := ⟨.notPresent, 0, 0⟩
/-- A group of devices. -/
def group (id : UInt16) : BindTarget := ⟨.group, id.toUInt64, 0⟩
/-- A device under its short address. -/
def short (address : ShortAddress) : BindTarget := ⟨.shortAddress, address.toUInt64, 0⟩
/-- An endpoint of a device under its extended address. -/
def ieee (address : IeeeAddress) (endpoint : UInt8) : BindTarget :=
  ⟨.ieeeAddress, address, endpoint⟩
/-- Everyone. -/
def broadcast : BindTarget := ⟨.broadcast, 0, 0⟩

/-- The group, if the target is one. -/
def group? (t : BindTarget) : Option UInt16 :=
  if t.mode = .group then some t.address.toUInt16 else none

/-- The short address, if the target has one. -/
def short? (t : BindTarget) : Option ShortAddress :=
  if t.mode = .shortAddress then some t.address.toUInt16 else none

/-- The extended address and endpoint, if the target has them. -/
def ieee? (t : BindTarget) : Option (IeeeAddress × UInt8) :=
  if t.mode = .ieeeAddress then some (t.address, t.endpoint) else none

/-- The target in words; addresses are hexadecimal. -/
def display (t : BindTarget) : String :=
  match t.mode with
  | .notPresent => "[NotPresent]"
  | .group => s!"[Group {hex 1 t.address.toUInt16.toNat}]"
  | .shortAddress => s!"[Short {hex 1 t.address.toUInt16.toNat}]"
  | .ieeeAddress => s!"[IEEE {hex 1 t.address.toNat} Endpoint {t.endpoint}]"
  | .broadcast => "[Broadcast]"

/-- The target as data : its mode, and what the mode gives meaning to. -/
def present (t : BindTarget) : Datum :=
  .record "BindTarget" [
    ("mode", .text t.mode.name),
    ("display", .text t.display),
    ("group_id", t.group?.elim .null fun id => .number id.toNat),
    ("short", t.short?.elim .null fun address => .number address.toNat),
    ("ieee", t.ieee?.elim .null fun (address, endpoint) =>
      .list [.wide address, .number endpoint.toNat])]

/-- A target from its kind, address and endpoint. -/
def parse (d : Datum) : Option BindTarget := do
  match ← (d.field "kind").text? with
  | "group" => return group (← Layout.u16.parse (d.field "address"))
  | "short" => return short (← Layout.u16.parse (d.field "address"))
  | "ieee" =>
    return ieee (← Layout.u64.parse (d.field "address")) (← Layout.u8.parse (d.field "endpoint"))
  | "broadcast" => return broadcast
  | "not_present" | "default" => return notPresent
  | _ => none

open Codec in
/-- The mode, then the address and the endpoint, whatever the mode makes of them. -/
def layout : Layout BindTarget where
  toCodec := (AddressMode.codec.pair <| u64.pair u8).map
    (fun (mode, address, endpoint) => { mode, address, endpoint })
    (fun v => (v.mode, v.address, v.endpoint))
  present := present
  parse := parse

/-- The bytes alone. -/
def codec : Codec BindTarget := layout.toCodec

end BindTarget

/-- One binding of a device. -/
structure BindTableEntry where
  srcAddr : IeeeAddress
  srcEndpoint : UInt8
  clusterId : UInt16
  target : BindTarget
  deriving DecidableEq

open Layout in
/-- The fields of a binding, in order. -/
def BindTableEntry.layout : Layout BindTableEntry :=
  ((u64.named "src_addr").pair <| (u8.named "src_endpoint").pair <|
    (u16.named "cluster_id").pair (BindTarget.layout.named "target")).record "BindTableEntry"
    (fun (srcAddr, srcEndpoint, clusterId, target) =>
      { srcAddr, srcEndpoint, clusterId, target })
    (fun v => (v.srcAddr, v.srcEndpoint, v.clusterId, v.target))

/-- The bytes alone. -/
def BindTableEntry.codec : Codec BindTableEntry := BindTableEntry.layout.toCodec

/-- A window of a device's bindings. -/
structure BindTable where
  totalEntries : UInt8
  startIndex : UInt8
  count : UInt8
  entries : List BindTableEntry
  deriving DecidableEq

open Layout in
/-- The window, then as many bindings as it counts. -/
def BindTable.layout : Layout BindTable :=
  ((u8.named "total_entries").pair <|
    (u8.named "start_index").pair
      (BindTableEntry.layout.counted "count" "entries")).record "BindTable"
    (fun (totalEntries, startIndex, count, entries) =>
      { totalEntries, startIndex, count, entries })
    (fun v => (v.totalEntries, v.startIndex, v.count, v.entries))

/-- The bytes alone. -/
def BindTable.codec : Codec BindTable := BindTable.layout.toCodec

/-- A device's addresses and the devices that are associated with it. -/
structure IeeeAddressResponse where
  ieeeAddr : IeeeAddress
  nwkAddr : ShortAddress
  startIndex : UInt8
  numAssocDev : UInt8
  assocDevList : List ShortAddress
  deriving DecidableEq

open Layout in
/-- Both addresses, then as many short addresses as are counted. -/
def IeeeAddressResponse.layout : Layout IeeeAddressResponse :=
  ((u64.named "ieee_addr").pair <| (u16.named "nwk_addr").pair <|
    (u8.named "start_index").pair
      (u16.counted "num_assoc_dev" "assoc_dev_list")).record "IeeeAddressResponse"
    (fun (ieeeAddr, nwkAddr, startIndex, numAssocDev, assocDevList) =>
      { ieeeAddr, nwkAddr, startIndex, numAssocDev, assocDevList })
    (fun v => (v.ieeeAddr, v.nwkAddr, v.startIndex, v.numAssocDev, v.assocDevList))

/-- The bytes alone. -/
def IeeeAddressResponse.codec : Codec IeeeAddressResponse := IeeeAddressResponse.layout.toCodec

/-- The key of the link to a device. -/
structure LinkKey where
  ieeeAddr : IeeeAddress
  key : Vector UInt8 16

open Layout in
/-- The address of the device, then the key. -/
def LinkKey.layout : Layout LinkKey :=
  ((u64.named "ieee_addr").pair ((block 16).named "key")).record "LinkKey"
    (fun (ieeeAddr, key) => { ieeeAddr, key })
    (fun v => (v.ieeeAddr, v.key))

/-- The bytes alone. -/
def LinkKey.codec : Codec LinkKey := LinkKey.layout.toCodec

/-- The address that a confirmation concerns, and the status for it. -/
structure AddressStatus where
  address : ShortAddress
  status : UInt8
  deriving DecidableEq

open Layout in
/-- The address, then the status. -/
def AddressStatus.layout : Layout AddressStatus :=
  ((u16.named "address").pair (u8.named "status")).record "AddressStatus"
    (fun (address, status) => { address, status })
    (fun v => (v.address, v.status))

/-- The bytes alone. -/
def AddressStatus.codec : Codec AddressStatus := AddressStatus.layout.toCodec

end ZigbeeHost
