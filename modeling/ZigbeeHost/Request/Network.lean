import ZigbeeHost.Request.Exchange
import ZigbeeHost.Bytes.Utf8
/-!
# Requests to the network

Addresses, keys, joining and leaving, descriptors, bindings and groups. Some answers only
say that the request is on its way; then the network's confirmation follows, and for
bindings it opens with the address that was asked.
-/

namespace ZigbeeHost

/-- A binding to be made or undone at a device. -/
structure BindRequest where
  dstAddr : ShortAddress
  srcAddr : IeeeAddress
  srcEndpoint : UInt8
  clusterId : UInt16
  target : BindTarget

open Layout in
/-- The fields of a binding that is asked for, in order. -/
def BindRequest.layout : Layout BindRequest :=
  ((u16.named "dst_addr").pair <| (u64.named "src_addr").pair <|
    (u8.named "src_endpoint").pair <| (u16.named "cluster_id").pair
      (BindTarget.layout.named "target")).record "BindRequest"
    (fun (dstAddr, srcAddr, srcEndpoint, clusterId, target) =>
      { dstAddr, srcAddr, srcEndpoint, clusterId, target })
    (fun v => (v.dstAddr, v.srcAddr, v.srcEndpoint, v.clusterId, v.target))

/-- Requests to the device object. -/
inductive NetworkRequest where
  /-- The extended address of a device, and its associated devices from an index on. -/
  | ieeeAddress (address : ShortAddress) (children : Option UInt8)
  | removeLinkKey (address : IeeeAddress)
  | linkKey (address : IeeeAddress)
  /-- Asks a device to remove another. -/
  | leave (dstAddr : ShortAddress) (deviceAddr : IeeeAddress) (removeRejoin : UInt8)
  | directJoin (dstAddr : ShortAddress) (deviceAddr : IeeeAddress)
  | permitJoin (mode : AddressMode) (dstAddr : UInt16) (duration tcSignificance : UInt8)
  | startup (delay : UInt16)
  /-- The descriptor arrives as an event. -/
  | nodeDescriptor (address : ShortAddress)
  /-- The endpoints arrive as an event. -/
  | activeEndpoints (address : ShortAddress)
  /-- The descriptor arrives as an event. -/
  | simpleDescriptor (address : ShortAddress) (endpoint : UInt8)
  | bind (request : BindRequest)
  | unbind (request : BindRequest)
  | bindTable (dstAddr : ShortAddress) (startIndex : UInt8)
  | removeGroup (endpoint : UInt8) (group : UInt16)
  /-- Firmware answers this as the removal of all groups or of one. -/
  | removeAllGroups (endpoint : UInt8)
  | groupsOf (endpoint : UInt8)
  | groupName (endpoint : UInt8) (group : UInt16)
  | addGroup (endpoint : UInt8) (group : UInt16) (name : String)
  | countGroups

namespace NetworkRequest

/-- The most bytes of a group's name. -/
def maxGroupNameLength : Nat := 16

/-- The command with an id of the device object. -/
def commandOf (id : UInt8) : Command := ⟨.zdo, id⟩

/-- The command that carries the request. -/
def command : NetworkRequest → Command
  | ieeeAddress .. => commandOf 0x01
  | removeLinkKey .. => commandOf 0x24
  | linkKey .. => commandOf 0x25
  | leave .. => commandOf 0x34
  | directJoin .. => commandOf 0x35
  | permitJoin .. => commandOf 0x36
  | startup .. => commandOf 0x40
  | nodeDescriptor .. => commandOf 0x02
  | activeEndpoints .. => commandOf 0x05
  | simpleDescriptor .. => commandOf 0x04
  | bind .. => commandOf 0x21
  | unbind .. => commandOf 0x22
  | bindTable .. => commandOf 0x33
  | removeGroup .. => commandOf 0x47
  | removeAllGroups .. => commandOf 0x48
  | groupsOf .. => commandOf 0x49
  | groupName .. => commandOf 0x4A
  | addGroup .. => commandOf 0x4B
  | countGroups => commandOf 0x4C

open Codec in
/-- The arguments as they are sent. -/
def payload : NetworkRequest → Bytes
  | ieeeAddress address children =>
    (u16.pair <| flag.pair u8).write (address, children.isSome, children.getD 0)
  | removeLinkKey address | linkKey address => u64.write address
  | leave dst device removeRejoin => (u16.pair <| u64.pair u8).write (dst, device, removeRejoin)
  | directJoin dst device => (u16.pair u64).write (dst, device)
  | permitJoin mode dst duration tcSignificance =>
    (AddressMode.codec.pair <| u16.pair <| u8.pair u8).write (mode, dst, duration, tcSignificance)
  | startup delay => u16.write delay
  | nodeDescriptor address | activeEndpoints address => (u16.pair u16).write (address, address)
  | simpleDescriptor address endpoint =>
    (u16.pair <| u16.pair u8).write (address, address, endpoint)
  | bind request | unbind request => BindRequest.layout.write request
  | bindTable dst startIndex => (u16.pair u8).write (dst, startIndex)
  | removeGroup endpoint group | groupName endpoint group => (u8.pair u16).write (endpoint, group)
  | removeAllGroups endpoint => u8.write endpoint
  | groupsOf endpoint => (u8.pair u8).write (endpoint, 0)
  | addGroup endpoint group name =>
    (u8.pair <| u16.pair byteString).write (endpoint, group, name.toUTF8.toList)
  | countGroups => []

/-- The confirmation that follows the answer. -/
def confirmation? (config : SessionConfig) : NetworkRequest → Option Confirmation
  | ieeeAddress .. => some { command := commandOf 0x81 }
  | leave .. => some { command := commandOf 0xB4 }
  | directJoin .. => some { command := commandOf 0xB5 }
  | permitJoin .. => some { command := commandOf 0xB6 }
  | bind request => some (fromDevice 0xA1 request.dstAddr)
  | unbind request => some (fromDevice 0xA2 request.dstAddr)
  | bindTable dst _ => some (fromDevice 0xB3 dst)
  | _ => none
where
  fromDevice (id : UInt8) (address : ShortAddress) : Confirmation :=
    { command := commandOf id, window := config.zdoTimeout?, opening := Codec.u16.write address }

/-- The exchange, unless a group's name is too long. -/
def exchange (config : SessionConfig) (r : NetworkRequest) : Except Failure Exchange :=
  match r with
  | addGroup _ _ name =>
    if name.utf8ByteSize > maxGroupNameLength then .error (.groupNameTooLong name.utf8ByteSize)
    else .ok (.simple r.command r.payload)
  | removeAllGroups _ =>
    .ok { command := r.command, responses := [r.command, commandOf 0x47], payload := r.payload }
  | r => .ok { Exchange.simple r.command r.payload with confirmation := r.confirmation? config }

/-- What the request yields. -/
abbrev Answer : NetworkRequest → Type
  | ieeeAddress .. => IeeeAddressResponse
  | linkKey .. => LinkKey
  | leave .. | directJoin .. | permitJoin .. => ShortAddress
  | startup .. => StartupOutcome
  | bindTable .. => BindTable
  | groupsOf .. => List UInt16
  | groupName .. => String
  | countGroups => UInt8
  | _ => Unit

/-- Reads the answer, or the confirmation where there is one. -/
def read : (r : NetworkRequest) → Bytes → Except Failure r.Answer
  | ieeeAddress .., b => do IeeeAddressResponse.codec.decode (← checkStatus b)
  | linkKey .., b => do LinkKey.codec.decode (← checkStatus b)
  | leave .., b => addressOfConfirmation b
  | directJoin .., b => addressOfConfirmation b
  | permitJoin .., b => addressOfConfirmation b
  | startup .., b => StartupOutcome.codec.decode b
  | bindTable .., b => do BindTable.codec.decode (← checkStatus b)
  | groupsOf .., b => Codec.u16.list.decode b
  | groupName _ group, b => do
    let (found, name) ← (Codec.u16.pair Codec.byteString).decodeStart (← checkStatus b)
    if found = group then .ok (lossyText name) else .error (.mismatch .group)
  | countGroups, b => Codec.u8.decode b
  | removeLinkKey .., b => checkOnlyStatus b
  | nodeDescriptor .., b => checkOnlyStatus b
  | activeEndpoints .., b => checkOnlyStatus b
  | simpleDescriptor .., b => checkOnlyStatus b
  | bind .., b => checkOnlyStatus b
  | unbind .., b => checkOnlyStatus b
  | removeGroup .., b => checkOnlyStatus b
  | removeAllGroups .., b => checkOnlyStatus b
  | addGroup .., b => checkOnlyStatus b

end NetworkRequest

end ZigbeeHost
