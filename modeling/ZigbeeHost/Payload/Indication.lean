import ZigbeeHost.Payload.Address
import ZigbeeHost.Command
/-!
# What a co-processor tells without being asked

Messages from the network, devices that come and go, descriptors that were asked for
earlier, and the notice that a request was rejected.
-/

namespace ZigbeeHost

/-- A message from an application in the network. -/
structure IncomingMsg where
  groupId : UInt16
  clusterId : UInt16
  srcAddr : ShortAddress
  srcEndpoint : UInt8
  dstEndpoint : UInt8
  wasBroadcast : UInt8
  linkQuality : UInt8
  securityUse : UInt8
  timestamp : UInt32
  transSeqNumber : UInt8
  len : UInt8
  data : Bytes
  deriving DecidableEq

open Layout in
/-- The addresses of the message, what is known of its way, and its data behind their length. -/
def IncomingMsg.layout : Layout IncomingMsg :=
  ((u16.named "group_id").pair <| (u16.named "cluster_id").pair <|
    (u16.named "src_addr").pair <| (u8.named "src_endpoint").pair <|
    (u8.named "dst_endpoint").pair <| (u8.named "was_broadcast").pair <|
    (u8.named "link_quality").pair <| (u8.named "security_use").pair <|
    (u32.named "timestamp").pair <|
    (u8.named "trans_seq_number").pair (countedBytes "len" "data")).record "IncomingMsg"
    (fun (groupId, clusterId, srcAddr, srcEndpoint, dstEndpoint, wasBroadcast, linkQuality,
        securityUse, timestamp, transSeqNumber, len, data) =>
      { groupId, clusterId, srcAddr, srcEndpoint, dstEndpoint, wasBroadcast, linkQuality,
        securityUse, timestamp, transSeqNumber, len, data })
    (fun v => (v.groupId, v.clusterId, v.srcAddr, v.srcEndpoint, v.dstEndpoint, v.wasBroadcast,
      v.linkQuality, v.securityUse, v.timestamp, v.transSeqNumber, v.len, v.data))

/-- The bytes alone. -/
def IncomingMsg.codec : Codec IncomingMsg := IncomingMsg.layout.toCodec

/-- A device announces itself to the network. -/
structure EndDeviceAnnounce where
  srcAddr : ShortAddress
  nwkAddr : ShortAddress
  ieeeAddr : IeeeAddress
  capabilities : UInt8
  deriving DecidableEq

open Layout in
/-- The addresses of the device, then what it is capable of. -/
def EndDeviceAnnounce.layout : Layout EndDeviceAnnounce :=
  ((u16.named "src_addr").pair <| (u16.named "nwk_addr").pair <|
    (u64.named "ieee_addr").pair (u8.named "capabilities")).record "EndDeviceAnnounce"
    (fun (srcAddr, nwkAddr, ieeeAddr, capabilities) =>
      { srcAddr, nwkAddr, ieeeAddr, capabilities })
    (fun v => (v.srcAddr, v.nwkAddr, v.ieeeAddr, v.capabilities))

/-- The bytes alone. -/
def EndDeviceAnnounce.codec : Codec EndDeviceAnnounce := EndDeviceAnnounce.layout.toCodec

/-- A device has joined through a parent. -/
structure TrustCenterDevice where
  srcNwkAddr : ShortAddress
  srcIeeeAddr : IeeeAddress
  parentNwkAddr : ShortAddress
  deriving DecidableEq

namespace TrustCenterDevice

open Layout in
/-- The addresses of the device and of its parent. -/
def layout : Layout TrustCenterDevice :=
  ((u16.named "src_nwk_addr").pair <|
    (u64.named "src_ieee_addr").pair (u16.named "parent_nwk_addr")).record "TrustCenterDevice"
    (fun (srcNwkAddr, srcIeeeAddr, parentNwkAddr) => { srcNwkAddr, srcIeeeAddr, parentNwkAddr })
    (fun v => (v.srcNwkAddr, v.srcIeeeAddr, v.parentNwkAddr))

/-- The bytes alone. -/
def codec : Codec TrustCenterDevice := layout.toCodec

/-- The value on one line. -/
def describe (v : TrustCenterDevice) : String := (layout.present v).describe

end TrustCenterDevice

/-- A device has left the network. -/
structure LeaveIndication where
  srcAddr : ShortAddress
  extAddr : IeeeAddress
  request : UInt8
  remove : UInt8
  rejoin : UInt8
  deriving DecidableEq

open Layout in
/-- The addresses of the device, then why it left. -/
def LeaveIndication.layout : Layout LeaveIndication :=
  ((u16.named "src_addr").pair <| (u64.named "ext_addr").pair <| (u8.named "request").pair <|
    (u8.named "remove").pair (u8.named "rejoin")).record "LeaveIndication"
    (fun (srcAddr, extAddr, request, remove, rejoin) =>
      { srcAddr, extAddr, request, remove, rejoin })
    (fun v => (v.srcAddr, v.extAddr, v.request, v.remove, v.rejoin))

/-- The bytes alone. -/
def LeaveIndication.codec : Codec LeaveIndication := LeaveIndication.layout.toCodec

/-- For how many seconds devices may join. -/
structure PermitJoinIndication where
  duration : UInt8
  deriving DecidableEq

open Layout in
/-- One byte. -/
def PermitJoinIndication.layout : Layout PermitJoinIndication :=
  (u8.named "duration").record "PermitJoinIndication" PermitJoinIndication.mk
    PermitJoinIndication.duration

/-- The byte alone. -/
def PermitJoinIndication.codec : Codec PermitJoinIndication := PermitJoinIndication.layout.toCodec

/-- What a device says about itself as a node. -/
structure NodeDescriptor where
  srcAddr : ShortAddress
  status : UInt8
  nwkAddr : ShortAddress
  logicalType : UInt8
  apsFlags : UInt8
  macCapabilities : UInt8
  manufacturerCode : UInt16
  maxBufferSize : UInt8
  maxInTransferSize : UInt16
  serverMask : UInt16
  maxOutTransferSize : UInt16
  descriptorCapabilities : UInt8
  deriving DecidableEq

namespace NodeDescriptor

open Layout in
/-- The fields of a node's descriptor, in order. -/
def layout : Layout NodeDescriptor :=
  ((u16.named "src_addr").pair <| (u8.named "status").pair <| (u16.named "nwk_addr").pair <|
    (u8.named "logical_type").pair <| (u8.named "aps_flags").pair <|
    (u8.named "mac_capabilities").pair <| (u16.named "manufacturer_code").pair <|
    (u8.named "max_buffer_size").pair <| (u16.named "max_in_transfer_size").pair <|
    (u16.named "server_mask").pair <|
    (u16.named "max_out_transfer_size").pair
      (u8.named "descriptor_capabilities")).record "NodeDescriptor"
    (fun (srcAddr, status, nwkAddr, logicalType, apsFlags, macCapabilities, manufacturerCode,
        maxBufferSize, maxInTransferSize, serverMask, maxOutTransferSize, descriptorCapabilities) =>
      { srcAddr, status, nwkAddr, logicalType, apsFlags, macCapabilities, manufacturerCode,
        maxBufferSize, maxInTransferSize, serverMask, maxOutTransferSize, descriptorCapabilities })
    (fun v => (v.srcAddr, v.status, v.nwkAddr, v.logicalType, v.apsFlags, v.macCapabilities,
      v.manufacturerCode, v.maxBufferSize, v.maxInTransferSize, v.serverMask,
      v.maxOutTransferSize, v.descriptorCapabilities))

/-- The bytes alone. -/
def codec : Codec NodeDescriptor := layout.toCodec

/-- The value on one line. -/
def describe (v : NodeDescriptor) : String := (layout.present v).describe

end NodeDescriptor

/-- The endpoints of a device. -/
structure ActiveEndpoints where
  srcAddr : ShortAddress
  status : UInt8
  nwkAddr : ShortAddress
  count : UInt8
  endpoints : List UInt8
  deriving DecidableEq

namespace ActiveEndpoints

open Layout in
/-- Whose endpoints they are, then as many as are counted. -/
def layout : Layout ActiveEndpoints :=
  ((u16.named "src_addr").pair <| (u8.named "status").pair <|
    (u16.named "nwk_addr").pair (countedBytes "count" "endpoints")).record "ActiveEndpoints"
    (fun (srcAddr, status, nwkAddr, count, endpoints) =>
      { srcAddr, status, nwkAddr, count, endpoints })
    (fun v => (v.srcAddr, v.status, v.nwkAddr, v.count, v.endpoints))

/-- The bytes alone. -/
def codec : Codec ActiveEndpoints := layout.toCodec

/-- The value on one line. -/
def describe (v : ActiveEndpoints) : String := (layout.present v).describe

end ActiveEndpoints

/-- What an endpoint offers and uses. -/
structure SimpleDescriptor where
  srcAddr : ShortAddress
  status : UInt8
  nwkAddr : ShortAddress
  len : UInt8
  endpoint : UInt8
  profileId : UInt16
  deviceId : UInt16
  deviceVersion : UInt8
  numInClusters : UInt8
  inClusters : List UInt16
  numOutClusters : UInt8
  outClusters : List UInt16
  deriving DecidableEq

namespace SimpleDescriptor

open Layout in
/-- The fields of an endpoint's descriptor, with two counted lists of clusters at the end. -/
def layout : Layout SimpleDescriptor :=
  ((u16.named "src_addr").pair <| (u8.named "status").pair <| (u16.named "nwk_addr").pair <|
    (u8.named "len").pair <| (u8.named "endpoint").pair <| (u16.named "profile_id").pair <|
    (u16.named "device_id").pair <| (u8.named "device_version").pair <|
    (u16.counted "num_in_clusters" "in_clusters").pair
      (u16.counted "num_out_clusters" "out_clusters")).record "SimpleDescriptor"
    (fun (srcAddr, status, nwkAddr, len, endpoint, profileId, deviceId, deviceVersion,
        (numInClusters, inClusters), numOutClusters, outClusters) =>
      { srcAddr, status, nwkAddr, len, endpoint, profileId, deviceId, deviceVersion,
        numInClusters, inClusters, numOutClusters, outClusters })
    (fun v => (v.srcAddr, v.status, v.nwkAddr, v.len, v.endpoint, v.profileId, v.deviceId,
      v.deviceVersion, (v.numInClusters, v.inClusters), v.numOutClusters, v.outClusters))

/-- The bytes alone. -/
def codec : Codec SimpleDescriptor := layout.toCodec

/-- The value on one line. -/
def describe (v : SimpleDescriptor) : String := (layout.present v).describe

end SimpleDescriptor

/-- How far commissioning has come. -/
structure BdbCommissioningNotification where
  status : UInt8
  mode : UInt8
  remainingModes : UInt8
  deriving DecidableEq

namespace BdbCommissioningNotification

open Layout in
/-- The status, the mode, and the modes that remain. -/
def layout : Layout BdbCommissioningNotification :=
  ((u8.named "status").pair <| (u8.named "mode").pair
    (u8.named "remaining_modes")).record "BdbCommissioningNotification"
    (fun (status, mode, remainingModes) => { status, mode, remainingModes })
    (fun v => (v.status, v.mode, v.remainingModes))

/-- The bytes alone. -/
def codec : Codec BdbCommissioningNotification := layout.toCodec

/-- The value on one line. -/
def describe (v : BdbCommissioningNotification) : String := (layout.present v).describe

end BdbCommissioningNotification

/-- The notice that a request was rejected : the code of the reason, and the request by
its kind and subsystem, packed in one byte, and its id. -/
structure RpcErrorInfo where
  code : UInt8
  packed : UInt8
  id : UInt8
  deriving DecidableEq

namespace RpcErrorInfo

open Layout in
/-- The code, then the request that was rejected. -/
def layout : Layout RpcErrorInfo :=
  ((u8.named "code").pair <| (u8.named "packed").pair (u8.named "id")).record "RpcErrorInfo"
    (fun (code, packed, id) => { code, packed, id })
    (fun v => (v.code, v.packed, v.id))

/-- The bytes alone. -/
def codec : Codec RpcErrorInfo := layout.toCodec

/-- The kind of the rejected frame. -/
def kind? (v : RpcErrorInfo) : Option FrameKind := FrameKind.ofBits? (v.packed >>> 4)

/-- The command of the rejected frame. -/
def command (v : RpcErrorInfo) : Command := ⟨.ofBits v.packed, v.id⟩

end RpcErrorInfo

end ZigbeeHost
