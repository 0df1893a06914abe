import ZigbeeHost.Request.Exchange
/-!
# Requests of application endpoints

An application registers its endpoints and sends data from them.
-/

namespace ZigbeeHost

/-- An endpoint of the host, with the clusters that it takes and sends. -/
structure EndpointDescriptor where
  endpoint : UInt8
  profileId : UInt16
  deviceId : UInt16
  version : UInt8
  latency : Latency
  inputClusters : List UInt16
  outputClusters : List UInt16

/-- Data for an endpoint in the network. -/
structure DataRequest where
  dstAddr : ShortAddress
  dstEndpoint : UInt8
  srcEndpoint : UInt8
  clusterId : UInt16
  transId : UInt8
  options : UInt8
  radius : UInt8
  data : Bytes

open Layout in
/-- The fields of a descriptor, in order. -/
def EndpointDescriptor.layout : Layout EndpointDescriptor :=
  ((u8.named "endpoint").pair <| (u16.named "profile_id").pair <|
    (u16.named "device_id").pair <| (u8.named "version").pair <|
    (Latency.layout.named "latency").pair <| (u16.list.named "input_clusters").pair
      (u16.list.named "output_clusters")).record "EndpointDescriptor"
    (fun (endpoint, profileId, deviceId, version, latency, inputClusters, outputClusters) =>
      { endpoint, profileId, deviceId, version, latency, inputClusters, outputClusters })
    (fun v => (v.endpoint, v.profileId, v.deviceId, v.version, v.latency, v.inputClusters,
      v.outputClusters))

open Layout in
/-- The fields of a message, in order. -/
def DataRequest.layout : Layout DataRequest :=
  ((u16.named "dst_addr").pair <| (u8.named "dst_endpoint").pair <|
    (u8.named "src_endpoint").pair <| (u16.named "cluster_id").pair <|
    (u8.named "trans_id").pair <| (u8.named "options").pair <|
    (u8.named "radius").pair (byteString.named "data")).record "DataRequest"
    (fun (dstAddr, dstEndpoint, srcEndpoint, clusterId, transId, options, radius, data) =>
      { dstAddr, dstEndpoint, srcEndpoint, clusterId, transId, options, radius, data })
    (fun v => (v.dstAddr, v.dstEndpoint, v.srcEndpoint, v.clusterId, v.transId, v.options,
      v.radius, v.data))

/-- Requests to the application framework. -/
inductive EndpointRequest where
  | register (descriptor : EndpointDescriptor)
  /-- Sends data and waits for the confirmation, which names the endpoint and the
  transaction. -/
  | sendData (request : DataRequest)

namespace EndpointRequest

/-- The command of the frames that confirm data. -/
def dataConfirm : Command := ⟨.af, 0x80⟩

/-- What is sent, and what is to come back. -/
def exchange (config : SessionConfig) : EndpointRequest → Exchange
  | register descriptor => .simple ⟨.af, 0x00⟩ (EndpointDescriptor.layout.write descriptor)
  | sendData request =>
    .confirmed ⟨.af, 0x01⟩ (DataRequest.layout.write request)
      { command := dataConfirm, window := config.dataConfirmTimeout? }

/-- Both requests yield nothing but their success. -/
abbrev Answer (_ : EndpointRequest) : Type := Unit

/-- Reads the answer. The first confirmation to arrive counts, so it may belong to
another transaction. -/
def read : (r : EndpointRequest) → Bytes → Except Failure r.Answer
  | register .., b => checkOnlyStatus b
  | sendData request, b => do
    let confirmed ← (Codec.u8.pair Codec.u8).decode (← checkStatus b)
    if confirmed = (request.dstEndpoint, request.transId) then .ok () else .error .correlation

end EndpointRequest

end ZigbeeHost
