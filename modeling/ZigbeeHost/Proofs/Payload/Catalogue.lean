import ZigbeeHost.Payload.Address
import ZigbeeHost.Payload.Indication
import ZigbeeHost.Request.Configuration
import ZigbeeHost.Proofs.Payload.Exact
/-!
# The payload layouts

`PayloadLayout` lists the layouts of all values that are both written and read. Each is a
record of exact fields, an enumeration that uses no number twice, or one of these under a name
of its own, so each is a prefix code (`PayloadLayout.prefixCode`).
-/

namespace ZigbeeHost

/-! ## Enumerations -/

instance : ResetReason.layout.toCodec.Exact :=
  Codec.exact_enumeration (fun a => by cases a <;> decide) (by decide)

instance : DeviceState.layout.toCodec.Exact :=
  Codec.exact_enumeration (fun a => by cases a <;> decide) (by decide)

instance : LogicalType.layout.toCodec.Exact :=
  Codec.exact_enumeration (fun a => by cases a <;> decide) (by decide)

instance : Latency.layout.toCodec.Exact :=
  Codec.exact_enumeration (fun a => by cases a <;> decide) (by decide)

instance : StartupOutcome.layout.toCodec.Exact :=
  Codec.exact_enumeration (fun a => by cases a <;> decide) (by decide)

instance : AddressMode.layout.toCodec.Exact :=
  Codec.exact_enumeration (fun a => by cases a <;> decide) (by decide)

/-! ## Records -/

instance : Capability.layout.toCodec.Exact := Layout.exact_map (fun _ => rfl) fun _ => rfl

instance : StartupOption.layout.toCodec.Exact := Layout.exact_map (fun _ => rfl) fun _ => rfl

instance : ResetInfo.layout.toCodec.Exact := Fields.exact_record (fun _ => rfl) fun _ => rfl

instance : VersionInfo.layout.toCodec.Exact := Fields.exact_record (fun _ => rfl) fun _ => rfl

instance : AddressStatus.layout.toCodec.Exact := Fields.exact_record (fun _ => rfl) fun _ => rfl

instance : LinkKey.layout.toCodec.Exact := Fields.exact_record (fun _ => rfl) fun _ => rfl

instance : BindTarget.layout.toCodec.Exact := by
  have hmode : AddressMode.codec.Exact := inferInstanceAs AddressMode.layout.toCodec.Exact
  simp only [BindTarget.layout]
  exact Codec.exact_map (fun _ => rfl) fun _ => rfl

instance : BindTableEntry.layout.toCodec.Exact :=
  Fields.exact_record (fun _ => rfl) fun _ => rfl

instance : BindTable.layout.toCodec.Exact := Fields.exact_record (fun _ => rfl) fun _ => rfl

instance : IeeeAddressResponse.layout.toCodec.Exact :=
  Fields.exact_record (fun _ => rfl) fun _ => rfl

instance : IncomingMsg.layout.toCodec.Exact := Fields.exact_record (fun _ => rfl) fun _ => rfl

instance : EndDeviceAnnounce.layout.toCodec.Exact :=
  Fields.exact_record (fun _ => rfl) fun _ => rfl

instance : TrustCenterDevice.layout.toCodec.Exact :=
  Fields.exact_record (fun _ => rfl) fun _ => rfl

instance : LeaveIndication.layout.toCodec.Exact :=
  Fields.exact_record (fun _ => rfl) fun _ => rfl

instance : PermitJoinIndication.layout.toCodec.Exact :=
  Fields.exact_record (fun _ => rfl) fun _ => rfl

instance : NodeDescriptor.layout.toCodec.Exact :=
  Fields.exact_record (fun _ => rfl) fun _ => rfl

instance : ActiveEndpoints.layout.toCodec.Exact :=
  Fields.exact_record (fun _ => rfl) fun _ => rfl

instance : SimpleDescriptor.layout.toCodec.Exact :=
  Fields.exact_record (fun _ => rfl) fun _ => rfl

instance : BdbCommissioningNotification.layout.toCodec.Exact :=
  Fields.exact_record (fun _ => rfl) fun _ => rfl

instance : RpcErrorInfo.layout.toCodec.Exact := Fields.exact_record (fun _ => rfl) fun _ => rfl

/-! ## Items of a device -/

instance (item : ConfigItem) : item.layout.toCodec.Exact :=
  match item with
  | .startupOption => inferInstanceAs StartupOption.layout.toCodec.Exact
  | .extendedPanId => inferInstanceAs Layout.u64.toCodec.Exact
  | .preConfigKey => inferInstanceAs (Layout.block 16).toCodec.Exact
  | .preConfigKeysEnable => inferInstanceAs Layout.flag.toCodec.Exact
  | .panId => inferInstanceAs Layout.u16.toCodec.Exact
  | .channelList => inferInstanceAs Layout.u32.toCodec.Exact
  | .logicalType => inferInstanceAs LogicalType.layout.toCodec.Exact
  | .zdoDirectCb => inferInstanceAs Layout.flag.toCodec.Exact

instance (item : InfoItem) : item.layout.toCodec.Exact :=
  match item with
  | .deviceState => inferInstanceAs DeviceState.layout.toCodec.Exact
  | .ieeeAddress => inferInstanceAs Layout.u64.toCodec.Exact
  | .shortAddress => inferInstanceAs Layout.u16.toCodec.Exact
  | .parentShortAddress => inferInstanceAs Layout.u16.toCodec.Exact
  | .parentIeeeAddress => inferInstanceAs Layout.u64.toCodec.Exact
  | .channel => inferInstanceAs Layout.u8.toCodec.Exact
  | .panId => inferInstanceAs Layout.u16.toCodec.Exact
  | .extendedPanId => inferInstanceAs Layout.u64.toCodec.Exact

instance : optionCodec.Exact := inferInstanceAs (Codec.u8.pair .byteString).Exact

/-! ## All layouts -/

/-- The layouts of the values that are both written and read. A byte string, a list of words
and the value of an option occur twice : with the count as a field of the value, which may
disagree with the list, and with the list alone. -/
inductive PayloadLayout : {α : Type} → Codec α → Prop
  | u8 : PayloadLayout Codec.u8
  | u16 : PayloadLayout Codec.u16
  | u64 : PayloadLayout Codec.u64
  | byteString : PayloadLayout Codec.u8.counted
  | bytes : PayloadLayout Codec.byteString
  | wordList : PayloadLayout Codec.u16.counted
  | words : PayloadLayout Codec.u16.list
  | addressStatus : PayloadLayout AddressStatus.layout.toCodec
  | capability : PayloadLayout Capability.layout.toCodec
  | resetReason : PayloadLayout ResetReason.layout.toCodec
  | resetInfo : PayloadLayout ResetInfo.layout.toCodec
  | versionInfo : PayloadLayout VersionInfo.layout.toCodec
  | deviceState : PayloadLayout DeviceState.layout.toCodec
  | logicalType : PayloadLayout LogicalType.layout.toCodec
  | latency : PayloadLayout Latency.layout.toCodec
  | addressMode : PayloadLayout AddressMode.layout.toCodec
  | startupOutcome : PayloadLayout StartupOutcome.layout.toCodec
  | bindTarget : PayloadLayout BindTarget.layout.toCodec
  | bindTableEntry : PayloadLayout BindTableEntry.layout.toCodec
  | bindTable : PayloadLayout BindTable.layout.toCodec
  | ieeeAddressResponse : PayloadLayout IeeeAddressResponse.layout.toCodec
  | linkKey : PayloadLayout LinkKey.layout.toCodec
  | incomingMsg : PayloadLayout IncomingMsg.layout.toCodec
  | endDeviceAnnounce : PayloadLayout EndDeviceAnnounce.layout.toCodec
  | trustCenterDevice : PayloadLayout TrustCenterDevice.layout.toCodec
  | leaveIndication : PayloadLayout LeaveIndication.layout.toCodec
  | permitJoinIndication : PayloadLayout PermitJoinIndication.layout.toCodec
  | nodeDescriptor : PayloadLayout NodeDescriptor.layout.toCodec
  | activeEndpoints : PayloadLayout ActiveEndpoints.layout.toCodec
  | simpleDescriptor : PayloadLayout SimpleDescriptor.layout.toCodec
  | bdbCommissioningNotification : PayloadLayout BdbCommissioningNotification.layout.toCodec
  | rpcErrorInfo : PayloadLayout RpcErrorInfo.layout.toCodec
  | configItem (item : ConfigItem) : PayloadLayout item.layout.toCodec
  | infoItem (item : InfoItem) : PayloadLayout item.layout.toCodec
  | optionValue : PayloadLayout (Codec.u8.pair Codec.u8.counted)
  | option : PayloadLayout optionCodec

namespace PayloadLayout

variable {α : Type} {c : Codec α}

theorem exact (h : PayloadLayout c) : c.Exact := by
  cases h <;> infer_instance

theorem prefixCode (h : PayloadLayout c) : c.PrefixCode := by
  have hexact := h.exact
  exact c.prefixCode_of_exact

/-- The descriptor of an endpoint that takes two clusters and sends one. -/
theorem simpleDescriptor_prefixCode :
    let descriptor : SimpleDescriptor :=
      { srcAddr := 0x1234, status := 0, nwkAddr := 0x1234, len := 14, endpoint := 1
        profileId := 0x0104, deviceId := 0x0100, deviceVersion := 0
        numInClusters := 2, inClusters := [0, 6], numOutClusters := 1, outClusters := [5] }
    let bytes : Bytes :=
      [0x34, 0x12, 0, 0x34, 0x12, 14, 1, 4, 1, 0, 1, 0, 2, 0, 0, 6, 0, 1, 5, 0]
    SimpleDescriptor.layout.decode bytes = .ok descriptor ∧
      SimpleDescriptor.layout.decode (bytes ++ [7]) = .error (.trailingBytes 1) ∧
      ∃ bits, SimpleDescriptor.layout.decodeStart (bytes.take 17) =
        .error (.decode (.notEnough bits)) := by
  intro descriptor bytes
  have hcode := simpleDescriptor.prefixCode
  have hcounts : SimpleDescriptor.layout.Consistent descriptor := by
    refine ⟨trivial, trivial, trivial, trivial, trivial, trivial, trivial, trivial, ?_, ?_⟩
    all_goals exact ⟨rfl, fun _ _ => trivial⟩
  have hdecode := hcode.decode_write descriptor hcounts
  have hwrite : SimpleDescriptor.layout.write descriptor = bytes := by decide
  rw [hwrite] at hdecode
  obtain ⟨bits, -, hstart⟩ := hcode.truncated bytes descriptor hdecode (bytes.take 17)
    (List.take_prefix 17 bytes) (by decide)
  exact ⟨hdecode, (hcode.trailing bytes descriptor hdecode [7] (by decide)).1, bits, hstart⟩

end PayloadLayout

end ZigbeeHost
