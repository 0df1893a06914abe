import ZigbeeHost.Request
import ZigbeeHost.Proofs.Payload.Catalogue
/-!
# What requests carry

A device reads a request by the layout of its fields, where every list stands behind a count
of its own. The `Form` of a request is that layout with the values that the request puts
there : a list goes behind the low byte of its length (`Codec.counting`), which is its length
only if it is short.

A request is refused, and the session stays as it is, or one frame is queued whose payload
reads back as the values, counts included (`Session.call_carries`). The counts agree because a
payload of at most 250 bytes has no room for a list that is too long to count. That argument
composes like the layouts do, so a form finds it from its fields (`Codec.Fits`).
-/

namespace ZigbeeHost

namespace Codec

variable {α β : Type}

/-- No fields. -/
def nothing : Codec Unit where
  write _ := []
  read bytes := .ok ((), bytes)
  Consistent _ := True

instance : nothing.Exact where
  read_write _ _ := rfl
  write_read h := by
    cases h
    exact ⟨trivial, rfl⟩
  read_short _ hwrite hmissing := by simp_all [nothing]

/-- A list behind the low byte of its length. -/
def counting (xs : List α) : UInt8 × List α := (UInt8.ofNat xs.length, xs)

/-- The counts in a value agree with its lists, provided that it takes fewer than 256
bytes. -/
class Fits (c : Codec α) (v : α) : Prop where
  consistent : (c.write v).length < 256 → c.Consistent v

section Fits

variable {a : Codec α} {b : Codec β}

instance : nothing.Fits () := ⟨fun _ => trivial⟩

instance {width : Nat} {ofNat : Nat → α} {toNat : α → Nat} {v : α} :
    (word width ofNat toNat).Fits v := ⟨fun _ => trivial⟩

instance {v : UInt8} : u8.Fits v := inferInstanceAs ((word 1 UInt8.ofNat UInt8.toNat).Fits v)

instance {v : UInt16} : u16.Fits v :=
  inferInstanceAs ((word 2 UInt16.ofNat UInt16.toNat).Fits v)

instance {v : UInt32} : u32.Fits v :=
  inferInstanceAs ((word 4 UInt32.ofNat UInt32.toNat).Fits v)

instance {v : UInt64} : u64.Fits v :=
  inferInstanceAs ((word 8 UInt64.ofNat UInt64.toNat).Fits v)

instance {v : Bool} : flag.Fits v := ⟨fun _ => trivial⟩

instance {v : Latency} : Latency.layout.toCodec.Fits v := ⟨fun _ => trivial⟩

instance {v : AddressMode} : AddressMode.layout.toCodec.Fits v := ⟨fun _ => trivial⟩

instance {v : BindTarget} : BindTarget.layout.toCodec.Fits v :=
  ⟨fun _ => ⟨trivial, trivial, trivial⟩⟩

instance {x : α} {y : β} [ha : a.Fits x] [hb : b.Fits y] : (a.pair b).Fits (x, y) where
  consistent h := by
    simp only [pair, List.length_append] at h
    exact ⟨ha.consistent (by omega), hb.consistent (by omega)⟩

/-- Every item of a list takes room, so a short payload has few items. -/
theorem fits_counting {item : Codec α} (hitem : ∀ x, item.Consistent x)
    (hroom : ∀ x, 1 ≤ (item.write x).length) (xs : List α) : item.counted.Fits (counting xs) where
  consistent h := by
    have hle : xs.length ≤ (xs.flatMap item.write).length := by
      rw [List.length_flatMap]
      simpa using List.length_le_sum_of_one_le (xs.map fun x => (item.write x).length)
        (by simpa using fun x _ => hroom x)
    simp only [counted, counting, List.length_append] at h
    refine ⟨?_, fun x _ => hitem x⟩
    rw [counting, UInt8.toNat_ofNat']
    exact Nat.mod_eq_of_lt (by omega)

instance {xs : List UInt8} : u8.counted.Fits (counting xs) :=
  fits_counting (fun _ => trivial) (fun _ => by simp [u8, word]) xs

instance {xs : List UInt16} : u16.counted.Fits (counting xs) :=
  fits_counting (fun _ => trivial) (fun _ => by simp [u16, word]) xs

end Fits

end Codec

/-! ## The fields of each request -/

/-- Values in a layout that a device can read back, unless they take too much room. -/
structure Form where
  {Values : Type}
  layout : Codec Values
  values : Values
  [exact : layout.Exact]
  [fits : layout.Fits values]

attribute [instance] Form.exact Form.fits

/-- The values, written one after the other. -/
def Form.encoded (form : Form) : Bytes := form.layout.write form.values

section Forms

open Codec

/-- The fields of a request to the system. -/
def SystemRequest.form : SystemRequest → Form
  | ping => ⟨nothing, ()⟩
  | version => ⟨nothing, ()⟩
  | createItem id length data => ⟨u16.pair <| u16.pair u8.counted, (id, length, counting data)⟩
  | readItem id offset => ⟨u16.pair u8, (id, offset)⟩
  | writeItem id offset data => ⟨u16.pair <| u8.pair u8.counted, (id, offset, counting data)⟩
  | deleteItem id length => ⟨u16.pair u16, (id, length)⟩
  | itemLength id => ⟨u16, id⟩

theorem SystemRequest.payload_eq (r : SystemRequest) : r.payload = r.form.encoded := by
  cases r <;> rfl

/-- The fields of a request to an endpoint. -/
def EndpointRequest.form : EndpointRequest → Form
  | register d =>
    ⟨u8.pair <| u16.pair <| u16.pair <| u8.pair <| Latency.layout.toCodec.pair <|
        u16.counted.pair u16.counted,
      (d.endpoint, d.profileId, d.deviceId, d.version, d.latency, counting d.inputClusters,
        counting d.outputClusters)⟩
  | sendData d =>
    ⟨u16.pair <| u8.pair <| u8.pair <| u16.pair <| u8.pair <| u8.pair <| u8.pair u8.counted,
      (d.dstAddr, d.dstEndpoint, d.srcEndpoint, d.clusterId, d.transId, d.options, d.radius,
        counting d.data)⟩

theorem EndpointRequest.payload_exchange (config : SessionConfig) (r : EndpointRequest) :
    (r.exchange config).payload = r.form.encoded := by
  cases r <;> rfl

/-- The fields of a request to the network. A device is asked about itself, so its address
stands twice; a name is carried as its bytes. -/
def NetworkRequest.form : NetworkRequest → Form
  | ieeeAddress address children =>
    ⟨u16.pair <| flag.pair u8, (address, children.isSome, children.getD 0)⟩
  | removeLinkKey address => ⟨u64, address⟩
  | linkKey address => ⟨u64, address⟩
  | leave dst device removeRejoin => ⟨u16.pair <| u64.pair u8, (dst, device, removeRejoin)⟩
  | directJoin dst device => ⟨u16.pair u64, (dst, device)⟩
  | permitJoin mode dst duration tcSignificance =>
    ⟨AddressMode.layout.toCodec.pair <| u16.pair <| u8.pair u8,
      (mode, dst, duration, tcSignificance)⟩
  | startup delay => ⟨u16, delay⟩
  | nodeDescriptor address => ⟨u16.pair u16, (address, address)⟩
  | activeEndpoints address => ⟨u16.pair u16, (address, address)⟩
  | simpleDescriptor address endpoint =>
    ⟨u16.pair <| u16.pair u8, (address, address, endpoint)⟩
  | bind b | unbind b =>
    ⟨u16.pair <| u64.pair <| u8.pair <| u16.pair BindTarget.layout.toCodec,
      (b.dstAddr, b.srcAddr, b.srcEndpoint, b.clusterId, b.target)⟩
  | bindTable dst startIndex => ⟨u16.pair u8, (dst, startIndex)⟩
  | removeGroup endpoint group => ⟨u8.pair u16, (endpoint, group)⟩
  | groupName endpoint group => ⟨u8.pair u16, (endpoint, group)⟩
  | removeAllGroups endpoint => ⟨u8, endpoint⟩
  | groupsOf endpoint => ⟨u8.pair u8, (endpoint, 0)⟩
  | addGroup endpoint group name =>
    ⟨u8.pair <| u16.pair u8.counted, (endpoint, group, counting name.toUTF8.toList)⟩
  | countGroups => ⟨nothing, ()⟩

theorem NetworkRequest.payload_eq (r : NetworkRequest) : r.payload = r.form.encoded := by
  cases r <;> rfl

/-- The fields of a request to the configuration of the device. The value of an item is carried
as its bytes. -/
def ConfigurationRequest.form : ConfigurationRequest → Form
  | readOption option => ⟨u8, option⟩
  | readItem item => ⟨u8, item.option⟩
  | deviceInfo info => ⟨u8, info⟩
  | infoItem item => ⟨u8, item.id⟩
  | writeOption option value => ⟨u8.pair u8.counted, (option, counting value)⟩
  | writeItem item value =>
    ⟨u8.pair u8.counted, (item.option, counting (item.layout.write value))⟩

theorem ConfigurationRequest.payload_eq (r : ConfigurationRequest) :
    r.payload = r.form.encoded := by
  cases r <;> rfl

/-- The fields of a lookup. -/
def LookupRequest.form : LookupRequest → Form
  | ieeeOf address => ⟨u16, address⟩
  | shortOf address => ⟨u64, address⟩

theorem LookupRequest.payload_exchange (r : LookupRequest) :
    r.exchange.payload = r.form.encoded := by
  cases r <;> rfl

/-- The fields of a request for commissioning. -/
def CommissioningRequest.form : CommissioningRequest → Form
  | setChannel primary mask => ⟨flag.pair u32, (primary, mask)⟩
  | start mode => ⟨u8, mode⟩

theorem CommissioningRequest.payload_exchange (r : CommissioningRequest) :
    r.exchange.payload = r.form.encoded := by
  cases r <;> rfl

/-! ## The fields of each call -/

namespace Call

/-- The fields of a call that sends any. A bare exchange sends the bytes that it is given, and a
wait sends nothing. -/
def form? : Call → Option Form
  | request (.system r) => some r.form
  | request (.endpoint r) => some r.form
  | request (.network r) => some r.form
  | request (.configuration r) => some r.form
  | request (.lookup r) => some r.form
  | request (.commissioning r) => some r.form
  | reset soft => some ⟨flag, soft⟩
  | reachState .. => some ⟨u8, deviceStateInfo⟩
  | request (.bare _) | waitFor .. => none

/-- The name that the call gives to a group. -/
def groupName? : Call → Option String
  | request (.network (.addGroup _ _ name)) => some name
  | _ => none

/-- No group gets a name that is too long. -/
def NamesFit (c : Call) : Prop :=
  ∀ name, c.groupName? = some name → name.utf8ByteSize ≤ NetworkRequest.maxGroupNameLength

/-- Why a call with the fields `form` is refused : a name of a group or a payload is too long. -/
inductive Refused (c : Call) (form : Form) : Failure → Prop
  | groupName {name : String} : c.groupName? = some name →
      NetworkRequest.maxGroupNameLength < name.utf8ByteSize →
        Refused c form (.groupNameTooLong name.utf8ByteSize)
  | payload : maxPayloadLength < form.encoded.length →
      Refused c form (.payloadTooLong form.encoded.length)

theorem not_refused {c : Call} {form : Form} (hname : c.NamesFit)
    (hlength : form.encoded.length ≤ maxPayloadLength) (e : Failure) : ¬ c.Refused form e
  | .groupName hsome hlong => Nat.not_le_of_lt hlong (hname _ hsome)
  | .payload hlong => Nat.not_le_of_lt hlong hlength

/-- The frame carries the fields `form` of a call. -/
structure Carries (c : Call) (form : Form) (f : Frame) : Prop where
  length_le : f.payload.length ≤ maxPayloadLength
  /-- The payload reads back as the values. -/
  decode : form.layout.decode f.payload = .ok form.values
  /-- Every count is the length of the list behind it. -/
  counts : form.layout.Consistent form.values
  /-- The bytes that stand for the value of a configuration item read back as that value. -/
  item : ∀ item value, c = .request (.configuration (.writeItem item value)) →
    ∃ count bytes, (u8.pair u8.counted).decode f.payload = .ok (item.option, count, bytes) ∧
      item.layout.decode bytes = .ok value

theorem carries_encoded {c : Call} {form : Form} {f : Frame} (hform : c.form? = some form)
    (hpayload : f.payload = form.encoded) (hlength : form.encoded.length ≤ maxPayloadLength) :
    c.Carries form f := by
  have hcounts : form.layout.Consistent form.values :=
    Fits.consistent (Nat.lt_of_le_of_lt hlength (by decide))
  have hdecode : form.layout.decode f.payload = .ok form.values := by
    rw [hpayload]
    exact form.layout.prefixCode_of_exact.decode_write _ hcounts
  refine ⟨hpayload ▸ hlength, hdecode, hcounts, ?_⟩
  rintro item value rfl
  have hitem : item.layout.Consistent value := by
    cases item <;> trivial
  cases hform
  exact ⟨_, _, hdecode, item.layout.prefixCode_of_exact.decode_write value hitem⟩

end Call

end Forms

/-! ## Starting a call -/

/-- A request to the network becomes an exchange of its payload, unless it names a group
that it adds, with a name that is too long. -/
theorem NetworkRequest.exchange_cases (config : SessionConfig) (r : NetworkRequest) :
    (∃ x, r.exchange config = .ok x ∧ x.payload = r.payload ∧ x.responses ≠ [] ∧
      (Call.request (.network r)).NamesFit) ∨
    ∃ e, r.exchange config = .error e ∧ (Call.request (.network r)).Refused r.form e := by
  cases r with
  | addGroup endpoint group name =>
    by_cases hname : maxGroupNameLength < name.utf8ByteSize
    · exact .inr ⟨_, by simp [exchange, hname], .groupName rfl hname⟩
    · have hok : (addGroup endpoint group name).exchange config =
          .ok (.simple (commandOf 0x4B) (addGroup endpoint group name).payload) := by
        simp [exchange, hname, command]
      refine .inl ⟨_, hok, rfl, List.cons_ne_nil _ _, ?_⟩
      rintro _ ⟨⟩
      exact Nat.not_lt.mp hname
  | _ => exact .inl ⟨_, rfl, rfl, List.cons_ne_nil _ _, nofun⟩

namespace Session

variable {η : Type}

/-- The call with the fields `form` is refused for cause and nothing changes, or there is no
cause and one frame with the fields is queued. -/
def RefusesOrSends (c : Call) (form : Form) (s : Session η)
    (result : Except Failure OperationId × Session η) : Prop :=
  (∃ e, result = (.error e, s) ∧ c.Refused form e) ∨
    (∀ e, ¬ c.Refused form e) ∧ ∃ op t f,
      result = (.ok op, t) ∧ t.outbound = s.outbound ++ [f] ∧ c.Carries form f

theorem request_refusesOrSends {r : Request} {form : Form} {x : Exchange} {s : Session η}
    (hform : (Call.request r).form? = some form) (hexchange : r.exchange s.config = .ok x)
    (hresponses : x.responses ≠ []) (hpayload : x.payload = form.encoded)
    (hname : (Call.request r).NamesFit) :
    RefusesOrSends (.request r) form s (s.call (.request r)) := by
  have hempty : x.responses.isEmpty = false := by simpa using hresponses
  have hcall : s.call (.request r) = s.exchange x := by simp only [call, request, hexchange]
  rw [hcall]
  by_cases hlength : form.encoded.length ≤ maxPayloadLength
  · have hrefusal : x.refusal? = none := by
      simp [Exchange.refusal?, hempty, hpayload, hlength]
    have hsent : s.exchange x = (.ok s.issue.1, (s.issue.2.addHandler
        (.response x.responses (x.aftermath s.issue.1))).send x.frame) := by
      simp only [exchange, hrefusal]
    exact .inr ⟨Call.not_refused hname hlength, _, _, x.frame, hsent, rfl,
      Call.carries_encoded hform hpayload hlength⟩
  · have hrefusal : x.refusal? = some (.payloadTooLong form.encoded.length) := by
      simp [Exchange.refusal?, hempty, hpayload, hlength]
    exact .inl ⟨_, by simp only [exchange, hrefusal], .payload (Nat.lt_of_not_le hlength)⟩

/-- **What a call carries.** A call with fields fails at once, because the name of a group has
more than 16 bytes or its payload more than 250, and the session is as before; or one frame
goes behind all others, and its payload reads back as exactly the values in the fields. -/
theorem call_carries {c : Call} {form : Form} (hform : c.form? = some form) (s : Session η) :
    RefusesOrSends c form s (s.call c) := by
  rcases c with (r | r | r | r | r | r | x) | soft | ⟨ends, allowed⟩ | ⟨pattern, window⟩
  all_goals cases hform
  · exact request_refusesOrSends rfl rfl (List.cons_ne_nil _ _) r.payload_eq nofun
  · refine request_refusesOrSends rfl rfl ?_ (r.payload_exchange s.config) nofun
    cases r <;> exact List.cons_ne_nil _ _
  · rcases r.exchange_cases s.config with ⟨x, hx, hpayload, hresponses, hname⟩ | ⟨e, he, hcause⟩
    · exact request_refusesOrSends rfl hx hresponses (hpayload.trans r.payload_eq) hname
    · exact .inl ⟨e, by simp only [call, request, Request.exchange, he], hcause⟩
  · exact request_refusesOrSends rfl rfl (List.cons_ne_nil _ _) r.payload_eq nofun
  · refine request_refusesOrSends rfl rfl ?_ r.payload_exchange nofun
    cases r <;> exact List.cons_ne_nil _ _
  · refine request_refusesOrSends rfl rfl ?_ r.payload_exchange nofun
    cases r <;> exact List.cons_ne_nil _ _
  · have hlength : (Form.mk Codec.flag soft).encoded.length ≤ maxPayloadLength := by
      cases soft <;> decide
    exact .inr ⟨Call.not_refused nofun hlength, _, _, _, rfl, rfl,
      Call.carries_encoded rfl rfl hlength⟩
  · have hlength : (Form.mk Codec.u8 deviceStateInfo).encoded.length ≤ maxPayloadLength := by
      decide
    exact .inr ⟨Call.not_refused nofun hlength, _, _, _, rfl, rfl,
      Call.carries_encoded rfl rfl hlength⟩

/-- An endpoint with two input clusters and one output cluster is registered. -/
theorem register_carries :
    let r : EndpointRequest := .register
      { endpoint := 1, profileId := 0x0104, deviceId := 0x0100, version := 0
        latency := .noLatency, inputClusters := [0, 6], outputClusters := [5] }
    let c : Call := .request (.endpoint r)
    c.form? = some r.form ∧
      ∃ f, ((start {} ()).call c).2.outbound = [f] ∧ c.Carries r.form f := by
  intro r c
  refine ⟨rfl, ?_⟩
  have hform : c.form? = some r.form := rfl
  rcases call_carries hform (start {} ()) with ⟨e, -, hcause⟩ | ⟨-, op, t, f, h⟩
  · have hname : c.NamesFit := by simp [c, Call.NamesFit, Call.groupName?]
    have hlength : r.form.encoded.length ≤ maxPayloadLength := by decide
    exact absurd hcause (Call.not_refused hname hlength e)
  · exact ⟨f, by rw [h.1]; exact h.2.1, h.2.2⟩

end Session

end ZigbeeHost
