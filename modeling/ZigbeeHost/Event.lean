import ZigbeeHost.Payload.Indication
import ZigbeeHost.Failure
/-!
# Events

An event is a kind of unsolicited message that applications subscribe to. Each has the
command of the frames that carry it; an `Indication` is one occurrence with its value.
-/

namespace ZigbeeHost

/-- The kinds of unsolicited message. -/
inductive Event where
  | reset
  | stateChange
  | endDeviceAnnounce
  | trustCenterDevice
  | permitJoin
  | leave
  | nodeDescriptor
  | activeEndpoints
  | simpleDescriptor
  | commissioning
  | incomingMsg
  deriving DecidableEq

/-- One occurrence of an event. -/
inductive Indication where
  | reset (info : ResetInfo)
  | stateChange (state : DeviceState)
  | endDeviceAnnounce (device : EndDeviceAnnounce)
  | trustCenterDevice (device : TrustCenterDevice)
  | permitJoin (permit : PermitJoinIndication)
  | leave (device : LeaveIndication)
  | nodeDescriptor (descriptor : NodeDescriptor)
  | activeEndpoints (endpoints : ActiveEndpoints)
  | simpleDescriptor (descriptor : SimpleDescriptor)
  | commissioning (progress : BdbCommissioningNotification)
  | incomingMsg (message : IncomingMsg)
  deriving DecidableEq

/-- The event that occurred. -/
def Indication.event : Indication → Event
  | reset _ => .reset
  | stateChange _ => .stateChange
  | endDeviceAnnounce _ => .endDeviceAnnounce
  | trustCenterDevice _ => .trustCenterDevice
  | permitJoin _ => .permitJoin
  | leave _ => .leave
  | nodeDescriptor _ => .nodeDescriptor
  | activeEndpoints _ => .activeEndpoints
  | simpleDescriptor _ => .simpleDescriptor
  | commissioning _ => .commissioning
  | incomingMsg _ => .incomingMsg

/-- The value as data. -/
def Indication.present : Indication → Datum
  | reset v => ResetInfo.layout.present v
  | stateChange v => DeviceState.layout.present v
  | endDeviceAnnounce v => EndDeviceAnnounce.layout.present v
  | trustCenterDevice v => TrustCenterDevice.layout.present v
  | permitJoin v => PermitJoinIndication.layout.present v
  | leave v => LeaveIndication.layout.present v
  | nodeDescriptor v => NodeDescriptor.layout.present v
  | activeEndpoints v => ActiveEndpoints.layout.present v
  | simpleDescriptor v => SimpleDescriptor.layout.present v
  | commissioning v => BdbCommissioningNotification.layout.present v
  | incomingMsg v => IncomingMsg.layout.present v

namespace Event

/-- All events, in the order in which a session listens for them. -/
def all : List Event := [
  reset, stateChange, endDeviceAnnounce, trustCenterDevice, permitJoin, leave,
  nodeDescriptor, activeEndpoints, simpleDescriptor, commissioning, incomingMsg]

/-- The command of the frames that carry the event. -/
def command : Event → Command
  | reset => ⟨.sys, 0x80⟩
  | stateChange => ⟨.zdo, 0xC0⟩
  | endDeviceAnnounce => ⟨.zdo, 0xC1⟩
  | trustCenterDevice => ⟨.zdo, 0xCA⟩
  | permitJoin => ⟨.zdo, 0xCB⟩
  | leave => ⟨.zdo, 0xC9⟩
  | nodeDescriptor => ⟨.zdo, 0x82⟩
  | activeEndpoints => ⟨.zdo, 0x85⟩
  | simpleDescriptor => ⟨.zdo, 0x84⟩
  | commissioning => ⟨.appCnf, 0x80⟩
  | incomingMsg => ⟨.af, 0x81⟩

/-- Bytes behind the value are ignored : some firmware appends three bytes to messages. -/
def lenient : Event → Bool
  | incomingMsg => true
  | _ => false

/-- Reads the value of an event, whole or from the start of the payload. -/
def read (lenient : Bool) (event : Event) (payload : Bytes) : Except Failure Indication :=
  let decode {α : Type} (c : Codec α) : Except Failure α :=
    if lenient then c.decodeStart payload else c.decode payload
  match event with
  | reset => (decode ResetInfo.codec).map .reset
  | stateChange => (decode DeviceState.codec).map .stateChange
  | endDeviceAnnounce => (decode EndDeviceAnnounce.codec).map .endDeviceAnnounce
  | trustCenterDevice => (decode TrustCenterDevice.codec).map .trustCenterDevice
  | permitJoin => (decode PermitJoinIndication.codec).map .permitJoin
  | leave => (decode LeaveIndication.codec).map .leave
  | nodeDescriptor => (decode NodeDescriptor.codec).map .nodeDescriptor
  | activeEndpoints => (decode ActiveEndpoints.codec).map .activeEndpoints
  | simpleDescriptor => (decode SimpleDescriptor.codec).map .simpleDescriptor
  | commissioning => (decode BdbCommissioningNotification.codec).map .commissioning
  | incomingMsg => (decode IncomingMsg.codec).map .incomingMsg

/-- The occurrence whose value is given as data. -/
def parse (event : Event) (d : Datum) : Option Indication :=
  match event with
  | reset => (ResetInfo.layout.parse d).map .reset
  | stateChange => (DeviceState.layout.parse d).map .stateChange
  | endDeviceAnnounce => (EndDeviceAnnounce.layout.parse d).map .endDeviceAnnounce
  | trustCenterDevice => (TrustCenterDevice.layout.parse d).map .trustCenterDevice
  | permitJoin => (PermitJoinIndication.layout.parse d).map .permitJoin
  | leave => (LeaveIndication.layout.parse d).map .leave
  | nodeDescriptor => (NodeDescriptor.layout.parse d).map .nodeDescriptor
  | activeEndpoints => (ActiveEndpoints.layout.parse d).map .activeEndpoints
  | simpleDescriptor => (SimpleDescriptor.layout.parse d).map .simpleDescriptor
  | commissioning => (BdbCommissioningNotification.layout.parse d).map .commissioning
  | incomingMsg => (IncomingMsg.layout.parse d).map .incomingMsg

end Event

end ZigbeeHost
