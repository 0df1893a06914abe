import ZigbeeHost.Request.Exchange
/-!
# Requests to the system

Liveness, versions and the items in a device's non-volatile memory.
-/

namespace ZigbeeHost

/-- Requests to the system subsystem. An item has a number and a length in bytes. -/
inductive SystemRequest where
  | ping
  | version
  | createItem (id length : UInt16) (data : Bytes)
  | readItem (id : UInt16) (offset : UInt8)
  | writeItem (id : UInt16) (offset : UInt8) (data : Bytes)
  | deleteItem (id length : UInt16)
  /-- The length of an item, zero if there is none. -/
  | itemLength (id : UInt16)

namespace SystemRequest

/-- The command that carries the request. -/
def command : SystemRequest → Command
  | ping => ⟨.sys, 0x01⟩
  | version => ⟨.sys, 0x02⟩
  | createItem .. => ⟨.sys, 0x07⟩
  | readItem .. => ⟨.sys, 0x08⟩
  | writeItem .. => ⟨.sys, 0x09⟩
  | deleteItem .. => ⟨.sys, 0x12⟩
  | itemLength .. => ⟨.sys, 0x13⟩

open Codec in
/-- The arguments as they are sent. -/
def payload : SystemRequest → Bytes
  | ping | version => []
  | createItem id length data => (u16.pair <| u16.pair byteString).write (id, length, data)
  | readItem id offset => (u16.pair u8).write (id, offset)
  | writeItem id offset data => (u16.pair <| u8.pair byteString).write (id, offset, data)
  | deleteItem id length => (u16.pair u16).write (id, length)
  | itemLength id => u16.write id

/-- What is sent, and what is to come back. -/
def exchange (r : SystemRequest) : Exchange := .simple r.command r.payload

/-- What the request yields. -/
abbrev Answer : SystemRequest → Type
  | ping => Capability
  | version => VersionInfo
  | readItem .. => Bytes
  | itemLength .. => UInt16
  | createItem .. | writeItem .. | deleteItem .. => Unit

/-- Reads the answer. -/
def read : (r : SystemRequest) → Bytes → Except Failure r.Answer
  | ping, b => Capability.codec.decode b
  | version, b => VersionInfo.codec.decode b
  | readItem .., b => do Codec.byteString.decode (← checkStatus b)
  | itemLength .., b => Codec.u16.decode b
  | createItem .., b => checkOnlyStatus b
  | writeItem .., b => checkOnlyStatus b
  | deleteItem .., b => checkOnlyStatus b

end SystemRequest

end ZigbeeHost
