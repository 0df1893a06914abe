import ZigbeeHost.Request.Exchange
/-!
# Address look-ups

The address manager of a device knows pairs of addresses.
-/

namespace ZigbeeHost

/-- Requests to the address manager. -/
inductive LookupRequest where
  | ieeeOf (address : ShortAddress)
  | shortOf (address : IeeeAddress)

namespace LookupRequest

/-- What is sent, and what is to come back. -/
def exchange : LookupRequest → Exchange
  | ieeeOf address => .simple ⟨.util, 0x41⟩ (Codec.u16.write address)
  | shortOf address => .simple ⟨.util, 0x40⟩ (Codec.u64.write address)

/-- What the request yields : the other address. -/
abbrev Answer : LookupRequest → Type
  | ieeeOf _ => IeeeAddress
  | shortOf _ => ShortAddress

/-- Reads the answer. -/
def read : (r : LookupRequest) → Bytes → Except Failure r.Answer
  | ieeeOf _, b => Codec.u64.decode b
  | shortOf _, b => Codec.u16.decode b

end LookupRequest

end ZigbeeHost
