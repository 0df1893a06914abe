import ZigbeeHost.Request.Exchange
/-!
# Commissioning

The channels to commission on, and the start of commissioning, whose progress arrives as
an event.
-/

namespace ZigbeeHost

/-- Requests about commissioning. -/
inductive CommissioningRequest where
  | setChannel (primary : Bool) (mask : UInt32)
  | start (mode : UInt8)

namespace CommissioningRequest

/-- What is sent, and what is to come back. -/
def exchange : CommissioningRequest → Exchange
  | setChannel primary mask =>
    .simple ⟨.appCnf, 0x08⟩ ((Codec.flag.pair Codec.u32).write (primary, mask))
  | start mode => .simple ⟨.appCnf, 0x05⟩ (Codec.u8.write mode)

/-- Both requests yield nothing but their success. -/
abbrev Answer (_ : CommissioningRequest) : Type := Unit

/-- Reads the answer. -/
def read (r : CommissioningRequest) (b : Bytes) : Except Failure r.Answer := checkOnlyStatus b

end CommissioningRequest

end ZigbeeHost
