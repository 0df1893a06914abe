import ZigbeeHost.Bytes
/-!
# Frames of the co-processor

A frame has a kind, a command and a payload. A command is named by its subsystem, a
number below sixteen, and its id within the subsystem; the frame's kind is no part of
it, so a request and its answer can carry the same command.
-/

namespace ZigbeeHost

/-! ## Kinds of frames -/

/-- Polls, synchronous requests, asynchronous messages and synchronous responses. -/
inductive FrameKind where
  | poll
  | sreq
  | areq
  | srsp
  deriving DecidableEq

namespace FrameKind

/-- The number of the kind on the serial line. -/
def bits : FrameKind → UInt8
  | poll => 0
  | sreq => 2
  | areq => 4
  | srsp => 6

/-- The kind of a number; odd numbers and those above six name none. -/
def ofBits? (b : UInt8) : Option FrameKind :=
  if b = 0 then some poll
  else if b = 2 then some sreq
  else if b = 4 then some areq
  else if b = 6 then some srsp
  else none

/-- The kind's usual abbreviation. -/
def name : FrameKind → String
  | poll => "POLL"
  | sreq => "SREQ"
  | areq => "AREQ"
  | srsp => "SRSP"

/-- The bits of a kind are read back. -/
theorem ofBits?_bits (k : FrameKind) : ofBits? k.bits = some k := by
  cases k <;> decide

theorem ofBits?_eq_some_iff {b : UInt8} {k : FrameKind} : ofBits? b = some k ↔ b = k.bits := by
  constructor
  · intro h
    unfold ofBits? at h
    split at h
    · cases h; assumption
    · split at h
      · cases h; assumption
      · split at h
        · cases h; assumption
        · split at h
          · cases h; assumption
          · cases h
  · rintro rfl
    exact ofBits?_bits k

end FrameKind

/-! ## Subsystems and commands -/

/-- A subsystem of the co-processor : a number below sixteen. -/
structure Subsystem where
  index : Fin 16
  deriving DecidableEq

namespace Subsystem

/-- The subsystem in the low four bits of a byte. -/
def ofBits (b : UInt8) : Subsystem := ⟨⟨b.toNat % 16, Nat.mod_lt _ (by decide)⟩⟩

/-- The subsystem's number as a byte. -/
def bits (s : Subsystem) : UInt8 := UInt8.ofNat s.index.val

/-- Notices of rejected requests. -/
def rpcError : Subsystem := ⟨0⟩
/-- The co-processor as a whole. -/
def sys : Subsystem := ⟨1⟩
/-- Access to the medium. -/
def mac : Subsystem := ⟨2⟩
/-- The network layer. -/
def nwk : Subsystem := ⟨3⟩
/-- Messages between applications. -/
def af : Subsystem := ⟨4⟩
/-- Devices and the network they form. -/
def zdo : Subsystem := ⟨5⟩
/-- The simple interface to the network. -/
def sapi : Subsystem := ⟨6⟩
/-- Access to what the co-processor knows. -/
def util : Subsystem := ⟨7⟩
/-- Diagnosis. -/
def debug : Subsystem := ⟨8⟩
/-- Applications on the co-processor. -/
def app : Subsystem := ⟨9⟩
/-- The configuration of commissioning. -/
def appCnf : Subsystem := ⟨15⟩

/-- The subsystem's name; the numbers ten to fourteen have none. -/
def name? (s : Subsystem) : Option String :=
  match s.index.val with
  | 0 => some "RPC_Error"
  | 1 => some "SYS"
  | 2 => some "MAC"
  | 3 => some "NWK"
  | 4 => some "AF"
  | 5 => some "ZDO"
  | 6 => some "SAPI"
  | 7 => some "UTIL"
  | 8 => some "DEBUG"
  | 9 => some "APP"
  | 15 => some "APP_CNF"
  | _ => none

/-- The name, or the number of a subsystem without one. -/
def display (s : Subsystem) : String :=
  s.name?.getD s!"UNK({s.index.val})"

end Subsystem

/-- A command : its subsystem and its id there. -/
structure Command where
  subsystem : Subsystem
  id : UInt8
  deriving DecidableEq

/-- The command of an answer that rejects a request. -/
def Command.rpcError : Command := ⟨.rpcError, 0⟩

/-! ## Frames -/

/-- One message between host and co-processor. -/
structure Frame where
  kind : FrameKind
  command : Command
  payload : Bytes
  deriving DecidableEq

/-- The most payload bytes a frame can carry. -/
def maxPayloadLength : Nat := 250

end ZigbeeHost
