import ZigbeeHost.Serial.Frame
import ZigbeeHost.Serial.Line
/-!
# Frames in transit

A serial line moves a few bytes at a time, so each direction has a buffer for the frame
in transit. `Inbound.readFrame` asks the line for exactly the bytes that the header, and
then the frame, still lack; so it never takes a byte that belongs to the next frame.
`Outbound.write` resumes a frame where the line stopped taking it.
-/

namespace ZigbeeHost

/-! ## Reading -/

/-- The frame being read : the bytes held, and how many more were asked for. -/
structure Inbound where
  held : Bytes := []
  awaited : Nat := 0

/-- A read that yields bytes leaves fewer on the line. -/
theorem Line.length_incoming_read_lt {line line' : Line} {room : Nat} {b : UInt8}
    {bytes : Bytes} (h : line.read room = (.ok (b :: bytes), line')) :
    line'.incoming.length < line.incoming.length := by
  have receive_lt : ∀ (l : Line) (count : Nat), l.receive count = (.ok (b :: bytes), line') →
      line'.incoming.length < l.incoming.length := by
    intro l count hl
    unfold Line.receive at hl
    split at hl
    · cases hl
    · injection hl with hb hl
      subst hl
      injection hb with hb
      have hlen := congrArg List.length hb
      simp only [List.length_take, List.length_cons] at hlen
      simp only [List.length_drop]
      omega
  unfold Line.read at h
  split at h
  · exact receive_lt line room h
  · cases h
  · cases h
  · have shorter := receive_lt _ _ h
    exact shorter

namespace Inbound

/-- Nothing was asked for. -/
def idle (buffer : Inbound) : Bool := buffer.awaited == 0

/-- With nothing asked for, resynchronises and asks for what is missing. -/
def prepare (buffer : Inbound) : Inbound :=
  if buffer.awaited = 0 then
    let held := resync buffer.held
    { held, awaited := missing held }
  else buffer

/-- Reads what the line has, up to the end of one frame : the frame, nothing if the line
runs dry before it is whole, or the fault in it. A failure of the line leaves the buffer
as it is, so that reading can resume. -/
def readFrame (buffer : Inbound) (line : Line) :
    Except TransportFailure (Option Frame) × Inbound × Line :=
  let buffer := buffer.prepare
  if buffer.awaited = 0 then ((Frame.decode buffer.held).map some, {}, line)
  else
    match _h : line.read buffer.awaited with
    | (.ok [], line) => (.ok none, buffer, line)
    | (.ok (b :: bytes), line) =>
      readFrame ⟨buffer.held ++ b :: bytes, buffer.awaited - (b :: bytes).length⟩ line
    | (.error .wouldBlock, line) => (.ok none, buffer, line)
    | (.error failure, line) => (.error failure, buffer, line)
termination_by line.incoming.length
decreasing_by exact Line.length_incoming_read_lt _h

end Inbound

/-! ## Writing -/

/-- The frame being written : its bytes that the line has not taken yet. -/
structure Outbound where
  unsent : Bytes := []

namespace Outbound

/-- Nothing is left to write. -/
def idle (buffer : Outbound) : Bool := buffer.unsent.isEmpty

/-- Takes a frame for writing, if the one before it is written. -/
def push (buffer : Outbound) (frame : Frame) : Except TransportFailure Outbound :=
  if buffer.unsent.isEmpty then frame.encode.map Outbound.mk else .error .bufferNotEmpty

/-- Writes what the line takes. The answer is whether nothing is left; then the line is
flushed, and the frame counts as written even if that fails. -/
def write (buffer : Outbound) (line : Line) :
    Except TransportFailure Bool × Outbound × Line :=
  if buffer.unsent.isEmpty then (.ok true, buffer, line)
  else
    match line.write buffer.unsent with
    | (.ok count, line) =>
      match buffer.unsent.drop count with
      | [] =>
        let (flushed, line) := line.flush
        (flushed.map fun _ => true, {}, line)
      | rest => (.ok false, ⟨rest⟩, line)
    | (.error .wouldBlock, line) => (.ok false, buffer, line)
    | (.error failure, line) => (.error failure, buffer, line)

end Outbound

end ZigbeeHost
