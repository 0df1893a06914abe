import ZigbeeHost.Failure
/-!
# The serial line

A `Line` holds the bytes that the other side has sent and the bytes written to it. It
never blocks : a read that finds nothing fails with `wouldBlock`, or with
`unexpectedEof` once the line is closed.

A line may be scripted. Each read, write and flush takes one cue off its own script and
obeys it; with an empty script it behaves as an ideal line.
-/

namespace ZigbeeHost

/-- What a scripted transfer does : it moves at most some bytes, or fails. -/
inductive TransferCue where
  | atMost (count : Nat)
  | failing (failure : TransportFailure)
  deriving DecidableEq

/-- A serial line as the host sees it. -/
structure Line where
  incoming : Bytes := []
  written : Bytes := []
  closed : Bool := false
  reads : List TransferCue := []
  writes : List TransferCue := []
  flushes : List (Option TransportFailure) := []

namespace Line

/-- The other side sends bytes. -/
def feed (line : Line) (bytes : Bytes) : Line :=
  { line with incoming := line.incoming ++ bytes }

/-- The other side goes away. -/
def close (line : Line) : Line := { line with closed := true }

/-- The bytes written since they were last taken. -/
def takeWritten (line : Line) : Bytes × Line := (line.written, { line with written := [] })

/-- Takes up to `count` of the bytes that have arrived. -/
def receive (line : Line) (count : Nat) : Except TransportFailure Bytes × Line :=
  if line.incoming.isEmpty then
    (.error (if line.closed then .unexpectedEof else .wouldBlock), line)
  else
    (.ok (line.incoming.take count), { line with incoming := line.incoming.drop count })

/-- Reads up to `room` bytes. -/
def read (line : Line) (room : Nat) : Except TransportFailure Bytes × Line :=
  match line.reads with
  | [] => line.receive room
  | .failing failure :: rest => (.error failure, { line with reads := rest })
  | .atMost 0 :: rest => (.ok [], { line with reads := rest })
  | .atMost count :: rest => { line with reads := rest }.receive (min count room)

/-- Writes bytes from the start of `bytes` and tells how many. -/
def write (line : Line) (bytes : Bytes) : Except TransportFailure Nat × Line :=
  match line.writes with
  | [] => (.ok bytes.length, { line with written := line.written ++ bytes })
  | .failing failure :: rest => (.error failure, { line with writes := rest })
  | .atMost count :: rest =>
    let sent := bytes.take count
    (.ok sent.length, { line with writes := rest, written := line.written ++ sent })

/-- Sees to it that written bytes leave the host. -/
def flush (line : Line) : Except TransportFailure Unit × Line :=
  match line.flushes with
  | [] => (.ok (), line)
  | none :: rest => (.ok (), { line with flushes := rest })
  | some failure :: rest => (.error failure, { line with flushes := rest })

end Line

end ZigbeeHost
