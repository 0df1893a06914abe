import ZigbeeHost.Tool
import ZigbeeHost.Config.Load
/-!
# The command line

Reads a configuration, opens the serial device that it names and brings the network up.
The only argument is the path of the configuration. The device is read by a task of its
own, because a read waits for a byte; all else happens in the rounds of a `Tool`.
-/

namespace ZigbeeHost

/-- What has come from the device since it was last looked at. -/
structure Arrivals where
  bytes : Bytes := []
  closed : Bool := false

/-- Reads the device until it ends. -/
partial def listen (device : IO.FS.Handle) (arrivals : IO.Ref Arrivals) : IO Unit := do
  let chunk ← device.read 1
  if chunk.isEmpty then arrivals.modify fun a => { a with closed := true }
  else
    arrivals.modify fun a => { a with bytes := a.bytes ++ chunk.toList }
    listen device arrivals

/-- Shows the notes that the configuration asks for. -/
def showNotes (config : ToolConfig) (notes : List Note) : IO Unit :=
  for n in notes do
    if n.shown config.log then
      let level :=
        match n.level with
        | .info => "INFO"
        | .warn => "WARN"
      IO.eprintln (level ++ " " ++ n.text)

/-- Takes rounds until the tool ends, and tells why. -/
partial def serve (device : IO.FS.Handle) (arrivals : IO.Ref Arrivals) (since : Nat)
    (t : Tool) : IO String := do
  let arrived ← arrivals.modifyGet fun a => (a, { a with bytes := [] })
  let r := t.round arrived.bytes arrived.closed ((← IO.monoMsNow) - since)
  unless r.written.isEmpty do
    device.write ⟨r.written.toArray⟩
    device.flush
  showNotes t.config r.notes
  match r.ending with
  | some message => return message
  | none =>
    unless r.busy do IO.sleep (UInt32.ofNat t.config.session.pollInterval)
    serve device arrivals since r.tool

/-- Brings the network up over the device of the configuration. -/
def bringUp (config : ToolConfig) : IO String := do
  let input ← IO.FS.Handle.mk config.device .read
  let output ← IO.FS.Handle.mk config.device .append
  showNotes config [{ text := s!"Opened {config.device} at {config.baudRate} baud" }]
  let arrivals ← IO.mkRef {}
  let _ ← IO.asTask (listen input arrivals) .dedicated
  let origin := Instant.ofNanos (UInt64.ofNat (← IO.monoNanosNow))
  serve output arrivals (← IO.monoMsNow) (.start origin config)

/-- Brings the network up as the configuration at a path says. -/
def bringUpFrom (path : String) : IO String := do
  match ← (IO.FS.readFile path).toBaseIO with
  | .error e => return s!"Unable to read {path}: {e}"
  | .ok text =>
    match ToolConfig.load text with
    | .error fault => return "Bad config file: " ++ fault.message
    | .ok config => bringUp config

end ZigbeeHost

/-- Ends only when something fails. -/
def main (args : List String) : IO UInt32 := do
  IO.eprintln ("Error: " ++ (← ZigbeeHost.bringUpFrom (args.head?.getD "./config.json")))
  return 1
