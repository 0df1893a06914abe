import ZigbeeHost.BringUp
import ZigbeeHost.Link
/-!
# The bring-up tool

A `Tool` is a session behind a link, with a bring-up under way on it. It lives in rounds :
`round` takes the bytes that arrived since the last one and the time, and yields the bytes
to be written and the notes to be shown. The tool ends when its line or its bring-up
fails, or when a deadline is too late for the clock; a network that is up is served for
ever.
-/

namespace ZigbeeHost

/-- The tool at work. The session's host is the list of notes that are not shown yet. -/
structure Tool where
  /-- What the clock showed at time zero. -/
  origin : Instant
  config : ToolConfig
  link : Link := {}
  session : Session (List Note)
  progress : BringUp := .ready

namespace Tool

/-- The tool at the start. -/
def start (origin : Instant) (config : ToolConfig) : Tool :=
  { origin, config, session := .start config.session [] }

/-- The tool's only callback. -/
def narrator : CallbackId := 0

/-- The narrator notes what the network reports. -/
def application : Application (List Note) where
  hear _ _ i s := { s with host := s.host ++ (i.narration?.map fun text => { text }).toList }
  offer _ _ s := (s, {})
  abort _ _ s := s

/-- What a round leads to. -/
structure Round where
  tool : Tool
  written : Bytes
  notes : List Note
  /-- A frame was transferred, so more may be waiting. -/
  busy : Bool := false
  /-- Why the tool ends, if it does. -/
  ending : Option String := none

/-- One round at the time `now` : the link moves frames, then the bring-up goes on. A line
that is closed fails once all that arrived is read. -/
def round (arrived : Bytes) (closed : Bool) (now : Nat) (t : Tool) : Round :=
  let fed := t.link.line.feed arrived
  let link := { t.link with line := if closed then fed.close else fed }
  let session := { t.session with now }
  if link.overrun application t.origin 1 session then
    { tool := { t with link, session }, written := [], notes := session.host
      ending := some "overflow when adding duration to instant" }
  else
  let (moved, link, session) := link.runOnce application session
  let (written, line) := link.line.takeWritten
  let link := { link with line }
  match moved with
  | .error e =>
    { tool := { t with link, session }, written, notes := session.host,
      ending := some (e.under "Port closed") }
  | .ok busy =>
    let (progress, session, notes) := t.progress.poll t.config narrator session
    { tool := { t with link, session := { session with host := [] }, progress }
      written, notes := session.host ++ notes, busy
      ending :=
        match progress with
        | .failed message => some message
        | _ => none }

end Tool

/-- The note is of interest at a level of detail. -/
def Note.shown (log : String) (n : Note) : Bool :=
  match n.level with
  | .info => log ∉ ["off", "error", "warn"]
  | .warn => log ∉ ["off", "error"]

end ZigbeeHost
