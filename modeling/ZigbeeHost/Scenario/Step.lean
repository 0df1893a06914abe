import ZigbeeHost.BringUp
import ZigbeeHost.Link
import ZigbeeHost.Config.Load
/-!
# Steps of a scenario

A scenario plays an application on a session. It is a list of steps; a subscriber or
handler that a step attaches carries a script, the steps that it takes each time it is
called. Scripts are finite, and each part of one is played once, so `Step.weight` bounds
how deep calls can nest.
-/

namespace ZigbeeHost.Scenario

/-- What happens to the serial line of a link. -/
inductive LineStep where
  | feed (bytes : Bytes)
  | close
  | written
  | scriptReads (cues : List TransferCue)
  | scriptWrites (cues : List TransferCue)
  | scriptFlushes (cues : List (Option TransportFailure))

mutual

/-- Something that the application does. -/
inductive Step where
  | call (call : Call)
  | frame (frame : Frame)
  | advance (millis : Nat)
  | expire
  | shutdown (failure : Failure)
  | send (frame : Frame)
  | rest
  | nextOutbound
  | takeOutbound
  /-- Forgets a call. -/
  | cancel (id : Nat)
  /-- Attaches a subscriber under a name. An extended one may detach itself; a
  persistent one stays when its name is given to another. -/
  | subscribe (name : String) (event : Event) (script : List (List Step))
      (extended persistent : Bool)
  | unsubscribe (name : String)
  | disconnectSelf
  | emit (indication : Indication)
  | addHandler (name : String) (script : List Cue) (permanent : Bool) (onAbort : List Step)
  /-- Gives up the handle of the session and the link. -/
  | dropHandle
  /-- Starts a bring-up with the configuration that a text holds. -/
  | bringUp (config : String)
  | runOnce
  | run
  | line (step : LineStep)

/-- What a handler does when it is called : it may have a wait installed, then takes some
steps, then answers. -/
inductive Cue where
  | mk (verdict : Verdict) (install : Option (Pattern × Option Nat)) (steps : List Step)

end

mutual

/-- The number of steps, with those in scripts. -/
def Step.weight : Step → Nat
  | .subscribe _ _ script _ _ => scriptWeight script + 1
  | .addHandler _ script _ onAbort => cuesWeight script + weight onAbort + 1
  | _ => 1

/-- How many steps a cue has, nested ones included. -/
def Cue.weight : Cue → Nat
  | .mk _ _ steps => Scenario.weight steps

/-- The number of steps in a list, with those in scripts. -/
def weight : List Step → Nat
  | [] => 0
  | step :: steps => step.weight + weight steps

/-- How many steps a script has. -/
def scriptWeight : List (List Step) → Nat
  | [] => 0
  | steps :: script => weight steps + scriptWeight script

/-- How many steps some cues have. -/
def cuesWeight : List Cue → Nat
  | [] => 0
  | cue :: cues => cue.weight + cuesWeight cues

end

/-- What a step yields. -/
inductive Answer where
  | nothing
  | opened (id : Nat)
  | truth (value : Bool)
  | outbound (frame : Option Frame)
  | frames (frames : List Frame)
  | written (bytes : Bytes)
  | transferred (busy : Bool)
  | failed (failure : Failure)
  | badConfig (fault : Config.Fault)
  /-- The handle of the session was given up. -/
  | noHandle
  | noLink
  /-- The link is in use, further up. -/
  | busy

/-- What a callback records. -/
inductive Entry where
  | heard (name : String) (indication : Indication)
  | offered (name : String) (frame : Frame)
  | aborted (name : String) (cause : Failure)
  | nested (answer : Answer)

end ZigbeeHost.Scenario
