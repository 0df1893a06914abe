import ZigbeeHost.Session.Basic
/-!
# Emissions

An emission offers an indication to the subscribers of its event, in the order of their
subscription. It goes through the list as it was stored when it started : who subscribes
meanwhile hears the next one. Whoever is detached when it is its turn is passed over, and so
is a subscriber of the application that is being called already, further up. At its end an
emission takes those off the list that are detached by then.
-/

namespace ZigbeeHost.Session

variable {η : Type}

/-- The turn of one subscriber in an emission. -/
def notify (app : Application η) (i : Indication) (s : Session η) (slot : Slot) : Session η :=
  if s.isConnected slot.connection then
    match slot.subscriber with
    | .watcher watch op =>
      match watch.verdict? i with
      | some outcome => (s.disconnect slot.connection).complete op outcome
      | none => s
    | .application callback =>
      if slot.connection ∈ s.running then s
      else
        let called := app.hear callback slot.connection i
          { s with running := slot.connection :: s.running }
        { called with running := s.running }
  else s

/-- Offers an indication to the subscribers of its event. -/
def emit (app : Application η) (i : Indication) (s : Session η) : Session η :=
  ((s.stored i.event).foldl (notify app i) s).retain i.event

end ZigbeeHost.Session
