/-!
# Chains of handlers

A chain offers something to its handlers in order. Each handler answers with a
`Verdict` : whether the later ones still see it, and whether the handler itself is done.
While it is offered something, a handler may change the world around it, so the walk
threads a state through.

`dispatch` walks the chain and returns what is left of it. `drain` tears the chain down :
permanent handlers stay and the others are aborted.
-/

namespace ZigbeeHost

/-- A handler's answer to what it was offered. -/
structure Verdict where
  /-- The handlers behind are not offered it. -/
  stop : Bool := false
  /-- The handler leaves the chain. -/
  remove : Bool := false
  deriving DecidableEq

namespace Verdict

/-- The handler lets it pass. -/
def pass : Verdict := {}
/-- The handler takes it, and is done. -/
def consume : Verdict := { stop := true, remove := true }
/-- The handler takes it, and stays. -/
def handled : Verdict := { stop := true }
/-- The handler lets it pass, and is done. -/
def evict : Verdict := { remove := true }

end Verdict

namespace Chain

variable {η σ : Type}

/-- Offers something to each handler in order, up to the first that stops. The answer is
the chain without the handlers that are done, and whether one stopped. -/
def dispatch (offer : η → σ → σ × Verdict) : List η → σ → List η × σ × Bool
  | [], s => ([], s, false)
  | h :: behind, s =>
    let (s, verdict) := offer h s
    let kept := if verdict.remove then [] else [h]
    if verdict.stop then (kept ++ behind, s, true)
    else
      let (rest, s, stopped) := dispatch offer behind s
      (kept ++ rest, s, stopped)

/-- Aborts the handlers that are not permanent, in order, and keeps the others. -/
def drain (permanent : η → Bool) (abort : η → σ → σ) : List η → σ → List η × σ
  | [], s => ([], s)
  | h :: behind, s =>
    if permanent h then
      let (kept, s) := drain permanent abort behind s
      (h :: kept, s)
    else drain permanent abort behind (abort h s)

end Chain

end ZigbeeHost
