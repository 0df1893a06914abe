/-!
# Instants

A clock shows an instant as seconds, in a signed number of 64 bits, and nanoseconds. What
lies beyond the last second is no instant, and there `Instant.after?` fails.

Sessions count milliseconds from the instant of their start.
-/

namespace ZigbeeHost

/-- What a clock shows. -/
structure Instant where
  secs : Int
  nanos : Nat
  le_secs : -0x8000000000000000 ≤ secs
  secs_lt : secs < 0x8000000000000000
  nanos_lt : nanos < 1000000000
  deriving DecidableEq

namespace Instant

/-- The instant some nanoseconds after zero. -/
def ofNanos (nanos : UInt64) : Instant where
  secs := nanos.toNat / 1000000000
  nanos := nanos.toNat % 1000000000
  le_secs := by omega
  secs_lt := by have := nanos.toNat_lt; omega
  nanos_lt := Nat.mod_lt _ (by decide)

/-- The instant some milliseconds later, unless the clock cannot show it. -/
def after? (t : Instant) (millis : Nat) : Option Instant :=
  let nanos := t.nanos + millis % 1000 * 1000000
  let secs := t.secs + (millis / 1000 : Nat) + (nanos / 1000000000 : Nat)
  if h : secs < 0x8000000000000000 then
    some { secs, nanos := nanos % 1000000000
           le_secs := by have := t.le_secs; omega
           secs_lt := h
           nanos_lt := Nat.mod_lt _ (by decide) }
  else none

/-- The whole milliseconds from zero to the instant. -/
def millis (t : Instant) : Int := 1000 * t.secs + (t.nanos / 1000000 : Nat)

/-- How many milliseconds a clock can still go on. -/
def remaining (t : Instant) : Int := 1000 * 0x8000000000000000 - t.millis

/-- An instant can be shown if it lies before the end of the last second. -/
theorem isSome_after?_iff {t : Instant} {millis : Nat} :
    (t.after? millis).isSome = true ↔ (millis : Int) < t.remaining := by
  have hnanos := t.nanos_lt
  unfold after? remaining Instant.millis
  dsimp only
  split <;> simp only [Option.isSome_some, Option.isSome_none, true_iff, Bool.false_eq_true,
    false_iff] <;> omega

/-- A clock that shows an instant can still go on. -/
theorem remaining_pos (t : Instant) : 0 < t.remaining := by
  have hsecs := t.secs_lt
  have hnanos := t.nanos_lt
  unfold remaining millis
  omega

/-- To go on twice is to go on once, for as long as both take. -/
theorem after?_of_after? {t u : Instant} {a : Nat} (h : t.after? a = some u) (b : Nat) :
    t.after? (a + b) = u.after? b := by
  unfold after? at h
  dsimp only at h
  split at h
  · obtain rfl := Option.some.inj h
    have hnanos := t.nanos_lt
    have hsecs : t.secs + ((a + b) / 1000 : Nat) +
          ((t.nanos + (a + b) % 1000 * 1000000) / 1000000000 : Nat) =
        t.secs + (a / 1000 : Nat) + ((t.nanos + a % 1000 * 1000000) / 1000000000 : Nat) +
          (b / 1000 : Nat) +
            (((t.nanos + a % 1000 * 1000000) % 1000000000 + b % 1000 * 1000000) /
              1000000000 : Nat) := by
      omega
    have hrest : (t.nanos + (a + b) % 1000 * 1000000) % 1000000000 =
        ((t.nanos + a % 1000 * 1000000) % 1000000000 + b % 1000 * 1000000) % 1000000000 := by
      omega
    unfold after?
    simp only [hsecs, hrest]
  · cases h

end Instant

end ZigbeeHost
