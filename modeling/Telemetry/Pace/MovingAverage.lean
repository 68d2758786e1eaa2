/-!
# Moving averages of a rate

An exponentially weighted average of events per second, renewed once in each interval of five
seconds. The first interval sets the average; each later one moves it by a fixed part of the
distance to the interval's own rate.
-/

namespace Telemetry.Pace

/-- Nanoseconds in a second. -/
def nanosPerSecond : Nat := 1000000000

/-- Seconds of an interval. -/
def tickSeconds : Nat := 5

/-- Nanoseconds of an interval. -/
def tickNanos : Nat := tickSeconds * nanosPerSecond

/-- An average of events per second. -/
structure MovingAverage where
  /-- The part of the distance by which an interval moves the average. -/
  weight : Float
  /-- The average, once there has been an interval. -/
  current : Option Float

namespace MovingAverage

/-- An average over some minutes that has seen no interval yet. -/
def overMinutes (minutes : Float) : MovingAverage :=
  ⟨1 - (-(Float.ofNat tickSeconds) / 60 / minutes).exp, none⟩

/-- Events per second; zero before the first interval. -/
def rate (a : MovingAverage) : Float := a.current.getD 0

/-- Take in an interval with its number of events. -/
def tick (a : MovingAverage) (events : UInt64) : MovingAverage :=
  let instant := events.toFloat / Float.ofNat tickSeconds
  match a.current with
  | none => { a with current := some instant }
  | some rate => { a with current := some (rate + a.weight * (instant - rate)) }

/-- The first interval sets the average. -/
theorem rate_tick_of_none {a : MovingAverage} (h : a.current = none) (events : UInt64) :
    (a.tick events).rate = events.toFloat / Float.ofNat tickSeconds := by
  simp [tick, h, rate]

end MovingAverage

end Telemetry.Pace
