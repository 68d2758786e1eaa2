import Telemetry.Pace.Meter
import Telemetry.Sampling.Histogram

/-!
# Timers

A distribution of durations in nanoseconds, their exact total, and the rates at which they were
recorded. A running timing remembers when it was started and records its duration once, when it
ends.
-/

namespace Telemetry

/-- A distribution of durations. -/
structure Timer where
  /-- The total of all durations in nanoseconds, modulo `2 ^ 64`. -/
  elapsed : UInt64
  /-- The durations in nanoseconds. -/
  durations : Sampling.Histogram
  /-- The rates of recording. -/
  meter : Pace.Meter

namespace Timer

/-- A timer without durations that begins now. -/
def startAt (now : UInt64) (capacity : Nat) : Timer := ⟨0, .ofCapacity capacity, .startAt now⟩

/-- The greatest duration that is recorded as it is: the greatest number of 64 bits. -/
def longest : Nat := 0xffffffffffffffff

/-- A duration as it is recorded. -/
def clamp (nanos : Nat) : UInt64 := UInt64.ofNat (min nanos longest)

/-- Record a duration, with the number drawn for it. -/
def record (t : Timer) (now : UInt64) (nanos draw : Nat) : Timer :=
  { elapsed := t.elapsed + clamp nanos
    durations := t.durations.record (clamp nanos).toFloat draw
    meter := t.meter.mark now 1 }

/-- How many durations were recorded, modulo `2 ^ 64`. -/
def count (t : Timer) : UInt64 := t.durations.count

/-- A snapshot of the retained durations. -/
def snapshot (t : Timer) : Sampling.Snapshot := t.durations.snapshot

/-- Read the rates, which brings the timer up to date. -/
def rates (t : Timer) (now : UInt64) : Pace.Rates × Timer :=
  let (r, meter) := t.meter.rates now
  (r, { t with meter })

/-- A recorded duration counts once. -/
theorem count_record (t : Timer) (now : UInt64) (nanos draw : Nat) :
    (t.record now nanos draw).count = t.count + 1 := rfl

/-- The meter counts along. -/
theorem meter_count_record (t : Timer) (now : UInt64) (nanos draw : Nat) :
    (t.record now nanos draw).meter.count = t.meter.count + 1 := Pace.Meter.count_mark _ _ _

end Timer

end Telemetry
