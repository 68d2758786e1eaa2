import Telemetry.MeasureUnit
import Telemetry.Sampling.Quantile
import Telemetry.World.Recording

/-!
# Readings

The values of one instrument as a document shows them: converted to base units, a distribution
summarised by its statistics. Durations are always converted from nanoseconds; counts of events and
rates are never converted.
-/

namespace Telemetry.Export

/-- The summary of a distribution in base units. -/
structure Distribution where
  /-- How many values were recorded. -/
  count : UInt64
  sum : Float
  /-- The least retained value. -/
  min : Float
  /-- The greatest retained value. -/
  max : Float
  /-- The mean of the retained values. -/
  mean : Float
  /-- Their standard deviation. -/
  stddev : Float
  /-- Their default quantiles. -/
  quantiles : List (Sampling.Quantile × Float)

/-- Summarise a distribution whose values have a declared unit. -/
def Distribution.of (count : UInt64) (sum : Float) (s : Sampling.Snapshot)
    (unit : Option String) : Distribution :=
  let toBase := MeasureUnit.toBase unit
  { count
    sum := toBase sum
    min := toBase s.min
    max := toBase s.max
    mean := toBase s.mean
    stddev := toBase s.stddev
    quantiles := Sampling.Quantile.defaults.map fun q =>
      let quantile := Sampling.Quantile.of q
      (quantile, toBase (s.quantile quantile.value)) }

/-- The values of one instrument. -/
inductive Reading where
  /-- A count in base units. -/
  | counter (count : Float)
  /-- A value in base units. -/
  | gauge (value : Float)
  /-- A count of events with their rates. -/
  | meter (count : UInt64) (rates : Pace.Rates)
  | histogram (distribution : Distribution)
  /-- A distribution of durations, with the rates of recording. -/
  | timer (distribution : Distribution) (rates : Pace.Rates)

/-- The kind of instrument that a reading is of. -/
def Reading.kind : Reading → Kind
  | .counter _ => .counter
  | .gauge _ => .gauge
  | .meter .. => .meter
  | .histogram _ => .histogram
  | .timer .. => .timer

/-- The unit in which durations are recorded. -/
def durationUnit : Option String := some MeasureUnit.nanoseconds.word

/-- Read an instrument whose values have a declared unit. -/
def readInstrument (w : World) (unit : Option String) : Handle → Reading × World
  | .counter n => (.counter (MeasureUnit.toBase unit (w.store.counter n).toFloat), w)
  | .gauge n =>
    let (value, w) := w.readGauge n
    (.gauge (MeasureUnit.toBase unit value), w)
  | .meter n =>
    let (rates, w) := w.meterRates n
    (.meter (w.store.meter n).count rates, w)
  | .histogram n =>
    let h := w.store.histogram n
    (.histogram (.of h.count h.sum h.snapshot unit), w)
  | .timer n =>
    let t := w.store.timer n
    let distribution := Distribution.of t.count t.elapsed.toFloat t.snapshot durationUnit
    let (rates, w) := w.timerRates n
    (.timer distribution rates, w)

/-- A reading is of the kind of the instrument. -/
theorem kind_readInstrument (w : World) (unit : Option String) (h : Handle) :
    (readInstrument w unit h).1.kind = h.kind := by
  cases h <;> rfl

end Telemetry.Export
