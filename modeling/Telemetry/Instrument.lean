import Telemetry.Kind
import Telemetry.Timer

/-!
# Live instruments

Instruments live in a store, one array for each kind, and are named by handles: a kind with a serial
number. Two handles are the same instrument exactly when they are equal, and a handle stays good
when the instrument is no longer registered anywhere. A handle that the store never gave out reads
as an instrument that nothing was recorded in.
-/

namespace Telemetry

/-- The number of a registry among all that were ever made. -/
structure RegistryKey where
  /-- Its place in the order of making. -/
  index : Nat
  deriving DecidableEq, Repr, Inhabited

/-- A removal that reading a gauge brings about: of all instruments of a name. -/
structure Removal where
  /-- The registry it happens in. -/
  registry : RegistryKey
  name : String
  deriving DecidableEq, Repr

/-- A value that is read when it is asked for. Reading it may remove a name; it registers nothing. -/
structure Gauge where
  value : Float
  /-- What is removed before each reading. -/
  removes : Option Removal

instance : Inhabited Gauge := ⟨⟨0, none⟩⟩

/-- A live instrument. -/
inductive Handle where
  | counter (serial : Nat)
  | gauge (serial : Nat)
  | histogram (serial : Nat)
  | meter (serial : Nat)
  | timer (serial : Nat)
  deriving DecidableEq, Repr, Inhabited

/-- The kind of an instrument. -/
def Handle.kind : Handle → Kind
  | .counter _ => .counter
  | .gauge _ => .gauge
  | .histogram _ => .histogram
  | .meter _ => .meter
  | .timer _ => .timer

/-- A handle as it shows in diagnostics. -/
def Handle.text (h : Handle) : String := "Metric(" ++ h.kind.word ++ ")"

/-- What a new instrument begins with. -/
inductive Blueprint where
  /-- A counter that begins at a count. -/
  | counter (start : UInt64)
  | gauge (gauge : Gauge)
  /-- A histogram without values. -/
  | histogram
  /-- A meter without events. -/
  | meter
  /-- A timer without durations. -/
  | timer

/-- The kind of the instrument that a blueprint makes. -/
def Blueprint.kind : Blueprint → Kind
  | .counter _ => .counter
  | .gauge _ => .gauge
  | .histogram => .histogram
  | .meter => .meter
  | .timer => .timer

/-- The state of all instruments, by kind and serial number. -/
structure Store where
  /-- Counts, modulo `2 ^ 64`. -/
  counters : Array UInt64
  gauges : Array Gauge
  histograms : Array Sampling.Histogram
  meters : Array Pace.Meter
  timers : Array Timer

namespace Store

/-- The store without instruments. -/
def empty : Store := ⟨#[], #[], #[], #[], #[]⟩

/-- The count of a counter. -/
def counter (s : Store) (serial : Nat) : UInt64 := s.counters.getD serial 0

/-- A gauge. -/
def gauge (s : Store) (serial : Nat) : Gauge := s.gauges.getD serial default

/-- A histogram. -/
def histogram (s : Store) (serial : Nat) : Sampling.Histogram :=
  s.histograms.getD serial (.ofCapacity 0)

/-- A meter. -/
def meter (s : Store) (serial : Nat) : Pace.Meter := s.meters.getD serial (.startAt 0)

/-- A timer. -/
def timer (s : Store) (serial : Nat) : Timer := s.timers.getD serial (.startAt 0 0)

/-- Replace the count of a counter. -/
def setCounter (s : Store) (serial : Nat) (x : UInt64) : Store :=
  { s with counters := s.counters.setIfInBounds serial x }

/-- Replace a gauge. -/
def setGauge (s : Store) (serial : Nat) (x : Gauge) : Store :=
  { s with gauges := s.gauges.setIfInBounds serial x }

/-- Replace the state of a histogram. -/
def setHistogram (s : Store) (serial : Nat) (x : Sampling.Histogram) : Store :=
  { s with histograms := s.histograms.setIfInBounds serial x }

/-- Replace the state of a meter. -/
def setMeter (s : Store) (serial : Nat) (x : Pace.Meter) : Store :=
  { s with meters := s.meters.setIfInBounds serial x }

/-- Replace the state of a timer. -/
def setTimer (s : Store) (serial : Nat) (x : Timer) : Store :=
  { s with timers := s.timers.setIfInBounds serial x }

/-- Make an instrument; its reservoir, if it has one, gets the given capacity. -/
def add (s : Store) (now : UInt64) (capacity : Nat) : Blueprint → Handle × Store
  | .counter start => (.counter s.counters.size, { s with counters := s.counters.push start })
  | .gauge gauge => (.gauge s.gauges.size, { s with gauges := s.gauges.push gauge })
  | .histogram =>
    (.histogram s.histograms.size, { s with histograms := s.histograms.push (.ofCapacity capacity) })
  | .meter => (.meter s.meters.size, { s with meters := s.meters.push (.startAt now) })
  | .timer => (.timer s.timers.size, { s with timers := s.timers.push (.startAt now capacity) })

/-- A new instrument has the kind that was asked for. -/
theorem kind_add (s : Store) (now : UInt64) (capacity : Nat) (b : Blueprint) :
    (s.add now capacity b).1.kind = b.kind := by
  cases b <;> rfl

end Store

end Telemetry
