import Telemetry.World.Basic

/-!
# Recording and reading

What the holder of a handle can do: count, mark events, record values and durations, run timings and
read current values. Reading a gauge first carries out the removal that it brings about, if any.
-/

namespace Telemetry

/-- A running timing. -/
structure Timing where
  /-- The serial number of the timer that it is recorded in. -/
  timer : Nat
  /-- When it was started. -/
  started : UInt64
  deriving DecidableEq, Repr

/-- The current values of an instrument. -/
inductive Observation where
  | counter (count : UInt64)
  | gauge (value : Float)
  /-- A histogram's count, sum and number of retained values. -/
  | histogram (count : UInt64) (sum : Float) (samples : Nat)
  | meter (count : UInt64)
  /-- A timer's count, total and number of retained durations. -/
  | timer (count : UInt64) (elapsed : UInt64) (samples : Nat)

namespace World

/-- Add to a counter. -/
def increment (w : World) (serial : Nat) (n : UInt64) : World :=
  { w with store := w.store.setCounter serial (w.store.counter serial + n) }

/-- Mark events of a meter. -/
def mark (w : World) (serial : Nat) (n : UInt64) : World :=
  { w with store := w.store.setMeter serial ((w.store.meter serial).mark w.now n) }

/-- Replace the value of a gauge. -/
def setGauge (w : World) (serial : Nat) (value : Float) : World :=
  { w with store := w.store.setGauge serial { w.store.gauge serial with value } }

/-- Add to the value of a gauge. -/
def addToGauge (w : World) (serial : Nat) (x : Float) : World :=
  w.setGauge serial ((w.store.gauge serial).value + x)

/-- Record values in a histogram, in order. -/
def recordValues (w : World) (serial : Nat) (xs : List Float) : World :=
  let (h, draws) := (w.store.histogram serial).recordAll w.draws xs
  { w with store := w.store.setHistogram serial h, draws }

/-- Record a duration in a timer. -/
def recordDuration (w : World) (serial : Nat) (nanos : Nat) : World :=
  let t := w.store.timer serial
  let (draw, draws) := w.draws.upTo t.durations.reservoir.pushes.toNat
  { w with store := w.store.setTimer serial (t.record w.now nanos draw), draws }

/-- Start a timing. -/
def startTiming (w : World) (serial : Nat) : Timing := ⟨serial, w.now⟩

/-- End a timing: the time since its start is recorded, and is the answer. -/
def endTiming (w : World) (t : Timing) : Nat × World :=
  let nanos := Pace.elapsed t.started w.now
  (nanos, w.recordDuration t.timer nanos)

/-- The rates of a meter. -/
def meterRates (w : World) (serial : Nat) : Pace.Rates × World :=
  let (r, m) := (w.store.meter serial).rates w.now
  (r, { w with store := w.store.setMeter serial m })

/-- The rates of a timer. -/
def timerRates (w : World) (serial : Nat) : Pace.Rates × World :=
  let (r, t) := (w.store.timer serial).rates w.now
  (r, { w with store := w.store.setTimer serial t })

/-- Carry out a removal. -/
def carryOut (w : World) (r : Removal) : World :=
  (w.removing r.registry (·.removeByName r.name)).2

/-- Read a gauge, after the removal that it brings about. -/
def readGauge (w : World) (serial : Nat) : Float × World :=
  let g := w.store.gauge serial
  (g.value, match g.removes with | some r => w.carryOut r | none => w)

/-- Read the current values of an instrument. -/
def observe (w : World) : Handle → Observation × World
  | .counter n => (.counter (w.store.counter n), w)
  | .gauge n =>
    let (value, w) := w.readGauge n
    (.gauge value, w)
  | .histogram n =>
    let h := w.store.histogram n
    (.histogram h.count h.sum h.snapshot.size, w)
  | .meter n => (.meter (w.store.meter n).count, w)
  | .timer n =>
    let t := w.store.timer n
    (.timer t.count t.elapsed t.snapshot.size, w)

/-- Read several instruments in order. -/
def observeAll {α : Type} (w : World) : List (α × Handle) → List (α × Observation) × World
  | [] => ([], w)
  | (a, h) :: rest =>
    let (o, w) := w.observe h
    let (os, w) := w.observeAll rest
    ((a, o) :: os, w)

/-- Recording a duration renews the timer, and nothing else but the source of draws. -/
theorem exists_recordDuration (w : World) (serial nanos : Nat) :
    ∃ draw draws, w.recordDuration serial nanos =
      { w with
        store := w.store.setTimer serial ((w.store.timer serial).record w.now nanos draw)
        draws } := by
  unfold recordDuration
  dsimp only
  -- The number that is drawn stays folded.
  generalize w.draws.upTo (w.store.timer serial).durations.reservoir.pushes.toNat = drawn
  exact ⟨drawn.1, drawn.2, rfl⟩

/-- A gauge without side effects is read without a change. -/
theorem readGauge_of_pure {w : World} {serial : Nat}
    (h : (w.store.gauge serial).removes = none) :
    w.readGauge serial = ((w.store.gauge serial).value, w) := by
  simp [readGauge, h]

/-- Reading keeps every instrument as it is. -/
theorem store_observe (w : World) (h : Handle) : (w.observe h).2.store = w.store := by
  cases h with
  | gauge n =>
    simp only [observe, readGauge]
    split <;> rfl
  | _ => rfl

end World

end Telemetry
