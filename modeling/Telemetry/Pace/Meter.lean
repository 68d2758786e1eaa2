import Telemetry.Pace.MovingAverage

/-!
# Meters

A count of events with four rates: since the meter began, and averaged over one, five and fifteen
minutes. The averages are brought up to date only when the meter is used: all intervals that ended
since then are taken in at once, the first of them with the events that waited and the others with
none. Instants are nanoseconds of 64 bits, and a clock that went back counts as standing still.
-/

namespace Telemetry.Pace

/-- Nanoseconds from one instant to another; zero when the other is earlier. -/
def elapsed (since now : UInt64) : Nat := now.toNat - since.toNat

/-- Seconds of a span of nanoseconds. -/
def seconds (nanos : Nat) : Float :=
  Float.ofNat (nanos / nanosPerSecond) + Float.ofNat (nanos % nanosPerSecond) / 1e9

/-- Events per second. -/
structure Rates where
  /-- Since the meter began. -/
  mean : Float
  /-- Averaged over one minute. -/
  oneMinute : Float
  /-- Averaged over five minutes. -/
  fiveMinutes : Float
  /-- Averaged over fifteen minutes. -/
  fifteenMinutes : Float

/-- The rates in the order in which documents show them. -/
def Rates.toList (r : Rates) : List Float :=
  [r.mean, r.oneMinute, r.fiveMinutes, r.fifteenMinutes]

/-- The three averages of a meter. -/
structure Averages where
  one : MovingAverage
  five : MovingAverage
  fifteen : MovingAverage

/-- Averages that have seen no interval. -/
def Averages.start : Averages := ⟨.overMinutes 1, .overMinutes 5, .overMinutes 15⟩

/-- Take in one interval. -/
def Averages.tick (a : Averages) (events : UInt64) : Averages :=
  ⟨a.one.tick events, a.five.tick events, a.fifteen.tick events⟩

/-- Take in `n` intervals: the first has the events, the others none. -/
def Averages.ticks : Averages → Nat → UInt64 → Averages
  | a, 0, _ => a
  | a, n + 1, events => (a.tick events).ticks n 0

/-- A count of events with their rates. -/
structure Meter where
  /-- When it began. -/
  start : UInt64
  /-- How many events were marked, modulo `2 ^ 64`. -/
  count : UInt64
  /-- Events that no interval has taken in yet. -/
  pending : UInt64
  /-- The end of the last interval that was taken in. -/
  lastTick : UInt64
  averages : Averages

namespace Meter

/-- A meter that begins now. -/
def startAt (now : UInt64) : Meter := ⟨now, 0, 0, now, .start⟩

/-- How many intervals ended since the last one that was taken in. -/
def due (m : Meter) (now : UInt64) : Nat := elapsed m.lastTick now / tickNanos

/-- Take in the intervals that ended. The time they cover is reckoned with 32 bits of their
number. -/
def catchUp (m : Meter) (now : UInt64) : Meter :=
  let ticks := m.due now
  if ticks = 0 then m
  else
    { m with
      lastTick := m.lastTick + UInt64.ofNat (tickNanos * (UInt32.ofNat ticks).toNat)
      pending := 0
      averages := m.averages.ticks ticks m.pending }

/-- Mark `n` events. -/
def mark (m : Meter) (now : UInt64) (n : UInt64) : Meter :=
  let m := m.catchUp now
  { m with count := m.count + n, pending := m.pending + n }

/-- Events per second since the meter began; zero without events or without time. -/
def meanRate (m : Meter) (now : UInt64) : Float :=
  if m.count = 0 then 0
  else
    let span := seconds (elapsed m.start now)
    if span ≤ 0 then 0 else m.count.toFloat / span

/-- The rates of a meter that is up to date. -/
def currentRates (m : Meter) (now : UInt64) : Rates :=
  ⟨m.meanRate now, m.averages.one.rate, m.averages.five.rate, m.averages.fifteen.rate⟩

/-- Read the rates, which brings the meter up to date. -/
def rates (m : Meter) (now : UInt64) : Rates × Meter :=
  let m := m.catchUp now
  (m.currentRates now, m)

/-- Taking in intervals keeps the count. -/
@[simp] theorem count_catchUp (m : Meter) (now : UInt64) : (m.catchUp now).count = m.count := by
  unfold catchUp
  dsimp only
  split <;> rfl

/-- Every marked event counts. -/
theorem count_mark (m : Meter) (now n : UInt64) : (m.mark now n).count = m.count + n := by
  simp [mark]

/-- Reading the rates keeps the count. -/
theorem count_rates (m : Meter) (now : UInt64) : (m.rates now).2.count = m.count := by
  simp [rates]

end Meter

end Telemetry.Pace
