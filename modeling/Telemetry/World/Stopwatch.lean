import Telemetry.World.Recording

/-!
# Stopwatches

A running timing in the hands of whoever started it. A watch is recorded when it is stopped, and when
it is let go of without that. Stopping it ends with letting go of it, so the watch itself keeps whether
it was recorded.
-/

namespace Telemetry

/-- A timing that its holder ends. -/
structure Stopwatch where
  timing : Timing
  /-- Whether it was recorded. -/
  stopped : Bool
  deriving DecidableEq, Repr

namespace World

/-- Start a watch. -/
def startWatch (w : World) (serial : Nat) : Stopwatch := ⟨w.startTiming serial, false⟩

/-- Record a watch, if it was not recorded before. Answers the time since its start either way. -/
def recordWatch (w : World) (s : Stopwatch) : (Nat × Stopwatch) × World :=
  if s.stopped then ((Pace.elapsed s.timing.started w.now, s), w)
  else
    let (nanos, w) := w.endTiming s.timing
    ((nanos, { s with stopped := true }), w)

/-- Let go of a watch, which is recorded if it was not stopped. -/
def release (w : World) (s : Stopwatch) : World :=
  if s.stopped then w else (w.recordWatch s).2

/-- Stop a watch: it is recorded and let go of. Answers how long it ran. -/
def stop (w : World) (s : Stopwatch) : Nat × World :=
  let ((nanos, s), w) := w.recordWatch s
  (nanos, w.release s)

/-- Time some work: a watch runs while it is done. -/
def time {α : Type} (w : World) (serial : Nat) (work : World → α × World) : α × World :=
  let s := w.startWatch serial
  let (a, w) := work w
  let (_, w) := w.stop s
  (a, w)

/-- Stopping a watch leaves the world as letting go of it does: it is recorded once, if it was not
before. -/
theorem stop_eq_release (w : World) (s : Stopwatch) : (w.stop s).2 = w.release s := by
  cases h : s.stopped with
  | true => simp [stop, release, recordWatch, h]
  | false => simp [stop, release, recordWatch, h]

end World

end Telemetry
