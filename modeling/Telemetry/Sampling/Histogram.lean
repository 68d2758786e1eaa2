import Telemetry.Sampling.Draw
import Telemetry.Sampling.Reservoir

/-!
# Histograms

The exact count and sum of all values, and a reservoir of some of them.
-/

namespace Telemetry.Sampling

/-- A distribution of values. -/
structure Histogram where
  /-- How many values were recorded, modulo `2 ^ 64`. -/
  count : UInt64
  /-- Their sum, added up in order from zero. -/
  sum : Float
  reservoir : Reservoir

namespace Histogram

/-- A histogram without values. -/
def ofCapacity (n : Nat) : Histogram := ⟨0, 0, .ofCapacity n⟩

/-- Record a value, with the number drawn for it. -/
def record (h : Histogram) (x : Float) (draw : Nat) : Histogram :=
  ⟨h.count + 1, h.sum + x, h.reservoir.push x draw⟩

/-- Record values one after the other, each with a number from the source. -/
def recordAll (h : Histogram) (d : Draw) : List Float → Histogram × Draw
  | [] => (h, d)
  | x :: rest =>
    let (draw, d) := d.upTo h.reservoir.pushes.toNat
    recordAll (h.record x draw) d rest

/-- A snapshot of the retained values. -/
def snapshot (h : Histogram) : Snapshot := h.reservoir.snapshot

/-- Every value counts. -/
theorem count_recordAll (h : Histogram) (d : Draw) (xs : List Float) :
    (h.recordAll d xs).1.count = h.count + UInt64.ofNat xs.length := by
  induction xs generalizing h d with
  | nil => simp [recordAll]
  | cons x rest ih =>
    simp only [recordAll, ih, record, List.length_cons]
    rw [UInt64.ofNat_add, UInt64.add_assoc]
    exact congrArg _ (UInt64.add_comm _ _)

end Histogram

end Telemetry.Sampling
