import Telemetry.Sampling.Snapshot

/-!
# Reservoirs

A uniform sample of bounded size of all values pushed so far. The first values fill the slots; each
later one draws a number up to the count of values before it, and takes the slot of that number if
there is one. The draw is an argument, so every statement here holds for every outcome.
-/

namespace Telemetry.Sampling

/-- A bounded sample of the values pushed so far. -/
structure Reservoir where
  /-- The values by slot; a slot that nothing was put into holds what is no number. -/
  slots : Array Float
  /-- How many values were pushed, modulo `2 ^ 64`. -/
  pushes : UInt64

namespace Reservoir

/-- What a slot holds before a value is put into it: no number. -/
def vacant : Float := 0.0 / 0.0

/-- An empty reservoir; it has at least one slot. -/
def ofCapacity (n : Nat) : Reservoir := ⟨.replicate (max n 1) vacant, 0⟩

/-- The capacity of reservoirs for which none is asked for. -/
def defaultCapacity : Nat := 1028

/-- The most values it holds. -/
def capacity (r : Reservoir) : Nat := r.slots.size

/-- The slot that the next value takes, given the number drawn for it. -/
def slotFor (r : Reservoir) (draw : Nat) : Nat :=
  if r.pushes.toNat < r.capacity then r.pushes.toNat else draw

/-- Push a value. Once the slots are full, `draw` is a number from zero to the count of pushes. -/
def push (r : Reservoir) (x : Float) (draw : Nat) : Reservoir :=
  ⟨r.slots.setIfInBounds (r.slotFor draw) x, r.pushes + 1⟩

/-- The values held now. -/
def retained (r : Reservoir) : List Float :=
  r.slots.toList.take (min r.pushes.toNat r.capacity)

/-- A snapshot of the values held now. -/
def snapshot (r : Reservoir) : Snapshot := .ofList r.retained

/-- What a vacant slot holds is no number. -/
theorem isNaN_vacant : vacant.isNaN = true := by decide

/-- A reservoir has the slots that are asked for, and one if none are. -/
@[simp] theorem capacity_ofCapacity (n : Nat) : (ofCapacity n).capacity = max n 1 :=
  Array.size_replicate

/-- Pushing keeps the capacity. -/
@[simp] theorem capacity_push (r : Reservoir) (x : Float) (draw : Nat) :
    (r.push x draw).capacity = r.capacity := Array.size_setIfInBounds

end Reservoir

end Telemetry.Sampling
