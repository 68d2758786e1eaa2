import Mathlib.Data.UInt
import Telemetry.Timer

/-!
# What timers count

A timer in which durations were recorded, one after the other and each at its instant. Its own count,
that of its meter and the pushes of its reservoir are kept apart, and are all the number of durations;
the total is that of the durations, each cut at the greatest number of 64 bits.
-/

namespace Telemetry

/-- A duration that was recorded at an instant. -/
structure Recording where
  instant : UInt64
  nanos : Nat
  deriving DecidableEq, Repr

namespace Timer

/-- The timer that recordings make of another, whatever numbers are drawn for them. -/
inductive Made (before : Timer) : List Recording → Timer → Prop
  | nothing : Made before [] before
  | record {done : List Recording} {t : Timer} (h : Made before done t) (r : Recording) (draw : Nat) :
    Made before (done ++ [r]) (t.record r.instant r.nanos draw)

variable {now : UInt64} {capacity : Nat} {done : List Recording} {t : Timer}

/-- A duration is cut at the greatest number of 64 bits. -/
theorem toNat_clamp (nanos : Nat) : (clamp nanos).toNat = min nanos longest := by
  have hlongest : longest = 2 ^ 64 - 1 := rfl
  rw [clamp, UInt64.toNat_ofNat']
  omega

/-- What is nought in a new timer and one more with each duration is the number of durations. -/
theorem Made.toNat_eq_length {f : Timer → UInt64} (h : Made (startAt now capacity) done t)
    (hnew : f (startAt now capacity) = 0)
    (hrecord : ∀ (t : Timer) (r : Recording) (draw : Nat),
      f (t.record r.instant r.nanos draw) = f t + 1) :
    (f t).toNat = done.length % 2 ^ 64 := by
  induction h with
  | nothing =>
    rw [hnew]
    rfl
  | record h r draw ih =>
    have hone : (1 : UInt64).toNat = 1 := rfl
    rw [hrecord, UInt64.toNat_add, ih, hone, List.length_append, List.length_singleton]
    omega

/-- A new timer counts what is recorded in it. -/
theorem Made.count (h : Made (startAt now capacity) done t) : t.count.toNat = done.length % 2 ^ 64 :=
  h.toNat_eq_length rfl fun t r draw => t.count_record r.instant r.nanos draw

/-- Its meter counts along. -/
theorem Made.count_meter (h : Made (startAt now capacity) done t) :
    t.meter.count.toNat = done.length % 2 ^ 64 :=
  h.toNat_eq_length (f := fun t => t.meter.count) rfl fun t r draw =>
    t.meter_count_record r.instant r.nanos draw

/-- So does its reservoir. -/
theorem Made.pushes (h : Made (startAt now capacity) done t) :
    t.durations.reservoir.pushes.toNat = done.length % 2 ^ 64 :=
  h.toNat_eq_length (f := fun t => t.durations.reservoir.pushes) rfl fun _ _ _ => rfl

/-- Its total is that of the durations. -/
theorem Made.elapsed (h : Made (startAt now capacity) done t) :
    t.elapsed.toNat = (done.map fun r => min r.nanos longest).sum % 2 ^ 64 := by
  induction h with
  | nothing => rfl
  | @record done t h r draw ih =>
    have hlast : (t.record r.instant r.nanos draw).elapsed = t.elapsed + clamp r.nanos := rfl
    rw [hlast, UInt64.toNat_add, ih, toNat_clamp, Nat.mod_add_mod, List.map_append, List.sum_append,
      List.map_singleton, List.sum_singleton]

end Timer

end Telemetry
