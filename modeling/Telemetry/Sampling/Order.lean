/-!
# The total order of doubles

All doubles in one line by their bits: negative numbers before positive ones, minus zero before
zero, the infinities at the ends. Sorting by it needs no exception for zeros.
-/

namespace Telemetry.Sampling

/-- The bit that holds the sign of a double. -/
def signBit : Nat := 0x8000000000000000

/-- A double's place in the total order: positive numbers stand above the middle by their bits,
negative ones below it by their bits in reverse. -/
def rankKey (x : Float) : Nat :=
  let bits := x.toBits.toNat
  if bits < signBit then signBit + bits else 2 * signBit - 1 - bits

/-- Whether `a` stands before `b` or at the same place. -/
def totalLe (a b : Float) : Bool := decide (rankKey a ≤ rankKey b)

/-- Doubles in total order. -/
def sortTotal (xs : List Float) : List Float := xs.mergeSort totalLe

/-- Sorting keeps every double. -/
theorem sortTotal_perm (xs : List Float) : (sortTotal xs).Perm xs := List.mergeSort_perm _ _

/-- Sorted doubles are in total order. -/
theorem sortTotal_ordered (xs : List Float) :
    (sortTotal xs).Pairwise fun a b => rankKey a ≤ rankKey b := by
  simpa only [sortTotal, totalLe, decide_eq_true_eq] using
    @List.pairwise_mergeSort _ totalLe
      (fun a b c hab hbc => by
        simp only [totalLe, decide_eq_true_eq] at *
        exact Nat.le_trans hab hbc)
      (fun a b => by
        simp only [totalLe, Bool.or_eq_true, decide_eq_true_eq]
        exact Nat.le_total _ _)
      xs

/-- Minus zero stands before zero. -/
example : rankKey (-0.0) < rankKey 0.0 := by decide

end Telemetry.Sampling
