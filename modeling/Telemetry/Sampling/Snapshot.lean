import Telemetry.Sampling.Order

/-!
# Snapshots

Retained values in total order, and the statistics of a document: quantiles by nearest rank, the
extremes, mean and standard deviation. An empty snapshot gives zero for each.
-/

namespace Telemetry.Sampling

/-- Values in total order, none of them NaN. -/
structure Snapshot where
  /-- The values, least first. -/
  values : List Float

namespace Snapshot

/-- The snapshot of some values; what is no number is left out. -/
def ofList (xs : List Float) : Snapshot := ⟨sortTotal (xs.filter fun x => !x.isNaN)⟩

/-- How many values there are. -/
def size (s : Snapshot) : Nat := s.values.length

/-- Whether there is no value. -/
def isEmpty (s : Snapshot) : Bool := s.values.isEmpty

/-- A number brought into the unit interval; NaN and minus zero stay what they are. -/
def toUnit (q : Float) : Float := if q < 0 then 0 else if 1 < q then 1 else q

/-- The rank of a quantile among `n` values: the least whole number not below `q * n`. -/
def rank (q : Float) (n : Nat) : Nat := (toUnit q * Float.ofNat n).ceil.toUInt64.toNat

/-- The value at a rank counted from one; ranks outside are brought to the nearest one. -/
def atRank (s : Snapshot) (rank : Nat) : Float := s.values.getD (min (rank - 1) (s.size - 1)) 0

/-- The value at a quantile, by nearest rank. -/
def quantile (s : Snapshot) (q : Float) : Float := s.atRank (rank q s.size)

/-- The value in the middle. -/
def median (s : Snapshot) : Float := s.quantile 0.5

/-- The least value. -/
def min (s : Snapshot) : Float := s.values.head?.getD 0

/-- The greatest value. -/
def max (s : Snapshot) : Float := s.values.getLast?.getD 0

/-- A sum, added up in order from minus zero. -/
def sum (xs : List Float) : Float := xs.foldl (· + ·) (-0.0)

/-- The mean value. -/
def mean (s : Snapshot) : Float :=
  if s.isEmpty then 0 else sum s.values / Float.ofNat s.size

/-- The standard deviation of a sample; zero for fewer than two values. -/
def stddev (s : Snapshot) : Float :=
  if s.size < 2 then 0
  else
    let mean := s.mean
    let squares := s.values.map fun x =>
      let diff := x - mean
      diff * diff
    (sum squares / Float.ofNat (s.size - 1)).sqrt

/-- A snapshot keeps the values that are numbers. -/
theorem ofList_perm (xs : List Float) :
    (ofList xs).values.Perm (xs.filter fun x => !x.isNaN) := sortTotal_perm _

/-- A snapshot is in total order. -/
theorem ofList_ordered (xs : List Float) :
    (ofList xs).values.Pairwise fun a b => rankKey a ≤ rankKey b := sortTotal_ordered _

/-- An empty snapshot has zero at every rank. -/
theorem atRank_nil (r : Nat) : (⟨[]⟩ : Snapshot).atRank r = 0 := by simp [atRank]

end Snapshot

end Telemetry.Sampling
