import Telemetry.Decimal.Style
import Telemetry.Sampling.Snapshot

/-!
# Quantiles

The quantiles a distribution is summarised by, each with the label under which a document shows it:
a `p` and the digits of the percentile, rounded to six places.
-/

namespace Telemetry.Sampling

/-- A quantile with its label. -/
structure Quantile where
  /-- The quantile, in the unit interval unless it is NaN. -/
  value : Float
  label : String

namespace Quantile

/-- The digits of a percentile: its plain text without the point. -/
def digits (percentile : Float) : String :=
  String.ofList ((Decimal.Style.plain.write percentile).toList.filter (· != '.'))

/-- From here on doubles are whole numbers: two to the power 52. -/
def allWhole : Float := 4503599627370496

/-- The nearest whole number; of two that are equally near the one farther from zero. -/
def nearestWhole (x : Float) : Float :=
  let size := x.abs
  if size < allWhole then
    let below := size.toUInt64.toFloat
    let nearest := if 0.5 ≤ size - below then below + 1 else below
    if Decimal.isNegative x then -nearest else nearest
  else x

/-- The quantile at a number, which is brought into the unit interval. -/
def of (x : Float) : Quantile :=
  let value := Snapshot.toUnit x
  ⟨value, "p" ++ digits (nearestWhole (value * 1e8) / 1e6)⟩

/-- The quantiles that documents show. -/
def defaults : List Float := [0.5, 0.75, 0.95, 0.98, 0.99, 0.999]

/-- The labels of the quantiles that documents show. -/
theorem label_defaults :
    (defaults.map fun q => (of q).label) = ["p50", "p75", "p95", "p98", "p99", "p999"] := by
  decide +kernel

end Quantile

end Telemetry.Sampling
