import Telemetry.Export.Group
import Telemetry.Exposition.Dialect

/-!
# Families

A group becomes one or several families, each a name with a type and the samples of all members:
a counter or gauge one, a meter a counter and four rate gauges, a histogram a summary and four
gauges of statistics, a timer all nine of these without the counter.
-/

namespace Telemetry.Exposition

open Export (Distribution Group Member Reading)

/-- The type under which a family is declared. -/
inductive FamilyType where
  | counter
  | gauge
  /-- Quantiles with count and sum. -/
  | summary
  deriving DecidableEq, Repr

/-- The word for a type. -/
def FamilyType.word : FamilyType → String
  | .counter => "counter"
  | .gauge => "gauge"
  | .summary => "summary"

/-- One value with its name and labels. -/
structure Sample where
  name : String
  /-- The tags that become labels. -/
  tags : Tags
  /-- The quantile that is one more label, if it is a value at a quantile. -/
  quantile : Option Float
  value : Float

/-- Samples under one header. -/
structure Family where
  name : String
  type : FamilyType
  /-- The unit, if the name ends with it. -/
  unit : Option String
  /-- The samples, in order. -/
  samples : List Sample

/-- A family; a unit that its name does not end with is not its own. -/
def Family.of (name : String) (type : FamilyType) (unit : Option String)
    (samples : List Sample) : Family :=
  ⟨name, type, unit.filter fun u => Text.endsWith name ("_" ++ u), samples⟩

/-- A family of gauges, one sample for each value. -/
def gaugeFamily (name : String) (unit : Option String) (values : List (Tags × Float)) : Family :=
  .of name .gauge unit (values.map fun v => ⟨name, v.1, none, v.2⟩)

/-- A family of counters, one sample for each value. -/
def counterFamily (d : Dialect) (stem : String) (unit : Option String)
    (values : List (Tags × Float)) : Family :=
  .of (d.counterFamilyName stem) .counter unit
    (values.map fun v => ⟨counterSampleName stem, v.1, none, v.2⟩)

/-- The rates that are shown, with the endings of their names. -/
def rateEndings : List (String × (Pace.Rates → Float)) :=
  [("rate_per_second", (·.mean)),
   ("one_min_rate_per_second", (·.oneMinute)),
   ("five_min_rate_per_second", (·.fiveMinutes)),
   ("fifteen_min_rate_per_second", (·.fifteenMinutes))]

/-- The families of rates. -/
def rateFamilies (base : String) (values : List (Tags × Pace.Rates)) : List Family :=
  rateEndings.map fun (ending, rate) =>
    gaugeFamily (extend base ending) none (values.map fun v => (v.1, rate v.2))

/-- The statistics that are shown beside a summary, with their endings. -/
def statisticEndings : List (String × (Distribution → Float)) :=
  [("min", (·.min)), ("max", (·.max)), ("mean", (·.mean)), ("stddev", (·.stddev))]

/-- The samples of one distribution in a summary. -/
def summarySamples (name : String) (tags : Tags) (d : Distribution) : List Sample :=
  ⟨extend name "count", tags, none, d.count.toFloat⟩ ::
  ⟨extend name "sum", tags, none, d.sum⟩ ::
  d.quantiles.map fun q => ⟨name, tags, some q.1.value, q.2⟩

/-- The families of distributions: the summary, and the statistics, which are named by `stem`, the
statistic and `tail` if there is one. -/
def distributionFamilies (summary stem : String) (tail unit : Option String)
    (values : List (Tags × Distribution)) : List Family :=
  .of summary .summary unit (values.flatMap fun v => summarySamples summary v.1 v.2) ::
  statisticEndings.map fun (ending, statistic) =>
    let name := match tail with
      | some tail => extend (extend stem ending) tail
      | none => extend stem ending
    gaugeFamily name unit (values.map fun v => (v.1, statistic v.2))

/-- The members' values of one kind of reading. -/
def valuesOf {α : Type} (get : Reading → Option α) (members : List Member) : List (Tags × α) :=
  members.filterMap fun m => (get m.reading).map fun x => (m.tags, x)

/-- A counter's value. -/
def counterValue? : Reading → Option Float
  | .counter x => some x
  | _ => none

/-- A gauge's value. -/
def gaugeValue? : Reading → Option Float
  | .gauge x => some x
  | _ => none

/-- A meter's count. -/
def meterCount? : Reading → Option Float
  | .meter count _ => some count.toFloat
  | _ => none

/-- A meter's rates. -/
def meterRates? : Reading → Option Pace.Rates
  | .meter _ rates => some rates
  | _ => none

/-- A histogram's distribution. -/
def histogramValue? : Reading → Option Distribution
  | .histogram d => some d
  | _ => none

/-- A timer's distribution. -/
def timerValue? : Reading → Option Distribution
  | .timer d _ => some d
  | _ => none

/-- A timer's rates. -/
def timerRates? : Reading → Option Pace.Rates
  | .timer _ rates => some rates
  | _ => none

/-- The unit that a group's names end with. -/
def unitWord (m : Metadata) : Option String := (MeasureUnit.suffix? m.unit).map Name.sanitize

/-- The families of a group, in the order of the document. -/
def families (d : Dialect) (scope : Scope) (g : Group) : List Family :=
  let base := d.baseName scope g.metadata.name
  let unit := unitWord g.metadata
  match g.metadata.kind with
  | .counter => [counterFamily d (extendOnce? base unit) unit (valuesOf counterValue? g.members)]
  | .gauge => [gaugeFamily (extendOnce? base unit) unit (valuesOf gaugeValue? g.members)]
  | .meter =>
    counterFamily d base none (valuesOf meterCount? g.members) ::
    rateFamilies base (valuesOf meterRates? g.members)
  | .histogram =>
    distributionFamilies (extendOnce? base unit) base unit unit
      (valuesOf histogramValue? g.members)
  | .timer =>
    let seconds := MeasureUnit.secondsWord
    let summary := extendOnce base seconds
    distributionFamilies summary summary none (some seconds) (valuesOf timerValue? g.members) ++
      rateFamilies base (valuesOf timerRates? g.members)

/-- A family has a unit only if its name ends with it. -/
theorem endsWith_of_unit {name : String} {type : FamilyType} {unit : Option String}
    {samples : List Sample} {u : String} (h : (Family.of name type unit samples).unit = some u) :
    Text.endsWith name ("_" ++ u) = true := by
  simpa using (Option.filter_eq_some_iff.mp h).2

end Telemetry.Exposition
