import Telemetry.Proofs.Export.Figures
import Telemetry.Proofs.Exposition.Endings
import Telemetry.Proofs.Exposition.Precedence
import Telemetry.Proofs.Name

/-!
# Names and values agree on the unit

A value is converted where it is read, and a name is given its unit where it is written; both look at the
declared unit for themselves. They agree: where names end with a base unit, values were converted to it by
the unit that was declared, and where nothing was converted, names end with what was declared or with
nothing.
-/

namespace Telemetry

/-- How a declared unit is understood: by which unit values are converted, and with which word names
end. -/
inductive MeasureUnit.Declares : Option String → Option MeasureUnit → Option String → Prop
  /-- A unit of measure in any letter case stands for its base unit. -/
  | measured {word : String} {u : MeasureUnit} (h : Text.sameLetters u.word word = true) :
    Declares (some word) (some u) (some u.baseWord)
  | absent : Declares none none none
  /-- An empty unit, or the word for none in any letter case, is as if there were none. -/
  | void {word : String} (h : word = "" ∨ Text.sameLetters word noneWord = true) :
    Declares (some word) none none
  /-- Any other word is kept, and nothing is converted. -/
  | other {word : String} (hne : word ≠ "") (hnone : Text.sameLetters word noneWord = false)
    (hunit : ∀ u : MeasureUnit, Text.sameLetters u.word word = false) :
    Declares (some word) none (some (Name.sanitize word))

namespace MeasureUnit

variable {declared : Option String} {unit? : Option MeasureUnit} {word? : Option String}

/-- Every unit is one of the units. -/
theorem mem_all (u : MeasureUnit) : u ∈ all := by
  cases u <;> decide

/-- A word names a unit when it has its letters. -/
theorem ofWord?_of_sameLetters {u : MeasureUnit} {s : String} (h : Text.sameLetters u.word s = true) :
    ofWord? s = some u := by
  rw [← ofWord?_word u]
  exact (ofWord?_congr (beq_iff_eq.mp h)).symm

/-- A word names no unit when it has the letters of none. -/
theorem ofWord?_eq_none_iff {s : String} :
    ofWord? s = none ↔ ∀ u : MeasureUnit, Text.sameLetters u.word s = false := by
  simp [ofWord?, mem_all]

/-- Values are converted by the unit as which a declared unit is understood. -/
theorem Declares.ofDeclared?_eq (h : Declares declared unit? word?) : ofDeclared? declared = unit? := by
  cases h with
  | measured h => exact ofWord?_of_sameLetters h
  | absent => rfl
  | @void word h =>
    obtain rfl | h := h
    · decide +kernel
    · have hnone : ofWord? noneWord = none := by decide +kernel
      exact (ofWord?_congr (beq_iff_eq.mp h)).trans hnone
  | other hne hnone hunit => exact ofWord?_eq_none_iff.mpr hunit

end MeasureUnit

namespace World

variable {w v : World}

/-- What an instrument holds, once it is brought up to date. -/
def held (w : World) (h : Handle) : Content := (w.store.content h).settled w.now

/-- A later world in which every instrument holds the same; registries may have changed. -/
structure Steady (w v : World) : Prop where
  now : v.now = w.now
  held : ∀ h, v.held h = w.held h

/-- Every instrument holds what it holds. -/
theorem Steady.refl (w : World) : w.Steady w := ⟨rfl, fun _ => rfl⟩

/-- Whatever is removed when an instrument is read, all instruments hold the same. -/
theorem Steady.readInstrument (hwv : w.Steady v) (unit : Option String) (h : Handle) :
    w.Steady (Export.readInstrument v unit h).2 := by
  obtain ⟨r, -, hread⟩ | ⟨-, hread⟩ := readInstrument_cases v unit h
  · rw [hread]
    exact ⟨hwv.now, hwv.held⟩
  · refine ⟨hread.now.trans hwv.now, fun i => ?_⟩
    rw [← hwv.held i, World.held, hread.now]
    exact hread.settled_eq i

end World

namespace Export

open Exposition (Continues Dialect Sample counterSampleName extend extendOnce? families groupSamples
  hasWord hasWord_extend hasWord_extendOnce rateEndings statisticEndings statisticName totalWord unitWord)
open Sampling (Quantile Snapshot)

/-- The figures of recorded values. -/
def recordedDistribution (count : UInt64) (sum : Float) (s : Snapshot) : List (Figure × Float) :=
  (.count, count.toFloat) :: (.sum, sum) ::
    (Quantile.defaults.map fun q => (.quantile (.of q), s.quantile (Quantile.of q).value)) ++
    [(.min, s.min), (.max, s.max), (.mean, s.mean), (.stddev, s.stddev)]

/-- The figures of rates. -/
def recordedRates (r : Pace.Rates) : List (Figure × Float) :=
  [(.meanRate, r.mean), (.oneMinuteRate, r.oneMinute), (.fiveMinuteRate, r.fiveMinutes),
   (.fifteenMinuteRate, r.fifteenMinutes)]

/-- The figures of what an instrument holds, as they were recorded. -/
def recorded (now : UInt64) : Content → List (Figure × Float)
  | .counter n => [(.value, n.toFloat)]
  | .gauge g => [(.value, g.value)]
  | .meter m => (.count, m.count.toFloat) :: recordedRates (m.currentRates now)
  | .histogram h => recordedDistribution h.count h.sum h.snapshot
  | .timer t =>
    recordedDistribution t.count t.elapsed.toFloat t.snapshot ++
      recordedRates (t.meter.currentRates now)

section Figures

variable {declared : Option String} {unit? : Option MeasureUnit}

end Figures

section Names

variable {d : Dialect} {scope : Scope} {g : Group} {base : String} {word? : Option String}

end Names

section Groups

variable {w : World} {k : RegistryKey} {name? : Option String} {globals : List Tag} {g : Group}
  {unit? : Option MeasureUnit} {word? : Option String}

end Groups

end Export

end Telemetry
