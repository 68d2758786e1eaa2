import Telemetry.Metadata

/-!
# Units of measure

The units whose values are converted for export: amounts of data to bytes, spans of time to seconds.
A declared unit that is none of these is kept as it is written, and its values are not converted.
-/

namespace Telemetry

/-- A unit of data or of time. -/
inductive MeasureUnit where
  | bits | kilobits | megabits | gigabits | kibibits | mebibits | gibibits
  | bytes | kilobytes | megabytes | gigabytes | kibibytes | mebibytes | gibibytes
  | nanoseconds | microseconds | milliseconds | seconds | minutes | hours | days
  deriving DecidableEq, Repr

namespace MeasureUnit

/-- The word for seconds. -/
def secondsWord : String := "seconds"

/-- The word for bytes. -/
def bytesWord : String := "bytes"

/-- Every unit. -/
def all : List MeasureUnit :=
  [.bits, .kilobits, .megabits, .gigabits, .kibibits, .mebibits, .gibibits,
   .bytes, .kilobytes, .megabytes, .gigabytes, .kibibytes, .mebibytes, .gibibytes,
   .nanoseconds, .microseconds, .milliseconds, .seconds, .minutes, .hours, .days]

/-- The word for a unit. -/
def word : MeasureUnit → String
  | .bits => "bits"
  | .kilobits => "kilobits"
  | .megabits => "megabits"
  | .gigabits => "gigabits"
  | .kibibits => "kibibits"
  | .mebibits => "mebibits"
  | .gibibits => "gibibits"
  | .bytes => bytesWord
  | .kilobytes => "kilobytes"
  | .megabytes => "megabytes"
  | .gigabytes => "gigabytes"
  | .kibibytes => "kibibytes"
  | .mebibytes => "mebibytes"
  | .gibibytes => "gibibytes"
  | .nanoseconds => "nanoseconds"
  | .microseconds => "microseconds"
  | .milliseconds => "milliseconds"
  | .seconds => secondsWord
  | .minutes => "minutes"
  | .hours => "hours"
  | .days => "days"

/-- The unit that a word names, in any letter case. -/
def ofWord? (s : String) : Option MeasureUnit := all.find? fun u => Text.sameLetters u.word s

/-- Whether it is a unit of time; the others are units of data. -/
def isTime : MeasureUnit → Bool
  | .nanoseconds | .microseconds | .milliseconds | .seconds | .minutes | .hours | .days => true
  | _ => false

/-- The word for the unit that values are converted to. -/
def baseWord (u : MeasureUnit) : String := if u.isTime then secondsWord else bytesWord

/-- How many base units one unit is, as a fraction. -/
def ratio : MeasureUnit → Float × Float
  | .bits => (1, 8)
  | .kilobits => (1e3, 8)
  | .megabits => (1e6, 8)
  | .gigabits => (1e9, 8)
  | .kibibits => (1024, 8)
  | .mebibits => (1048576, 8)
  | .gibibits => (1073741824, 8)
  | .bytes => (1, 1)
  | .kilobytes => (1e3, 1)
  | .megabytes => (1e6, 1)
  | .gigabytes => (1e9, 1)
  | .kibibytes => (1024, 1)
  | .mebibytes => (1048576, 1)
  | .gibibytes => (1073741824, 1)
  | .nanoseconds => (1, 1e9)
  | .microseconds => (1, 1e6)
  | .milliseconds => (1, 1e3)
  | .seconds => (1, 1)
  | .minutes => (60, 1)
  | .hours => (3600, 1)
  | .days => (86400, 1)

/-- Convert a value to the base unit: the multiplication and the division by one are left out, as
each of the two that is carried out may round. -/
def scale (u : MeasureUnit) (x : Float) : Float :=
  let (numerator, denominator) := u.ratio
  if denominator == 1 then
    if numerator == 1 then x else x * numerator
  else x * numerator / denominator

/-- The unit that a declared word names. -/
def ofDeclared? (declared : Option String) : Option MeasureUnit := declared.bind ofWord?

/-- The word for the unit in which values of a declared unit are exported. -/
def canonical (declared : Option String) : String :=
  match ofDeclared? declared with
  | some u => u.baseWord
  | none => declared.getD noneWord

/-- A value of a declared unit, converted for export. -/
def toBase (declared : Option String) (x : Float) : Float :=
  match ofDeclared? declared with
  | some u => u.scale x
  | none => x

/-- The unit that an exported name ends with; none for no unit, in any letter case. -/
def suffix? (declared : Option String) : Option String :=
  let unit := canonical declared
  if Text.sameLetters unit noneWord || unit.isEmpty then none else some unit

/-- Each unit is named by its word. -/
theorem ofWord?_word (u : MeasureUnit) : ofWord? u.word = some u := by
  cases u <;> decide +kernel

/-- Without a declared unit values stay as they are. -/
@[simp] theorem toBase_none (x : Float) : toBase none x = x := rfl

end MeasureUnit

end Telemetry
