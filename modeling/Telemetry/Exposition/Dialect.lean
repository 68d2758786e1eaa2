import Telemetry.Name
import Telemetry.Scope
import Telemetry.Text.Pieces

/-!
# Dialects

The two text formats differ in a handful of decisions, which are the fields of one record. All else
about text documents is the same in both.
-/

namespace Telemetry.Exposition

/-- What one text format decides. -/
structure Dialect where
  /-- What stands between scope and name. -/
  separator : Char
  /-- Whether a counter's family is declared with the ending `_total`; its samples always have
  it. -/
  declaresTotal : Bool
  /-- Whether the description comes before the type, and not last. -/
  helpFirst : Bool
  /-- Whether quotation marks in descriptions are escaped. -/
  escapesQuotes : Bool
  /-- Whether units are declared. -/
  declaresUnits : Bool
  /-- Whether the document ends with a mark. -/
  endMark : Bool
  /-- The media type of documents. -/
  contentType : String
  deriving DecidableEq, Repr

/-- The Prometheus text format. -/
def Dialect.prometheus : Dialect :=
  { separator := '_'
    declaresTotal := true
    helpFirst := true
    escapesQuotes := false
    declaresUnits := false
    endMark := false
    contentType := "text/plain; version=0.0.4; charset=utf-8" }

/-- The OpenMetrics text format. -/
def Dialect.openMetrics : Dialect :=
  { separator := ':'
    declaresTotal := false
    helpFirst := false
    escapesQuotes := true
    declaresUnits := true
    endMark := true
    contentType := "text/plain; version=1.0.0; charset=utf-8" }

/-- A name with an ending after an underscore. -/
def extend (base ending : String) : String := base ++ "_" ++ ending

/-- A name with an ending after an underscore, unless it has the ending already. -/
def extendOnce (base ending : String) : String :=
  if Text.endsWith base ("_" ++ ending) then base else extend base ending

/-- A name with an ending, if there is one to be had. -/
def extendOnce? (base : String) : Option String → String
  | some ending => extendOnce base ending
  | none => base

/-- The ending of counters. -/
def totalWord : String := "total"

/-- The name that the families of a metric begin with. -/
def Dialect.baseName (d : Dialect) (scope : Scope) (name : String) : String :=
  Name.sanitize (scope ++ String.singleton d.separator ++ name)

/-- The name of a counter's samples. -/
def counterSampleName (stem : String) : String := extendOnce stem totalWord

/-- The name under which a counter's family is declared. -/
def Dialect.counterFamilyName (d : Dialect) (stem : String) : String :=
  if d.declaresTotal then counterSampleName stem else Text.dropEnding stem ("_" ++ totalWord)

end Telemetry.Exposition
