import Telemetry.Text.Blank
import Telemetry.Text.Pieces

/-!
# Content negotiation

Which format an `Accept` value asks for: the first of its media ranges that is known decides,
parameters and letter case do not matter. A value that is absent or blank asks for nothing in
particular and gets the Prometheus format.
-/

namespace Telemetry.Http

/-- The formats of a metrics response. -/
inductive Format where
  | prometheus
  | openMetrics
  | json
  deriving DecidableEq, Repr

namespace Format

/-- The media ranges that are known. -/
def ranges : List (String × Format) :=
  [("application/openmetrics-text", .openMetrics), ("application/json", .json),
   ("text/plain", .prometheus), ("text/*", .prometheus), ("*/*", .prometheus)]

/-- The media type of a range: what stands before its parameters. -/
def mediaType (range : List Char) : String :=
  Text.lower (String.ofList (Text.trim (Text.before ';' range)))

/-- The format of a media range. -/
def ofRange? (range : List Char) : Option Format := ranges.lookup (mediaType range)

/-- The format that an `Accept` value asks for. -/
def negotiate (accept : Option String) : Option Format :=
  let asked := Text.trim ((accept.getD "").toList)
  if asked.isEmpty then some .prometheus else (Text.pieces ',' asked).findSome? ofRange?

end Format

end Telemetry.Http
