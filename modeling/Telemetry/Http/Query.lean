import Telemetry.Text.Urlencoded

/-!
# Query strings

A metrics request may name a scope and a metric. Keys other than these two are ignored, an empty
value counts as none, and a key of the two that stands there twice makes the query malformed.
-/

namespace Telemetry.Http

/-- The part of a target after its first question mark; a fragment is no part of it. -/
def queryOf (target : String) : List UInt8 :=
  let octets := target.toUTF8.toList.takeWhile (· != 0x23)
  (octets.dropWhile (· != 0x3f)).drop 1

/-- What a request asks about. -/
structure Query where
  scope : Option String
  name : Option String
  deriving DecidableEq, Repr

namespace Query

/-- The value of a key that may stand there once: the outer option tells whether it did not stand
there twice. -/
def single? (key : String) (pairs : List (String × String)) : Option (Option String) :=
  match pairs.filter fun p => p.1 == key with
  | [] => some none
  | [p] => some (some p.2)
  | _ => none

/-- A value that says something. -/
def nonEmpty (value : Option String) : Option String := value.filter fun s => !s.isEmpty

/-- Read a query; none when it is malformed. -/
def parse? (octets : List UInt8) : Option Query := do
  let pairs := Text.Urlencoded.decode octets
  let scope ← single? "scope" pairs
  let name ← single? "name" pairs
  some ⟨nonEmpty scope, nonEmpty name⟩

end Query

end Telemetry.Http
