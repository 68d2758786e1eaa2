import Telemetry.Identity
import Telemetry.Metadata

/-!
# Refused registrations

Why a registration is refused, with what is needed to say so.
-/

namespace Telemetry

/-- Why a registration is refused. -/
inductive RegistrationError where
  /-- The name is taken by another kind. -/
  | kindConflict (name : String) (existing requested : Kind)
  /-- The name's metadata says something else. -/
  | metadataConflict (name : String) (conflict : Metadata.Conflict)
  /-- The identity has an instrument that may not be shared. -/
  | duplicate (id : Identity)
  /-- The object offered could be several kinds of instrument. -/
  | ambiguous (name : String) (candidates : List Kind)
  /-- The object offered is no instrument of the kind asked for, or of any kind. -/
  | unsupported (name : String) (requested : Option Kind)
  deriving DecidableEq

namespace RegistrationError

/-- The wording of a refusal. -/
def message : RegistrationError → String
  | .kindConflict name existing requested =>
    "metric `" ++ name ++ "` is already registered as a " ++ existing.word ++ ", not a "
      ++ requested.word
  | .metadataConflict name conflict =>
    "metric `" ++ name ++ "` is already registered with " ++ conflict.field.word ++ " `"
      ++ conflict.existing ++ "`, not `" ++ conflict.requested ++ "`"
  | .duplicate id => "metric `" ++ id.text ++ "` is already registered and is not reusable"
  | .ambiguous name candidates =>
    "instrument for `" ++ name ++ "` is ambiguous, it could be any of: "
      ++ Text.join ", " (candidates.map Kind.word)
  | .unsupported name requested =>
    "instrument for `" ++ name ++ "` does not provide "
      ++ (requested.map Kind.word).getD "any metric type"

end RegistrationError

end Telemetry
