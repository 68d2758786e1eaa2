import Telemetry.Identity
import Telemetry.Instrument
import Telemetry.Metadata

/-!
# Registries

Two tables: metadata by name, and live instruments by identity. This file holds the tables, their
listings and removal; registration has a file of its own. A name keeps its metadata as long as an
instrument of the name is live.
-/

namespace Telemetry

/-- The metadata of names and the instruments of identities. -/
@[ext] structure Registry where
  /-- What is known about each name. -/
  metadata : Table String Metadata
  instruments : Table Identity Handle
  deriving DecidableEq

namespace Registry

/-- The registry in which nothing is registered. -/
def empty : Registry := ⟨.empty, .empty⟩

instance : Inhabited Registry := ⟨empty⟩

/-- The names with metadata, in order. -/
def names (r : Registry) : List String := r.metadata.keys

/-- The identities of live instruments, in order. -/
def identities (r : Registry) : List Identity := r.instruments.keys

/-- The metadata of a name. -/
def metadataFor? (r : Registry) (name : String) : Option Metadata := r.metadata.get? name

/-- The instrument of an identity. -/
def instrument? (r : Registry) (id : Identity) : Option Handle := r.instruments.get? id

/-- The live instruments of a name. -/
def instrumentsNamed (r : Registry) (name : String) : Table Identity Handle :=
  r.instruments.filter fun id _ => id.name == name

/-- The live instruments of a kind that satisfy `p`. -/
def collect (r : Registry) (kind : Kind) (p : Identity → Handle → Bool) : Table Identity Handle :=
  r.instruments.filter fun id h => h.kind == kind && p id h

/-- Whether no instrument is live. -/
def isEmpty (r : Registry) : Bool := r.instruments.isEmpty

/-- Whether an instrument of the name is live. -/
def hasName (r : Registry) (name : String) : Bool := r.identities.any (·.name == name)

/-- Remove the instrument of an identity, and the metadata of its name with the last instrument of
the name. Answers whether there was one. -/
def remove (r : Registry) (id : Identity) : Bool × Registry :=
  if r.instruments.contains id then
    let rest : Registry := { r with instruments := r.instruments.erase id }
    (true, if rest.hasName id.name then rest
      else { rest with metadata := rest.metadata.erase id.name })
  else (false, r)

/-- Remove the instruments of several identities, one after the other. -/
def removeAll (r : Registry) : List Identity → Bool × Registry
  | [] => (false, r)
  | id :: rest =>
    let (here, r) := r.remove id
    let (later, r) := r.removeAll rest
    (here || later, r)

/-- Remove the instruments that satisfy `p`. Answers whether there was one. -/
def removeMatching (r : Registry) (p : Identity → Handle → Bool) : Bool × Registry :=
  r.removeAll (r.instruments.filter p).keys

/-- Remove all instruments of a name and its metadata. Answers whether there was anything. -/
def removeByName (r : Registry) (name : String) : Bool × Registry :=
  (r.hasName name || r.metadata.contains name,
    { metadata := r.metadata.erase name
      instruments := r.instruments.filter fun id _ => id.name != name })

/-- Remove everything. -/
def clear (_ : Registry) : Registry := empty

/-- A name is live exactly when an instrument of it is listed. -/
theorem hasName_iff {r : Registry} {name : String} :
    r.hasName name = true ↔ ∃ id ∈ r.identities, id.name = name := by
  simp [hasName]

/-- Removing an identity that is not live changes nothing. -/
theorem remove_of_absent {r : Registry} {id : Identity} (h : r.instruments.contains id = false) :
    r.remove id = (false, r) := by simp [remove, h]

end Registry

end Telemetry
