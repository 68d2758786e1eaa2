import Telemetry.Tag
import Telemetry.Text.Pieces

/-!
# Identities

What an instrument is registered under: a name and tags. Identities are ordered by name, then by
their tags in key order, so all identities of one name stand together in a listing.
-/

namespace Telemetry

/-- A name with tags. -/
structure Identity where
  name : String
  /-- What tells this instrument from others of the name. -/
  tags : Tags
  deriving DecidableEq, Inhabited

namespace Identity

/-- The identity of a name and a list of tags; the last tag of a key counts. -/
def of (name : String) (tags : List Tag) : Identity := ⟨name, Tags.ofList tags⟩

/-- The tags in key order. -/
def tagList (i : Identity) : List Tag := i.tags.list

/-- The identity with those extra tags whose key it does not have. -/
def withDefaults (i : Identity) (extra : List Tag) : Identity :=
  ⟨i.name, i.tags.withDefaults extra⟩

/-- An identity as it stands in listings: the name, then the tags in braces if there are any. -/
def text (i : Identity) : String :=
  if i.tags.isEmpty then i.name
  else i.name ++ "\x7b" ++ Text.join "," (i.tagList.map Tag.text) ++ "\x7d"

/-- Identities are ordered by name, then by tags. -/
instance : Ord Identity := ⟨compareLex (compareOn Identity.name) (compareOn Identity.tagList)⟩

instance : Std.TransOrd Identity :=
  inferInstanceAs
    (Std.TransCmp (compareLex (compareOn Identity.name) (compareOn Identity.tagList)))

instance : Std.LawfulEqOrd Identity where
  eq_of_compare {a b} h := by
    have h' : (compare a.name b.name).then (compare a.tagList b.tagList) = .eq := h
    rw [Ordering.then_eq_eq] at h'
    cases a; cases b
    simp only [Identity.mk.injEq]
    exact ⟨Std.LawfulEqCmp.eq_of_compare h'.1,
      Tags.list_injective (Std.LawfulEqCmp.eq_of_compare h'.2)⟩

end Identity

end Telemetry
