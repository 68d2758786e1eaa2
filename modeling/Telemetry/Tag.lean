import Telemetry.Table

/-!
# Tags

A tag is a key with a value. Instruments of one name are told apart by their tags, held as a table
from key to value: in a list of tags the last one of a key counts.
-/

namespace Telemetry

/-- A key with a value. -/
@[ext] structure Tag where
  /-- What the tag is about. -/
  key : String
  value : String
  deriving DecidableEq, Repr, Inhabited

namespace Tag

/-- A tag as it stands in listings: `key=value`. -/
def text (t : Tag) : String := t.key ++ "=" ++ t.value

/-- Tags are ordered by key, then by value. -/
instance : Ord Tag := ⟨compareLex (compareOn Tag.key) (compareOn Tag.value)⟩

instance : Std.TransOrd Tag :=
  inferInstanceAs (Std.TransCmp (compareLex (compareOn Tag.key) (compareOn Tag.value)))

instance : Std.LawfulEqOrd Tag where
  eq_of_compare {a b} h := by
    have h' : (compare a.key b.key).then (compare a.value b.value) = .eq := h
    rw [Ordering.then_eq_eq] at h'
    exact Tag.ext (Std.LawfulEqCmp.eq_of_compare h'.1) (Std.LawfulEqCmp.eq_of_compare h'.2)

end Tag

/-- The tags of one instrument: one value for each key. -/
abbrev Tags := Table String String

namespace Tags

/-- The table of a list of tags; the last tag of a key counts. -/
def ofList (ts : List Tag) : Tags := Table.ofList (ts.map fun t => (t.key, t.value))

/-- The tags in key order. -/
def list (ts : Tags) : List Tag := ts.toList.map fun e => ⟨e.1, e.2⟩

/-- These tags together with those of `extra` whose key is not among them. -/
def withDefaults (ts : Tags) (extra : List Tag) : Tags := (ofList extra).insertAll ts.toList

/-- A table of tags is determined by its list. -/
theorem list_injective {s t : Tags} (h : s.list = t.list) : s = t := by
  refine Table.ext ?_
  refine (List.map_inj_right fun a b hab => ?_).mp h
  exact Prod.ext (congrArg Tag.key hab) (congrArg Tag.value hab)

end Tags

end Telemetry
