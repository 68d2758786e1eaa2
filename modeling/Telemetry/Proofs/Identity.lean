import Telemetry.Identity
import Telemetry.Proofs.Tag

/-!
# What an identity stands for

A name with the value of each key: nothing else about the list of tags that an identity is made of shows
in it, so every table of instruments may be looked up by whatever list is at hand. Merging other tags in
is told by the same values.
-/

namespace Telemetry.Identity

open Tags (lastValue byKey settle)

variable {a b : Identity}

/-- The tags of an identity give each key the last value of the list it is made of. -/
theorem lastValue_of (name : String) (ts : List Tag) (k : String) :
    lastValue (of name ts).tagList k = lastValue ts k := by
  rw [tagList, Tags.lastValue_list, of, Tags.get?_ofList]

/-- Identities are the same exactly when the names are, and each key has the same value. -/
theorem eq_iff : a = b ↔ a.name = b.name ∧ ∀ k, lastValue a.tagList k = lastValue b.tagList k := by
  constructor
  · intro h
    rw [h]
    exact ⟨rfl, fun _ => rfl⟩
  · intro ⟨hname, hvalues⟩
    obtain ⟨name, tags⟩ := a
    obtain ⟨other, others⟩ := b
    obtain rfl : name = other := hname
    have htags : tags = others := by
      rw [← Tags.ofList_list tags, ← Tags.ofList_list others]
      exact Tags.ofList_eq_iff.mpr hvalues
    rw [htags]

/-- An identity is made of its own name and tags. -/
theorem of_tagList (i : Identity) : of i.name i.tagList = i := by
  rw [of, tagList, Tags.ofList_list]

/-- Extra tags give an identity the values of keys that it has not. -/
theorem lastValue_withDefaults (i : Identity) (extra : List Tag) (k : String) :
    lastValue (i.withDefaults extra).tagList k = (lastValue i.tagList k).or (lastValue extra k) := by
  have hown : Table.find k i.tags.toList.reverse = i.tags.get? k := by
    rw [← Table.get?_ofList, Table.ofList_toList]
  rw [tagList, tagList, Tags.lastValue_list, Tags.lastValue_list, withDefaults, Tags.withDefaults,
    Table.get?_insertAll, hown, Tags.get?_ofList]

/-- An identity has the keys of its own tags and of the extra ones. -/
theorem exists_mem_withDefaults_iff (i : Identity) (extra : List Tag) (k : String) :
    (∃ t ∈ (i.withDefaults extra).tagList, t.key = k) ↔
      (∃ t ∈ i.tagList, t.key = k) ∨ ∃ t ∈ extra, t.key = k := by
  have hkeys (ts : List Tag) : (∃ t ∈ ts, t.key = k) ↔ lastValue ts k ≠ none := by
    rw [ne_eq, Tags.lastValue_eq_none_iff]
    simp
  rw [hkeys, hkeys, hkeys, lastValue_withDefaults, ne_eq, Option.or_eq_none_iff, not_and_or]

/-- An identity with the extra tags is that of the extra tags of other keys, followed by its own. -/
theorem withDefaults_eq_of (i : Identity) (extra : List Tag) :
    i.withDefaults extra =
      of i.name ((extra.filter fun t => i.tagList.all fun own => own.key ≠ t.key) ++ i.tagList) := by
  apply eq_iff.mpr
  refine ⟨rfl, fun k => ?_⟩
  rw [lastValue_withDefaults, lastValue_of, Tags.lastValue_append]
  cases hown : lastValue i.tagList k with
  | some v => rfl
  | none =>
    rw [Option.none_or, Option.none_or]
    apply Eq.symm
    apply Tags.lastValue_filter
    intro t _ ht
    rw [List.all_eq_true]
    intro own hmem
    exact decide_eq_true (ht ▸ Tags.lastValue_eq_none_iff.mp hown own hmem)

/-- Names are compared first. -/
theorem compare_of_name_ne (h : a.name ≠ b.name) : compare a b = compare a.name b.name := by
  change (compare a.name b.name).then (compare a.tagList b.tagList) = _
  cases hname : compare a.name b.name with
  | lt => rfl
  | eq => exact absurd (Std.LawfulEqCmp.eq_of_compare hname) h
  | gt => rfl

/-- Among identities of one name the tags are compared. -/
theorem compare_of_name_eq (h : a.name = b.name) : compare a b = compare a.tagList b.tagList := by
  have hname : compare a.name b.name = .eq := Std.compare_eq_iff_eq.mpr h
  change (compare a.name b.name).then (compare a.tagList b.tagList) = _
  rw [hname]
  rfl

/-- A name and a list of tags make the same identity as others exactly when the names are the same and
each key has the same last value. The tags of an identity have increasing keys, each with its last
value; they are what is left of the sorted list when every tag takes the place of earlier ones of its
key, and make the identity again. Identities are in a total order in which only the same ones are equal,
by name first. -/
theorem canonical_and_ordered (name other : String) (ts us : List Tag) (a b c : Identity) :
    (of name ts = of other us ↔ name = other ∧ ∀ k, lastValue ts k = lastValue us k) ∧
      (of name ts).tagList.Pairwise (fun t u => t.key < u.key) ∧
      (∀ k, lastValue (of name ts).tagList k = lastValue ts k) ∧
      (of name ts).tagList = (ts.mergeSort byKey).foldl settle [] ∧
      of (of name ts).name (of name ts).tagList = of name ts ∧
      (compare a b = .eq ↔ a = b) ∧
      compare b a = (compare a b).swap ∧
      (compare a b ≠ .gt → compare b c ≠ .gt → compare a c ≠ .gt) ∧
      (a.name ≠ b.name → compare a b = compare a.name b.name) ∧
      (a.name = b.name → compare a b = compare a.tagList b.tagList) := by
  have hsame : of name ts = of other us ↔ name = other ∧ ∀ k, lastValue ts k = lastValue us k := by
    rw [eq_iff]
    simp only [lastValue_of]
    rfl
  have htrans : compare a b ≠ .gt → compare b c ≠ .gt → compare a c ≠ .gt := by
    intro hab hbc
    exact Ordering.isLE_iff_ne_gt.mp (Std.TransCmp.isLE_trans (Ordering.isLE_iff_ne_gt.mpr hab)
      (Ordering.isLE_iff_ne_gt.mpr hbc))
  exact ⟨hsame, Tags.list_ordered _, lastValue_of name ts, Tags.list_ofList_eq_settled ts,
    of_tagList _, Std.compare_eq_iff_eq, Std.OrientedCmp.eq_swap, htrans, compare_of_name_ne,
    compare_of_name_eq⟩

/-- Of two tags with one key the last one counts, wherever the others stand. -/
example : of "name" [⟨"a", "1"⟩, ⟨"b", "x"⟩, ⟨"a", "2"⟩] = of "name" [⟨"b", "x"⟩, ⟨"a", "2"⟩] := by
  decide

/-- An identity with extra tags is the one of its name in which each key has its own value, if it has
one, and the last extra one otherwise; there are no other keys. So it is made of the extra tags of other
keys and its own ones, extra tags are merged once and for all, and those that are merged later are
merged as if they stood before the others. -/
theorem withDefaults_values (i : Identity) (extra : List Tag) :
    let merged := i.withDefaults extra
    merged.name = i.name ∧
      merged = of i.name
        ((extra.filter fun t => i.tagList.all fun own => own.key ≠ t.key) ++ i.tagList) ∧
      of merged.name merged.tagList = merged ∧
      (∀ k, lastValue merged.tagList k = (lastValue i.tagList k).or (lastValue extra k)) ∧
      (∀ k, (∃ t ∈ merged.tagList, t.key = k) ↔
        (∃ t ∈ i.tagList, t.key = k) ∨ ∃ t ∈ extra, t.key = k) ∧
      merged.withDefaults extra = merged ∧
      ∀ a b : List Tag, i.withDefaults (a ++ b) = (i.withDefaults b).withDefaults a := by
  intro merged
  have honce : merged.withDefaults extra = merged := by
    apply eq_iff.mpr
    refine ⟨rfl, fun k => ?_⟩
    rw [lastValue_withDefaults, lastValue_withDefaults, Option.or_assoc, Option.or_self]
  have hlater (a b : List Tag) : i.withDefaults (a ++ b) = (i.withDefaults b).withDefaults a := by
    apply eq_iff.mpr
    refine ⟨rfl, fun k => ?_⟩
    rw [lastValue_withDefaults, lastValue_withDefaults, lastValue_withDefaults, Tags.lastValue_append,
      Option.or_assoc]
  exact ⟨rfl, withDefaults_eq_of i extra, of_tagList merged, lastValue_withDefaults i extra,
    exists_mem_withDefaults_iff i extra, honce, hlater⟩

end Telemetry.Identity
