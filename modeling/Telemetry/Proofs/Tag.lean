import Mathlib.Data.List.Induction
import Telemetry.Proofs.Table
import Telemetry.Tag

/-!
# The last tag of a key

A list of tags gives each key the value of the last tag that has it, and nothing else about the list
shows in its table. The table is also what is got by sorting: once the tags are sorted by key, with those
of one key in their order, one pass in which a tag takes the place of the one before it, if that has its
key, leaves the tags of the table.
-/

namespace Telemetry.Tags

/-- The value of the last tag of a key. -/
def lastValue (ts : List Tag) (k : String) : Option String :=
  (ts.filter fun t => t.key = k).getLast?.map Tag.value

/-- Tags by key, whatever their values are. -/
def byKey (a b : Tag) : Bool := decide (a.key ≤ b.key)

/-- Put a tag after others, in place of the last one if that has its key. -/
def settle (done : List Tag) (t : Tag) : List Tag :=
  match done.getLast? with
  | some last => if last.key = t.key then done.dropLast ++ [t] else done ++ [t]
  | none => [t]

variable {ts us : List Tag} {k : String}

section LastValue

/-- Later tags count before earlier ones. -/
theorem lastValue_append (ts us : List Tag) (k : String) :
    lastValue (ts ++ us) k = (lastValue us k).or (lastValue ts k) := by
  rw [lastValue, List.filter_append, List.getLast?_append, Option.map_or]
  rfl

/-- A single tag has its value under its key. -/
theorem lastValue_singleton (t : Tag) (k : String) :
    lastValue [t] k = if t.key = k then some t.value else none := by
  by_cases h : t.key = k <;> simp [lastValue, h]

/-- A key without a tag has no value. -/
theorem lastValue_eq_none_iff : lastValue ts k = none ↔ ∀ t ∈ ts, t.key ≠ k := by
  simp [lastValue]

/-- Leaving out tags of other keys changes nothing. -/
theorem lastValue_filter {p : Tag → Bool} (h : ∀ t ∈ ts, t.key = k → p t = true) :
    lastValue (ts.filter p) k = lastValue ts k := by
  have hkeep : ((ts.filter p).filter fun t => t.key = k) = ts.filter fun t => t.key = k := by
    rw [List.filter_filter]
    apply List.filter_congr
    intro t ht
    by_cases hk : t.key = k
    · simp [hk, h t ht hk]
    · simp [hk]
  rw [lastValue, hkeep, lastValue]

/-- The table of a list has the last value of each key. -/
theorem get?_ofList (ts : List Tag) (k : String) : (ofList ts).get? k = lastValue ts k := by
  rw [ofList, Table.get?_ofList]
  induction ts with
  | nil => rfl
  | cons t rest ih =>
    have hfind : Table.find k [(t.key, t.value)] = lastValue [t] k := by
      rw [lastValue_singleton]
      by_cases h : t.key = k
      · simp [Table.find, h]
      · have hne : compare k t.key ≠ .eq := fun hc => h (Std.LawfulEqCmp.eq_of_compare hc).symm
        simp [Table.find, h, hne]
    rw [List.map_cons, List.reverse_cons, Table.find_append, ih, hfind]
    exact (lastValue_append [t] rest k).symm

/-- Lists of tags make the same table exactly when they give each key the same value. -/
theorem ofList_eq_iff : ofList ts = ofList us ↔ ∀ k, lastValue ts k = lastValue us k := by
  constructor
  · intro h k
    rw [← get?_ofList, h, get?_ofList]
  · intro h
    apply Table.ext_get?
    intro k
    rw [get?_ofList, h, get?_ofList]

/-- A table is made of its own tags. -/
theorem ofList_list (tags : Tags) : ofList tags.list = tags := by
  have hentries : (tags.list.map fun t => (t.key, t.value)) = tags.toList := by
    rw [list, List.map_map]
    exact List.map_id _
  rw [ofList, hentries, Table.ofList_toList]

/-- The tags of a table give each key the value that it has there. -/
theorem lastValue_list (tags : Tags) (k : String) : lastValue tags.list k = tags.get? k := by
  rw [← get?_ofList, ofList_list]

end LastValue

section Order

/-- The tags of a table have increasing keys. -/
theorem list_ordered (tags : Tags) : tags.list.Pairwise fun a b => a.key < b.key := by
  apply List.pairwise_map.mpr
  apply tags.ordered.imp
  intro a b h
  exact compareOfLessAndEq_eq_lt.mp h

/-- Tags with increasing keys are those of their table. -/
theorem list_ofList (h : ts.Pairwise fun a b => a.key < b.key) : (ofList ts).list = ts := by
  have hentries : (ts.map fun t => (t.key, t.value)).Pairwise fun a b => compare a.1 b.1 = .lt := by
    apply List.pairwise_map.mpr
    apply h.imp
    intro a b hab
    exact compareOfLessAndEq_eq_lt.mpr hab
  have htable : ofList ts = ⟨_, hentries⟩ := Table.ofList_toList ⟨_, hentries⟩
  rw [htable, list, List.map_map]
  exact List.map_id _

/-- The order by key is transitive. -/
theorem byKey_trans (a b c : Tag) (hab : byKey a b = true) (hbc : byKey b c = true) :
    byKey a c = true := by
  simp only [byKey, decide_eq_true_eq] at *
  exact String.le_trans hab hbc

/-- The order by key is total. -/
theorem byKey_total (a b : Tag) : (byKey a b || byKey b a) = true := by
  simp only [byKey, Bool.or_eq_true, decide_eq_true_eq]
  exact String.le_total _ _

/-- Sorted tags are ordered by key. -/
theorem mergeSort_ordered (ts : List Tag) :
    (ts.mergeSort byKey).Pairwise fun a b => a.key ≤ b.key := by
  apply (List.pairwise_mergeSort byKey_trans byKey_total ts).imp
  intro a b h
  exact of_decide_eq_true h

/-- Sorting by key keeps the tags of one key in their order. -/
theorem filter_mergeSort (ts : List Tag) (k : String) :
    ((ts.mergeSort byKey).filter fun t => t.key = k) = ts.filter fun t => t.key = k := by
  have hsame : (ts.filter fun t => t.key = k).Pairwise fun a b => byKey a b = true := by
    apply List.pairwise_of_forall_mem_list
    intro a ha b hb
    have hak : a.key = k := by simpa using List.of_mem_filter ha
    have hbk : b.key = k := by simpa using List.of_mem_filter hb
    simp [byKey, hak, hbk]
  have hsublist := List.sublist_mergeSort byKey_trans byKey_total hsame List.filter_sublist
  have hpart := hsublist.filter fun t => decide (t.key = k)
  have hlength := ((List.mergeSort_perm ts byKey).filter fun t => decide (t.key = k)).length_eq
  simp only [List.filter_filter, Bool.and_self] at hpart
  exact (hpart.eq_of_length hlength.symm).symm

/-- So sorting changes the value of no key. -/
theorem lastValue_mergeSort (ts : List Tag) (k : String) :
    lastValue (ts.mergeSort byKey) k = lastValue ts k := by
  rw [lastValue, filter_mergeSort, lastValue]

end Order

section Settle

/-- Tags that were put in their places, out of sorted ones. -/
structure Settled (ts done : List Tag) : Prop where
  ordered : done.Pairwise fun a b => a.key < b.key
  values : ∀ k, lastValue done k = lastValue ts k
  subset : done ⊆ ts

/-- A tag whose key is not before those of the others is put after those of other keys. -/
theorem settle_eq {done : List Tag} {t : Tag} (hordered : done.Pairwise fun a b => a.key < b.key)
    (hle : ∀ u ∈ done, u.key ≤ t.key) :
    settle done t = (done.filter fun u => u.key ≠ t.key) ++ [t] := by
  rcases List.eq_nil_or_concat done with rfl | ⟨rest, last, rfl⟩
  · rfl
  rw [List.concat_eq_append] at hordered hle ⊢
  obtain ⟨-, -, hbefore⟩ := List.pairwise_append.mp hordered
  have hlast : last.key ≤ t.key := hle last List.mem_concat_self
  have hother : (rest.filter fun u => u.key ≠ t.key) = rest := by
    apply List.filter_eq_self.mpr
    intro u hu
    have hlt : u.key < last.key := hbefore u hu last List.mem_cons_self
    have hne : u.key ≠ t.key := fun heq => String.not_le.mpr hlt (heq ▸ hlast)
    simpa using hne
  rw [settle, List.getLast?_concat, List.filter_append, hother]
  by_cases hkey : last.key = t.key
  · simp [hkey]
  · simp [hkey]

/-- A tag whose key is not before those of the others is put in its place. -/
theorem Settled.settle {done : List Tag} {t : Tag} (h : Settled ts done)
    (ht : ∀ u ∈ ts, u.key ≤ t.key) : Settled (ts ++ [t]) (settle done t) := by
  have hle : ∀ u ∈ done, u.key ≤ t.key := fun u hu => ht u (h.subset hu)
  rw [settle_eq h.ordered hle]
  constructor
  case ordered =>
    apply List.pairwise_append.mpr
    refine ⟨h.ordered.filter _, List.pairwise_singleton _ _, ?_⟩
    intro u hu v hv
    obtain ⟨hu, hne⟩ := List.mem_filter.mp hu
    rw [List.mem_singleton.mp hv]
    apply String.not_le.mp
    intro hge
    exact of_decide_eq_true hne (String.le_antisymm (hle u hu) hge)
  case values =>
    intro k
    rw [lastValue_append, lastValue_append, ← h.values]
    by_cases hk : t.key = k
    · rw [lastValue_singleton, if_pos hk, Option.some_or, Option.some_or]
    · have hkeep : lastValue (done.filter fun u => u.key ≠ t.key) k = lastValue done k := by
        apply lastValue_filter
        intro u _ huk
        exact decide_eq_true fun heq => hk (heq.symm.trans huk)
      rw [hkeep]
  case subset =>
    intro u hu
    rcases List.mem_append.mp hu with hu | hu
    · exact List.mem_append_left _ (h.subset (List.mem_of_mem_filter hu))
    · exact List.mem_append_right _ hu

/-- Sorted tags are put in their places one by one. -/
theorem settled_foldl (h : ts.Pairwise fun a b => a.key ≤ b.key) :
    Settled ts (ts.foldl settle []) := by
  induction ts using List.reverseRecOn with
  | nil => exact ⟨.nil, fun _ => rfl, fun _ hu => hu⟩
  | append_singleton rest t ih =>
    obtain ⟨hrest, -, hlast⟩ := List.pairwise_append.mp h
    rw [List.foldl_append]
    exact (ih hrest).settle fun u hu => hlast u hu t List.mem_cons_self

/-- The tags of a table are the sorted ones of its list, each in place of earlier ones of its key. -/
theorem list_ofList_eq_settled (ts : List Tag) :
    (ofList ts).list = (ts.mergeSort byKey).foldl settle [] := by
  have h := settled_foldl (mergeSort_ordered ts)
  have htable : ofList ts = ofList ((ts.mergeSort byKey).foldl settle []) := by
    apply ofList_eq_iff.mpr
    intro k
    rw [h.values, lastValue_mergeSort]
  rw [htable, list_ofList h.ordered]

end Settle

end Telemetry.Tags
