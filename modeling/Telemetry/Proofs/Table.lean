import Telemetry.Table
import Mathlib.Data.List.Sort

/-!
# Look-ups decide tables

What a look-up finds after a table was filtered or lost an entry, and which keys a listing shows. The
order of the entries makes a table the same as its look-ups, so equations between tables are proved
one key at a time and no proof above this file walks a list of entries.
-/

namespace Telemetry.Table

variable {κ α : Type} [Ord κ]

/-- What is found among entries is one of them. -/
theorem mem_of_find [Std.LawfulEqOrd κ] {k : κ} {v : α} {l : List (κ × α)}
    (h : find k l = some v) : (k, v) ∈ l := by
  induction l with
  | nil => simp [find] at h
  | cons e rest ih =>
    simp only [find] at h
    split at h
    · rename_i hk
      have hke : k = e.1 := Std.LawfulEqCmp.eq_of_compare hk
      obtain rfl := Option.some.inj h
      rw [hke]
      exact List.mem_cons_self
    · exact List.mem_cons_of_mem _ (ih h)

variable [Std.LawfulEqOrd κ]

/-- The keys of ordered entries are different. -/
theorem nodup_of_ordered {l : List (κ × α)} (hl : l.Pairwise fun a b => compare a.1 b.1 = .lt) :
    (l.map Prod.fst).Nodup := by
  refine List.pairwise_map.mpr (hl.imp fun {a b} hab heq => ?_)
  rw [heq] at hab
  simp at hab

/-- Among entries of different keys no earlier one hides an entry from a look-up. -/
theorem find_of_mem {k : κ} {v : α} {l : List (κ × α)} (hl : (l.map Prod.fst).Nodup)
    (h : (k, v) ∈ l) : find k l = some v := by
  induction l with
  | nil => simp at h
  | cons e rest ih =>
    obtain ⟨he, hrest⟩ := List.nodup_cons.mp hl
    rcases List.mem_cons.mp h with rfl | h
    · simp [find]
    · have hne : compare k e.1 ≠ .eq := fun hc =>
        he (Std.LawfulEqCmp.eq_of_compare hc ▸ List.mem_map_of_mem h)
      rw [find, if_neg hne]
      exact ih hrest h

/-- A look-up finds exactly the entries. -/
theorem get?_eq_some_iff {t : Table κ α} {k : κ} {v : α} :
    t.get? k = some v ↔ (k, v) ∈ t.toList :=
  ⟨mem_of_find, find_of_mem (nodup_of_ordered t.ordered)⟩

/-- Look-up after filtering. -/
theorem get?_filter (t : Table κ α) (p : κ → α → Bool) (k : κ) :
    (t.filter p).get? k = (t.get? k).filter (p k) := by
  ext v
  simp only [get?_eq_some_iff, Option.filter_eq_some_iff, toList_filter, List.mem_filter]

/-- What is found after filtering was there before. -/
theorem get?_of_get?_filter {t : Table κ α} {p : κ → α → Bool} {k : κ} {v : α}
    (h : (t.filter p).get? k = some v) : t.get? k = some v := by
  rw [get?_filter] at h
  exact (Option.filter_eq_some_iff.mp h).1

/-- A choice by key keeps tables related. -/
theorem rel_filter {β : Type} {A : α → β → Prop} {t : Table κ α} {u : Table κ β}
    (h : ∀ k, Option.Rel A (t.get? k) (u.get? k)) (p : κ → Bool) (k : κ) :
    Option.Rel A ((t.filter fun k _ => p k).get? k) ((u.filter fun k _ => p k).get? k) := by
  have hk := h k
  rw [get?_filter, get?_filter]
  generalize t.get? k = x at hk
  generalize u.get? k = y at hk
  cases hk with
  | none => exact .none
  | some hA =>
    cases hp : p k with
    | true => simpa [Option.filter, hp] using Option.Rel.some hA
    | false => simp

/-- Look-up after an entry was dropped. -/
theorem get?_erase [DecidableEq κ] (t : Table κ α) (k k' : κ) :
    (t.erase k).get? k' = if k' = k then none else t.get? k' := by
  rw [erase, get?_filter]
  by_cases h : k' = k
  · simp [h]
  · have hne : (compare k k' != .eq) = true := by
      simpa using fun hc : k = k' => h hc.symm
    rw [if_neg h, hne]
    cases t.get? k' <;> rfl

omit [Std.LawfulEqOrd κ] in
/-- A key has an entry when a look-up finds one. -/
theorem contains_iff {t : Table κ α} {k : κ} : t.contains k = true ↔ ∃ v, t.get? k = some v :=
  Option.isSome_iff_exists

/-- The keys of a listing are those that have an entry. -/
theorem mem_keys_iff {t : Table κ α} {k : κ} : k ∈ t.keys ↔ t.contains k = true := by
  simp [keys, contains_iff, get?_eq_some_iff]

omit [Std.LawfulEqOrd κ] in
/-- The keys of a listing are in order, each once. -/
theorem keys_ordered (t : Table κ α) : t.keys.Pairwise fun a b => compare a b = .lt :=
  List.pairwise_map.mpr t.ordered

/-- Filters that keep the same entries make the same table. -/
theorem filter_congr {t : Table κ α} {p q : κ → α → Bool}
    (h : ∀ k v, t.get? k = some v → p k v = q k v) : t.filter p = t.filter q := by
  refine Table.ext ?_
  exact List.filter_congr fun e he => h e.1 e.2 (get?_eq_some_iff.mpr he)

omit [Std.LawfulEqOrd κ] in
/-- What is found among entries that others follow. -/
theorem find_append (k : κ) (l m : List (κ × α)) : find k (l ++ m) = (find k l).or (find k m) := by
  induction l with
  | nil => rfl
  | cons e rest ih =>
    simp only [List.cons_append, find, ih]
    split <;> rfl

variable [Std.TransOrd κ]

section Ordered

variable {β : Type} {key : β → κ} {l m : List β}

omit [Std.LawfulEqOrd κ]

/-- Ordered lists with the same elements are the same. -/
theorem eq_of_ordered (hl : l.Pairwise fun a b => compare (key a) (key b) = .lt)
    (hm : m.Pairwise fun a b => compare (key a) (key b) = .lt) (h : ∀ x, x ∈ l ↔ x ∈ m) :
    l = m := by
  have : Std.Antisymm fun a b => compare (key a) (key b) = .lt :=
    ⟨fun _ _ hab hba => absurd hba (Std.OrientedCmp.not_lt_of_lt hab)⟩
  have : Std.Irrefl fun a b => compare (key a) (key b) = .lt := ⟨fun a ha => by simp at ha⟩
  exact hl.eq_of_mem_iff hm h

/-- An ordered list of elements of another ordered list is part of it. -/
theorem sublist_of_ordered (hl : l.Pairwise fun a b => compare (key a) (key b) = .lt)
    (hm : m.Pairwise fun a b => compare (key a) (key b) = .lt) (h : l ⊆ m) : l.Sublist m := by
  classical
  have hfilter : l = m.filter fun x => x ∈ l := by
    refine eq_of_ordered hl (hm.filter _) fun x => ?_
    simpa using fun hx => h hx
  have hsublist : (m.filter fun x => x ∈ l).Sublist m := List.filter_sublist
  rwa [← hfilter] at hsublist

end Ordered

/-- Two tables with the same look-ups are the same table. -/
theorem ext_get? {s t : Table κ α} (h : ∀ k, s.get? k = t.get? k) : s = t := by
  have hmem (e : κ × α) : e ∈ s.toList ↔ e ∈ t.toList := by
    rw [← get?_eq_some_iff, ← get?_eq_some_iff, h]
  exact Table.ext (eq_of_ordered s.ordered t.ordered hmem)

/-- The table in which nothing is found has no entries. -/
theorem isEmpty_iff {t : Table κ α} : t.isEmpty = true ↔ ∀ k, t.get? k = none := by
  constructor
  · intro h k
    rw [get?, List.isEmpty_iff.mp h]
    rfl
  · intro h
    have ht : t = empty := ext_get? h
    rw [ht]
    rfl

/-- Of several entries that are stored one after the other the last one of a key is found. -/
theorem get?_insertAll [DecidableEq κ] (t : Table κ α) (entries : List (κ × α)) (k : κ) :
    (t.insertAll entries).get? k = (find k entries.reverse).or (t.get? k) := by
  induction entries generalizing t with
  | nil => rfl
  | cons e rest ih =>
    change ((t.insert e.1 e.2).insertAll rest).get? k = _
    rw [ih, get?_insert, List.reverse_cons, find_append, Option.or_assoc]
    congr 1
    by_cases hk : k = e.1
    · simp [find, hk]
    · have hne : compare k e.1 ≠ .eq := fun hc => hk (Std.LawfulEqCmp.eq_of_compare hc)
      simp [find, hk, hne]

/-- The table of a list has the last entry of each key. -/
theorem get?_ofList [DecidableEq κ] (entries : List (κ × α)) (k : κ) :
    (ofList entries).get? k = find k entries.reverse := by
  rw [ofList, get?_insertAll, get?_empty, Option.or_none]

/-- Entries of different keys are all in their table, each once. -/
theorem toList_ofList_perm [DecidableEq κ] {entries : List (κ × α)}
    (h : (entries.map Prod.fst).Nodup) : (ofList entries).toList.Perm entries := by
  have hreverse : (entries.reverse.map Prod.fst).Nodup := by
    rw [List.map_reverse]
    exact List.nodup_reverse.mpr h
  refine (List.perm_ext_iff_of_nodup (nodup_of_ordered (ofList entries).ordered).of_map
    h.of_map).mpr fun e => ?_
  rw [← get?_eq_some_iff, get?_ofList]
  exact ⟨fun he => List.mem_reverse.mp (mem_of_find he),
    fun he => find_of_mem hreverse (List.mem_reverse.mpr he)⟩

/-- Entries of different keys are all found in their table. -/
theorem get?_ofList_of_mem [DecidableEq κ] {entries : List (κ × α)} {e : κ × α}
    (h : (entries.map Prod.fst).Nodup) (he : e ∈ entries) : (ofList entries).get? e.1 = some e.2 :=
  get?_eq_some_iff.mpr ((toList_ofList_perm h).mem_iff.mpr he)

/-- A table is made of its own entries. -/
theorem ofList_toList [DecidableEq κ] (t : Table κ α) : ofList t.toList = t := by
  apply ext_get?
  intro k
  ext v
  rw [get?_eq_some_iff, get?_eq_some_iff,
    (toList_ofList_perm (nodup_of_ordered t.ordered)).mem_iff]

/-- Entries may be put in a table of their own first. -/
theorem insertAll_toList_ofList [DecidableEq κ] (t : Table κ α) (entries : List (κ × α)) :
    t.insertAll (ofList entries).toList = t.insertAll entries := by
  apply ext_get?
  intro k
  rw [get?_insertAll, get?_insertAll, ← get?_ofList, ← get?_ofList, ofList_toList]

/-- So may the entries of each part of a list. -/
theorem ofList_flatMap_toList [DecidableEq κ] {β : Type} (f : β → List (κ × α)) (l : List β) :
    (ofList (l.flatMap fun b => (ofList (f b)).toList) : Table κ α) = ofList (l.flatMap f) := by
  have hall (t : Table κ α) : t.insertAll (l.flatMap fun b => (ofList (f b)).toList) =
      t.insertAll (l.flatMap f) := by
    induction l generalizing t with
    | nil => rfl
    | cons b rest ih =>
      have happend (xs ys : List (κ × α)) : t.insertAll (xs ++ ys) = (t.insertAll xs).insertAll ys :=
        List.foldl_append
      rw [List.flatMap_cons, List.flatMap_cons, happend, happend, insertAll_toList_ofList, ih]
  exact hall empty

omit [Ord κ] [Std.LawfulEqOrd κ] [Std.TransOrd κ] in
/-- What is made of entries has some of their keys, in the same order. -/
theorem map_fst_filterMap_sublist {β : Type} (f : α → Option β) (l : List (κ × α)) :
    ((l.filterMap fun e => (f e.2).map (Prod.mk e.1)).map Prod.fst).Sublist (l.map Prod.fst) := by
  induction l with
  | nil => exact .slnil
  | cons e rest ih =>
    rw [List.filterMap_cons, List.map_cons]
    cases f e.2 with
    | none => exact ih.cons e.1
    | some b => exact ih.cons_cons e.1

/-- Look-up in the table of what is made of the entries of another table, if anything is. -/
theorem get?_ofList_filterMap [DecidableEq κ] {β : Type} (t : Table κ α) (f : α → Option β) (k : κ) :
    (ofList (t.toList.filterMap fun e => (f e.2).map (Prod.mk e.1))).get? k = (t.get? k).bind f := by
  have hkeys := (map_fst_filterMap_sublist f t.toList).nodup (nodup_of_ordered t.ordered)
  ext b
  rw [get?_eq_some_iff, (toList_ofList_perm hkeys).mem_iff, List.mem_filterMap,
    Option.bind_eq_some_iff]
  constructor
  · rintro ⟨e, he, hb⟩
    obtain ⟨b', hb', heq⟩ := Option.map_eq_some_iff.mp hb
    obtain ⟨rfl, rfl⟩ := Prod.mk.inj heq
    exact ⟨e.2, get?_eq_some_iff.mpr he, hb'⟩
  · rintro ⟨a, ha, hb⟩
    exact ⟨(k, a), get?_eq_some_iff.mp ha, by rw [hb]; rfl⟩

/-- A table has as many entries as the list it was made of exactly when the keys were different. -/
theorem nodup_iff_size_ofList [DecidableEq κ] {entries : List (κ × α)} :
    (entries.map Prod.fst).Nodup ↔ (ofList entries).size = entries.length := by
  refine ⟨fun h => (toList_ofList_perm h).length_eq, fun h => ?_⟩
  have hsubset : (ofList entries).keys ⊆ entries.map Prod.fst := by
    intro k hk
    obtain ⟨v, hv⟩ := contains_iff.mp (mem_keys_iff.mp hk)
    rw [get?_ofList] at hv
    exact List.mem_map_of_mem (List.mem_reverse.mp (mem_of_find hv))
  have hnodup : (ofList entries).keys.Nodup := nodup_of_ordered (ofList entries).ordered
  have hlength : (entries.map Prod.fst).length ≤ (ofList entries).keys.length := by
    rw [List.length_map, ← h, keys, List.length_map, size]
  exact ((List.subperm_of_subset hnodup hsubset).perm_of_length_le hlength).nodup_iff.mp hnodup

end Telemetry.Table
