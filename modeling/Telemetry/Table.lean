/-!
# Tables sorted by key

A finite map kept as its list of entries in strictly increasing key order. The order is part of
the type, so two tables with the same look-ups are the same table, and `toList` is the order in
which every listing and every document shows its entries.

Keys need a lawful total order. Look-ups walk the list; nothing here is meant for millions of
entries.
-/

namespace Telemetry

/-- A finite map with its entries in strictly increasing key order. -/
structure Table (κ α : Type) [Ord κ] where
  /-- The entries, least key first. -/
  toList : List (κ × α)
  /-- Each key is less than every later one. -/
  ordered : toList.Pairwise fun a b => compare a.1 b.1 = .lt

namespace Table

variable {κ α β : Type} [Ord κ]

/-- The table with no entries. -/
def empty : Table κ α := ⟨[], .nil⟩

instance : EmptyCollection (Table κ α) := ⟨empty⟩

instance : Inhabited (Table κ α) := ⟨empty⟩

/-- A table is determined by its entries. -/
@[ext] theorem ext {s t : Table κ α} (h : s.toList = t.toList) : s = t := by
  cases s; cases t; cases h; rfl

instance [DecidableEq κ] [DecidableEq α] : DecidableEq (Table κ α) := fun s t =>
  decidable_of_iff (s.toList = t.toList) ⟨ext, fun h => h ▸ rfl⟩

/-- The value at a key in a list of entries: that of the first entry with the key. -/
def find (k : κ) : List (κ × α) → Option α
  | [] => none
  | e :: rest => if compare k e.1 = .eq then some e.2 else find k rest

/-- The value stored at `k`, if there is one. -/
def get? (t : Table κ α) (k : κ) : Option α := find k t.toList

/-- Whether `k` has an entry. -/
def contains (t : Table κ α) (k : κ) : Bool := (t.get? k).isSome

/-- Put an entry in its place among ordered entries, replacing the one with the same key. -/
def place (k : κ) (v : α) : List (κ × α) → List (κ × α)
  | [] => [(k, v)]
  | e :: rest =>
    match compare k e.1 with
    | .lt => (k, v) :: e :: rest
    | .eq => (k, v) :: rest
    | .gt => e :: place k v rest

/-- Placing an entry brings in no other key. -/
theorem mem_place {k : κ} {v : α} {x : κ × α} {l : List (κ × α)} (h : x ∈ place k v l) :
    x = (k, v) ∨ x ∈ l := by
  induction l with
  | nil => simpa [place] using h
  | cons e rest ih =>
    simp only [place] at h
    split at h
    · simpa using h
    · rcases List.mem_cons.mp h with h | h
      · exact .inl h
      · exact .inr (List.mem_cons_of_mem _ h)
    · rcases List.mem_cons.mp h with h | h
      · exact .inr (h ▸ List.mem_cons_self)
      · exact (ih h).imp_right (List.mem_cons_of_mem _)

/-- Placing an entry keeps the order. -/
theorem place_ordered [Std.TransOrd κ] [Std.LawfulEqOrd κ] (k : κ) (v : α) {l : List (κ × α)}
    (h : l.Pairwise fun a b => compare a.1 b.1 = .lt) :
    (place k v l).Pairwise fun a b => compare a.1 b.1 = .lt := by
  induction l with
  | nil => simp [place]
  | cons e rest ih =>
    obtain ⟨he, hrest⟩ := List.pairwise_cons.mp h
    simp only [place]
    split
    · rename_i hk
      refine List.pairwise_cons.mpr ⟨fun x hx => ?_, h⟩
      rcases List.mem_cons.mp hx with rfl | hx
      · exact hk
      · exact Std.TransCmp.lt_trans hk (he x hx)
    · rename_i hk
      have hke : k = e.1 := Std.LawfulEqCmp.eq_of_compare hk
      exact List.pairwise_cons.mpr ⟨fun x hx => hke ▸ he x hx, hrest⟩
    · rename_i hk
      refine List.pairwise_cons.mpr ⟨fun x hx => ?_, ih hrest⟩
      rcases mem_place hx with rfl | hx
      · exact Std.OrientedCmp.gt_iff_lt.mp hk
      · exact he x hx

variable [Std.TransOrd κ] [Std.LawfulEqOrd κ]

/-- Store `v` at `k`, in place of any earlier value. -/
def insert (t : Table κ α) (k : κ) (v : α) : Table κ α :=
  ⟨place k v t.toList, place_ordered k v t.ordered⟩

/-- Store several entries, one after the other: the last value given for a key stays. -/
def insertAll (t : Table κ α) (entries : List (κ × α)) : Table κ α :=
  entries.foldl (fun acc e => acc.insert e.1 e.2) t

/-- The table of a list of entries, the last one of each key. -/
def ofList (entries : List (κ × α)) : Table κ α := insertAll empty entries

omit [Std.TransOrd κ] [Std.LawfulEqOrd κ]

/-- The entries that satisfy `p`. -/
def filter (t : Table κ α) (p : κ → α → Bool) : Table κ α :=
  ⟨t.toList.filter fun e => p e.1 e.2, t.ordered.filter _⟩

/-- Drop the entry at `k`. -/
def erase (t : Table κ α) (k : κ) : Table κ α := t.filter fun k' _ => compare k k' != .eq

/-- The keys, least first. -/
def keys (t : Table κ α) : List κ := t.toList.map Prod.fst

/-- The values in key order. -/
def values (t : Table κ α) : List α := t.toList.map Prod.snd

/-- The number of entries. -/
def size (t : Table κ α) : Nat := t.toList.length

/-- Whether there is no entry. -/
def isEmpty (t : Table κ α) : Bool := t.toList.isEmpty

/-- A key that was just placed is found. -/
theorem find_place_self [Std.LawfulEqOrd κ] (k : κ) (v : α) (l : List (κ × α)) :
    find k (place k v l) = some v := by
  induction l with
  | nil => simp [place, find]
  | cons e rest ih =>
    simp only [place]
    split
    · simp [find]
    · simp [find]
    · rename_i hk
      simp [find, hk, ih]

/-- Placing an entry leaves the other keys alone. -/
theorem find_place_of_ne [Std.LawfulEqOrd κ] {k k' : κ} (h : k' ≠ k) (v : α)
    (l : List (κ × α)) : find k' (place k v l) = find k' l := by
  have hne : compare k' k ≠ .eq := fun hc => h (Std.LawfulEqCmp.eq_of_compare hc)
  induction l with
  | nil => simp [place, find, hne]
  | cons e rest ih =>
    simp only [place]
    split
    · simp [find, hne]
    · rename_i hk
      have hke : k = e.1 := Std.LawfulEqCmp.eq_of_compare hk
      simp [find, hne, ← hke]
    · simp [find, ih]

/-- Look-up after `insert`. -/
theorem get?_insert [Std.TransOrd κ] [Std.LawfulEqOrd κ] [DecidableEq κ] (t : Table κ α)
    (k k' : κ) (v : α) : (t.insert k v).get? k' = if k' = k then some v else t.get? k' := by
  by_cases h : k' = k
  · subst h; simp [get?, insert, find_place_self]
  · simp [get?, insert, h, find_place_of_ne h]

/-- The empty table has no value anywhere. -/
@[simp] theorem get?_empty (k : κ) : (empty : Table κ α).get? k = none := rfl

/-- The entries of a filtered table. -/
@[simp] theorem toList_filter (t : Table κ α) (p : κ → α → Bool) :
    (t.filter p).toList = t.toList.filter fun e => p e.1 e.2 := rfl

end Table

end Telemetry
