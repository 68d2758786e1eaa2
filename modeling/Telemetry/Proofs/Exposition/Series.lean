import Telemetry.Proofs.Export.Group
import Telemetry.Proofs.Exposition.Slots

/-!
# Series

A scraper tells samples apart by their name and their set of labels. Which series an instrument is shown
under is known without reading it: a list of names, some with a quantile, that depends on the scope and
the metadata only, and labels that depend on the tags only. The samples of a group are those of its
members, in another order.
-/

namespace Telemetry.Exposition

open Export (Distribution Group Member Reading)

/-- What samples are told apart by. -/
structure Series where
  name : String
  labels : List Label
  deriving DecidableEq, Repr

/-- Two series that are one to a scraper: the order of labels and repeated labels do not count. -/
def Series.Same (a b : Series) : Prop :=
  a.name = b.name ∧ a.labels ⊆ b.labels ∧ b.labels ⊆ a.labels

instance : DecidableRel Series.Same := fun a b =>
  inferInstanceAs (Decidable (a.name = b.name ∧ a.labels ⊆ b.labels ∧ b.labels ⊆ a.labels))

/-- It does not matter which of two series is the first. -/
theorem Series.Same.symm {a b : Series} (h : a.Same b) : b.Same a :=
  ⟨h.1.symm, h.2.2, h.2.1⟩

/-- The series of a sample. -/
def Sample.series (s : Sample) : Series := ⟨s.name, s.labels⟩

section Additive

variable {α β : Type}

/-- Families of several values whose samples are those of each value, in some order. -/
def Additive (f : List α → List Family) : Prop :=
  ∀ v w, ((f (v ++ w)).flatMap (·.samples)).Perm
    ((f v).flatMap (·.samples) ++ (f w).flatMap (·.samples))

/-- Additive families one after the other are additive. -/
theorem Additive.append {f g : List α → List Family} (hf : Additive f) (hg : Additive g) :
    Additive fun v => f v ++ g v := by
  intro v w
  simp only [List.flatMap_append]
  refine ((hf v w).append (hg v w)).trans ?_
  simp only [List.append_assoc]
  exact (List.perm_append_comm_assoc _ _ _).append_left _

/-- A list of additive families is additive. -/
theorem additive_map {l : List β} {f : β → List α → Family} (h : ∀ e, Additive fun v => [f e v]) :
    Additive fun v => l.map (f · v) := by
  induction l with
  | nil => exact fun _ _ => .nil
  | cons e rest ih => exact (h e).append ih

/-- The samples of additive families are those of each value. -/
theorem Additive.perm_flatMap {f : List α → List Family} (h : Additive f) (values : List α) :
    ((f values).flatMap (·.samples)).Perm
      (values.flatMap fun x => (f [x]).flatMap (·.samples)) := by
  induction values with
  | nil =>
    have hlength := (h [] []).length_eq
    rw [List.append_nil, List.length_append] at hlength
    have hnone : (f []).flatMap (·.samples) = [] := List.eq_nil_of_length_eq_zero (by omega)
    rw [hnone]
    exact .nil
  | cons x rest ih => exact (h [x] rest).trans (ih.append_left _)

/-- A family of gauges is additive, whatever part of the values it shows. -/
theorem additive_gaugeFamily (name : String) (unit : Option String) (part : α → Float) :
    Additive fun v : List (Tags × α) => [gaugeFamily name unit (v.map fun x => (x.1, part x.2))] := by
  intro v w
  simp [gaugeFamily, Family.of]

/-- A family of counters is additive. -/
theorem additive_counterFamily (d : Dialect) (stem : String) (unit : Option String) :
    Additive fun v => [counterFamily d stem unit v] := by
  intro v w
  simp [counterFamily, Family.of]

/-- Families of rates are additive. -/
theorem additive_rateFamilies (base : String) : Additive (rateFamilies base) :=
  additive_map fun _ => additive_gaugeFamily _ _ _

/-- Families of distributions are additive. -/
theorem additive_distributionFamilies (summary stem : String) (tail unit : Option String) :
    Additive (distributionFamilies summary stem tail unit) := by
  have hsummary : Additive fun values : List (Tags × Distribution) =>
      [Family.of summary .summary unit (values.flatMap fun v => summarySamples summary v.1 v.2)] := by
    intro v w
    simp [Family.of]
  have hstatistics : Additive fun values : List (Tags × Distribution) =>
      statisticEndings.map fun e =>
        gaugeFamily (statisticName stem tail e.1) unit (values.map fun v => (v.1, e.2 v.2)) :=
    additive_map fun _ => additive_gaugeFamily _ _ _
  exact hsummary.append hstatistics

/-- Families of the members' values are additive. -/
theorem Additive.valuesOf {f : List (Tags × α) → List Family} (h : Additive f)
    (get : Reading → Option α) : Additive fun members => f (valuesOf get members) := by
  intro v w
  simp only [Exposition.valuesOf, List.filterMap_append]
  exact h _ _

/-- The families of a group are additive. -/
theorem additive_families (d : Dialect) (scope : Scope) (metadata : Metadata) :
    Additive fun members => families d scope ⟨metadata, members⟩ := by
  unfold families
  dsimp only
  split
  · exact (additive_counterFamily _ _ _).valuesOf _
  · intro v w
    simp [gaugeFamily, Family.of, Exposition.valuesOf]
  · exact ((additive_counterFamily _ _ _).valuesOf _).append ((additive_rateFamilies _).valuesOf _)
  · exact (additive_distributionFamilies _ _ _ _).valuesOf _
  · exact ((additive_distributionFamilies _ _ _ _).valuesOf _).append
      ((additive_rateFamilies _).valuesOf _)

end Additive

/-- The samples of a group. -/
def groupSamples (d : Dialect) (scope : Scope) (g : Group) : List Sample :=
  (families d scope g).flatMap (·.samples)

/-- The series of a slot for given tags. -/
def Slot.series (tags : Tags) (s : Slot) : Series :=
  ⟨s.name, tags.list.map Label.ofTag ++
    (s.quantile.map fun q => ⟨quantileKey, valueText q⟩).toList⟩

section Slots

variable {d : Dialect} {scope : Scope} {metadata : Metadata} {globals : List Tag}

/-- The only member of a group has a sample for each slot. -/
theorem series_singleton {e : Identity × Handle} {x : Member} {v : World}
    (hk : e.2.kind = metadata.kind) (hx : Member.Shows x metadata globals e v) :
    (groupSamples d scope ⟨metadata, [x]⟩).map Sample.series =
      (slots d scope metadata).map (Slot.series (e.1.tags.withDefaults globals)) := by
  obtain ⟨id, h⟩ := e
  obtain ⟨tags, reading⟩ := x
  obtain ⟨rfl, rfl⟩ := hx
  unfold groupSamples families slots
  dsimp only at hk ⊢
  rw [← hk]
  cases h <;> rfl

end Slots

section Labels

variable {tags : Tags} {s : Slot}

/-- A key in which no underscore can stand for anything is written as it is. -/
theorem eq_of_sanitizeKey_eq {s t : String} (ht : '_' ∉ t.toList) (h : Label.sanitizeKey s = t) :
    s = t := by
  have hkeep {fits : Char → Bool} {c : Char} (hc : Label.keepIf fits c ≠ '_') :
      Label.keepIf fits c = c := by
    unfold Label.keepIf at hc ⊢
    split
    · rfl
    · rename_i hfits
      exact absurd (if_neg hfits) hc
  unfold Label.sanitizeKey at h
  split at h
  · rename_i hs
    rw [← h, String.ext_iff, hs]
    rfl
  · rename_i c rest hs
    rw [← h, String.toList_ofList, List.mem_cons, not_or] at ht
    have hrest : rest.map (Label.keepIf Label.isPart) = rest := by
      conv => rhs; rw [← List.map_id rest]
      refine List.map_congr_left fun x hx => hkeep fun hx' => ht.2 ?_
      exact List.mem_map.mpr ⟨x, hx, hx'⟩
    rw [← h, hrest, hkeep (Ne.symm ht.1), ← hs, String.ofList_toList]

/-- A label with the key of quantiles comes from a tag with this key. -/
theorem tag_of_quantile_label {l : Label} (hl : l ∈ tags.list.map Label.ofTag)
    (hk : l.key = quantileKey) : tags.get? quantileKey = some l.value := by
  obtain ⟨t, ht, rfl⟩ := List.mem_map.mp hl
  obtain ⟨⟨key, value⟩, he, rfl⟩ := List.mem_map.mp ht
  obtain rfl : key = quantileKey := eq_of_sanitizeKey_eq (by decide) hk
  exact Table.get?_eq_some_iff.mpr he

/-- The labels of a series are those of the tags, and that of the quantile. -/
theorem mem_labels_series {l : Label} :
    l ∈ (s.series tags).labels ↔
      l ∈ tags.list.map Label.ofTag ∨ ∃ q, s.quantile = some q ∧ l = ⟨quantileKey, valueText q⟩ := by
  cases hq : s.quantile <;> simp [Slot.series, hq]

/-- Slots that are apart are different series, whatever the tags are: a tag cannot have the texts of
two quantiles at once. -/
theorem Slot.Apart.not_same {a b : Slot} (h : a.Apart b) (tags : Tags) :
    ¬ (a.series tags).Same (b.series tags) := by
  rintro ⟨hname, hab, hba⟩
  obtain hne | ⟨p, q, hp, hq, hne⟩ := h
  · exact hne hname
  -- The label of a quantile is not that of the other one, so it is a tag's.
  have hother {a b : Slot} {p q : Float} (hp : a.quantile = some p) (hq : b.quantile = some q)
      (hne : valueText p ≠ valueText q) (hsub : (a.series tags).labels ⊆ (b.series tags).labels) :
      tags.get? quantileKey = some (valueText p) := by
    have hmem := hsub (mem_labels_series.mpr (.inr ⟨p, hp, rfl⟩))
    obtain hl | ⟨q', hq', hl⟩ := mem_labels_series.mp hmem
    · exact tag_of_quantile_label hl rfl
    · obtain rfl := Option.some.inj (hq.symm.trans hq')
      exact absurd (congrArg Label.value hl) hne
  have hp' := hother hp hq hne hab
  have hq' := hother hq hp hne.symm hba
  exact hne (Option.some.inj (hp'.symm.trans hq'))

/-- Without a tag for quantiles, a series has the labels of another only if its tags have. -/
theorem labels_subset_of_series {a b : Slot} {ta tb : Tags} (ha : ta.get? quantileKey = none)
    (h : (a.series ta).labels ⊆ (b.series tb).labels) :
    ta.list.map Label.ofTag ⊆ tb.list.map Label.ofTag := by
  intro l hl
  obtain hl' | ⟨q, -, rfl⟩ := mem_labels_series.mp (h (mem_labels_series.mpr (.inl hl)))
  · exact hl'
  · rw [tag_of_quantile_label hl rfl] at ha
    contradiction

end Labels

end Telemetry.Exposition
