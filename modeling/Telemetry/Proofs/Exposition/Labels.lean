import Telemetry.Proofs.Exposition.Shown
import Telemetry.Proofs.Exposition.Uniqueness

/-!
# The keys of labels

A tag key becomes the key of a label character by character: what does not fit becomes an underscore. So
every label has a key by the grammar, and a key that is one already is kept, but keys that differ in
characters that do not fit become one. A quantile is one more label, whatever the tags are.
-/

namespace Telemetry

namespace Label

/-- Two characters that are written alike where only some fit: they are the same, or both are written as
an underscore. -/
def Blurred (fits : Char → Bool) (c d : Char) : Prop :=
  c = d ∨ (fits c = true → c = '_') ∧ (fits d = true → d = '_')

/-- Two tag keys that are written alike: of one length, with characters that are written alike at each
place. -/
def Confused (a b : String) : Prop :=
  match a.toList, b.toList with
  | [], [] => True
  | c :: cs, d :: ds => Blurred isStart c d ∧ List.Forall₂ (Blurred isPart) cs ds
  | _, _ => False

variable {fits : Char → Bool} {c d : Char} {a b s : String}

/-- A character is written as an underscore unless it fits and is another one. -/
theorem keepIf_eq_underscore_iff : keepIf fits c = '_' ↔ (fits c = true → c = '_') := by
  unfold keepIf
  split
  · rename_i h
    simp [h]
  · rename_i h
    simp [h]

/-- A character is kept, or becomes an underscore. -/
theorem keepIf_eq (fits : Char → Bool) (c : Char) : keepIf fits c = c ∨ keepIf fits c = '_' := by
  unfold keepIf
  split
  · exact .inl rfl
  · exact .inr rfl

/-- Characters are written alike when they are the same or both become underscores. -/
theorem keepIf_eq_keepIf_iff : keepIf fits c = keepIf fits d ↔ Blurred fits c d := by
  rw [Blurred, ← keepIf_eq_underscore_iff, ← keepIf_eq_underscore_iff]
  constructor
  · intro h
    obtain hc | hc := keepIf_eq fits c
    · obtain hd | hd := keepIf_eq fits d
      · exact .inl (hc.symm.trans (h.trans hd))
      · exact .inr ⟨h.trans hd, hd⟩
    · exact .inr ⟨hc, h.symm.trans hc⟩
  · rintro (rfl | ⟨hc, hd⟩)
    · rfl
    · exact hc.trans hd.symm

/-- Keys are written alike exactly when they are confused. -/
theorem sanitizeKey_eq_iff : sanitizeKey a = sanitizeKey b ↔ Confused a b := by
  have hrest (cs ds : List Char) : cs.map (keepIf isPart) = ds.map (keepIf isPart) ↔
      List.Forall₂ (Blurred isPart) cs ds := by
    rw [← List.forall₂_eq_eq_eq, List.forall₂_map_left_iff, List.forall₂_map_right_iff]
    simp only [keepIf_eq_keepIf_iff]
  unfold sanitizeKey Confused
  cases a.toList with
  | nil =>
    cases b.toList with
    | nil => simp
    | cons d ds => simp
  | cons c cs =>
    cases b.toList with
    | nil => simp
    | cons d ds => rw [String.ofList_inj, List.cons.injEq, keepIf_eq_keepIf_iff, hrest]

/-- A character that is kept only if it fits does fit, if an underscore does. -/
theorem fits_keepIf (h : fits '_' = true) (c : Char) : fits (keepIf fits c) = true := by
  unfold keepIf
  split
  · assumption
  · exact h

/-- A tag key that has a character becomes a key. -/
theorem isKey_sanitizeKey (h : s ≠ "") : isKey (sanitizeKey s) = true := by
  unfold sanitizeKey
  cases hs : s.toList with
  | nil => exact absurd (String.toList_eq_nil_iff.mp hs) h
  | cons c rest =>
    have hrest : ∀ x ∈ rest.map (keepIf isPart), isPart x = true :=
      List.forall_mem_map.mpr fun x _ => fits_keepIf rfl x
    simp only [isKey, String.toList_ofList, Bool.and_eq_true, List.all_eq_true]
    exact ⟨fits_keepIf rfl c, hrest⟩

end Label

namespace Exposition

open Export (Group Selection Settings)

/-- The keys of a sample's labels, in order. -/
def Sample.labelKeys (s : Sample) : List String := s.labels.map (·.key)

section Samples

variable {s : Sample}

/-- The tags of a list are all different. -/
theorem nodup_tags (tags : Tags) : tags.list.Nodup := by
  have hkeys := Table.nodup_of_ordered tags.ordered
  exact hkeys.of_map.map fun x y h => Prod.ext (congrArg Tag.key h) (congrArg Tag.value h)

/-- The labels of a sample have keys, but for those of tags whose key is empty. -/
theorem isKey_of_mem_labels {l : Label} (hl : l ∈ s.labels) :
    Label.isKey l.key = true ∨ ∃ t ∈ s.tags.list, t.key = "" ∧ l = Label.ofTag t := by
  rcases List.mem_append.mp hl with hl | hl
  · obtain ⟨t, ht, rfl⟩ := List.mem_map.mp hl
    by_cases hkey : t.key = ""
    · exact .inr ⟨t, ht, hkey, rfl⟩
    · exact .inl (Label.isKey_sanitizeKey hkey)
  · obtain ⟨q, -, rfl⟩ := Option.map_eq_some_iff.mp (Option.mem_toList.mp hl)
    have hkey : Label.isKey quantileKey = true := by decide
    exact .inl hkey

/-- The keys of a sample's labels are all different exactly when no two of its tags are confused, and no
tag has the key of quantiles beside a quantile. -/
theorem nodup_labelKeys_iff :
    s.labelKeys.Nodup ↔
      (∀ a ∈ s.tags.list, ∀ b ∈ s.tags.list, Label.Confused a.key b.key → a = b) ∧
      (s.quantile.isSome = true → ∀ t ∈ s.tags.list, t.key ≠ quantileKey) := by
  have hkeys : s.labelKeys = s.tags.list.map (fun t => Label.sanitizeKey t.key) ++
      (s.quantile.map fun _ => quantileKey).toList := by
    rw [Sample.labelKeys, Sample.labels, List.map_append, List.map_map]
    cases s.quantile <;> rfl
  have hone : (s.quantile.map fun _ => quantileKey).toList.Nodup := by
    cases s.quantile <;> simp
  have hquantile (t : Tag) : Label.sanitizeKey t.key = quantileKey ↔ t.key = quantileKey := by
    constructor
    · exact eq_of_sanitizeKey_eq (by decide)
    · intro h
      have hkey : Label.isKey quantileKey = true := by decide
      rw [h, Label.sanitizeKey_eq_self hkey]
  rw [hkeys, List.nodup_append, List.nodup_map_iff_inj_on (nodup_tags s.tags), and_iff_right hone]
  simp only [Label.sanitizeKey_eq_iff, List.forall_mem_map]
  cases s.quantile with
  | none => simp
  | some q => simp [hquantile]

end Samples

section Documents

variable {d : Dialect} {settings : Settings} {selection : Selection} {w : World} {lines : List Line}
  {s : Sample}

/-- Each sample of a document is that of a live instrument of a selected scope, with its tags and the
global ones. -/
theorem instrument_of_mem_lines (hl : (documentLines? d settings selection w).1 = some lines)
    (hs : .sample s ∈ lines) :
    ∃ e ∈ (selection.scopes? w).getD [], ∃ id h, (w.registry e.2).instrument? id = some h ∧
      s.tags = id.tags.withDefaults settings.globalTags := by
  obtain ⟨groups, hgroups⟩ := exists_exportedGroups hl
  obtain ⟨e, he, hs⟩ := (mem_samples_iff hgroups hl).mp hs
  obtain ⟨k, u, -, -, hg⟩ := collected_of_mem_exportedGroups hgroups he
  obtain ⟨x, hx, htags⟩ := tags_of_mem_groupSamples hg hs
  obtain ⟨k, id, h, hk, hlive, -, hdefaults⟩ := instrument_of_mem_members hgroups he hx
  exact ⟨(e.1, k), hk, id, h, hlive, htags.trans hdefaults⟩

/-- The labels of each sample of a document are those of the tags of a live instrument with the global
ones, and one for the quantile, if it has one. Their keys are by the grammar, but for tags whose key is
empty, and a tag key that is by the grammar is kept. They are all different exactly when no two of the
tags are confused, and no tag has the key of quantiles beside a quantile. -/
theorem label_keys (hl : (documentLines? d settings selection w).1 = some lines)
    (hs : .sample s ∈ lines) :
    (∃ e ∈ (selection.scopes? w).getD [], ∃ id h, (w.registry e.2).instrument? id = some h ∧
      s.tags = id.tags.withDefaults settings.globalTags) ∧
    (∀ l ∈ s.labels, Label.isKey l.key = true ∨ ∃ t ∈ s.tags.list, t.key = "" ∧ l = Label.ofTag t) ∧
    (∀ t ∈ s.tags.list, Label.isKey t.key = true → ⟨t.key, t.value⟩ ∈ s.labels) ∧
    (s.labelKeys.Nodup ↔
      (∀ a ∈ s.tags.list, ∀ b ∈ s.tags.list, Label.Confused a.key b.key → a = b) ∧
      (s.quantile.isSome = true → ∀ t ∈ s.tags.list, t.key ≠ quantileKey)) := by
  refine ⟨instrument_of_mem_lines hl hs, fun l hl => isKey_of_mem_labels hl, fun t ht hkey => ?_,
    nodup_labelKeys_iff⟩
  have hlabel : Label.ofTag t = ⟨t.key, t.value⟩ := by
    rw [Label.ofTag, Label.sanitizeKey_eq_self hkey]
  rw [← hlabel]
  exact List.mem_append_left _ (List.mem_map_of_mem ht)

/-- A world whose only instrument is a timer with the given tags. -/
def worldOfTimer (tags : List Tag) : World :=
  let w := ((World.start 1).init "s").2
  (w.registering ⟨0⟩ (Export.timerOf w "jobs" tags).run).2

/-- A sample of a document with the given keys. -/
theorem exists_sample_of_series {keys : List String}
    (h : ∃ x ∈ lines.filterMap Line.series?, x.labels.map (·.key) = keys) :
    ∃ s, .sample s ∈ lines ∧ s.labelKeys = keys := by
  obtain ⟨x, hx, hkeys⟩ := h
  obtain ⟨l, hl, hseries⟩ := List.mem_filterMap.mp hx
  cases l with
  | sample s =>
    obtain rfl := Option.some.inj hseries
    exact ⟨s, hl, hkeys⟩
  | _ => contradiction

/-- A dash becomes an underscore, and the label of a quantile comes last. -/
theorem label_keys_timer :
    ∃ lines s,
      (documentLines? .prometheus .default .all (worldOfTimer [⟨"job-id", "1"⟩])).1 = some lines ∧
      .sample s ∈ lines ∧ s.labelKeys = ["job_id", "quantile"] ∧
      (∀ l ∈ s.labels, Label.isKey l.key = true ∨ ∃ t ∈ s.tags.list, t.key = "" ∧ l = Label.ofTag t) ∧
      ∀ a ∈ s.tags.list, ∀ b ∈ s.tags.list, Label.Confused a.key b.key → a = b := by
  obtain ⟨lines, hl, hseries⟩ : ∃ lines,
      (documentLines? .prometheus .default .all (worldOfTimer [⟨"job-id", "1"⟩])).1 = some lines ∧
        ∃ x ∈ lines.filterMap Line.series?, x.labels.map (·.key) = ["job_id", "quantile"] :=
    ⟨_, rfl, by decide +kernel⟩
  obtain ⟨s, hs, hkeys⟩ := exists_sample_of_series hseries
  obtain ⟨-, hvalid, -, hdistinct⟩ := label_keys hl hs
  have hnodup : s.labelKeys.Nodup := by
    rw [hkeys]
    decide
  exact ⟨lines, s, hl, hs, hkeys, hvalid, (hdistinct.mp hnodup).1⟩

/-- Tags that a registry tells apart can have labels with one key, and so can a quantile and a tag. -/
theorem label_keys_repeated :
    (∃ lines, (documentLines? .prometheus .default .all
        (worldOfTimer [⟨"a-b", "1"⟩, ⟨"a.b", "2"⟩])).1 = some lines ∧
      ∃ s, .sample s ∈ lines ∧ s.labelKeys = ["a_b", "a_b"]) ∧
    ∃ lines, (documentLines? .openMetrics .default .all
        (worldOfTimer [⟨"quantile", "1"⟩])).1 = some lines ∧
      ∃ s, .sample s ∈ lines ∧ s.labelKeys = ["quantile", "quantile"] := by
  refine ⟨⟨_, rfl, ?_⟩, ⟨_, rfl, ?_⟩⟩
  · exact exists_sample_of_series (by decide +kernel)
  · exact exists_sample_of_series (by decide +kernel)

end Documents

end Exposition

end Telemetry
