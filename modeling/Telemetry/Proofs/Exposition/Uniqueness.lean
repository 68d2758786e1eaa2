import Telemetry.Proofs.Export.Completeness
import Telemetry.Proofs.Export.Members
import Telemetry.Proofs.Exposition.Decoding
import Telemetry.Proofs.Exposition.Series
import Mathlib.Data.List.Pairwise

/-!
# Documents that show a series once

The samples of a document are those of the selected instruments, each with its own series. One
instrument never shows a series twice. So a document can only repeat a series that two instruments have
in common, which names and tags decide: names are sanitized and global tags are added, so instruments
that a registry tells apart may not be told apart by their series.

Gauges may remove names while a document is written, but register nothing then. What is shown was therefore
live when the document was begun.
-/

namespace Telemetry.Exposition

open Export (Group Member Selection Settings Showable ShownBy allMembers worldOfCounters)

/-- A live instrument with its scope and with the metadata of its name. -/
structure Source where
  scope : Scope
  id : Identity
  metadata : Metadata
  deriving DecidableEq

/-- The selected instruments of a registry whose name has metadata, in order. -/
def sourcesIn (r : Registry) (name? : Option String) (scope : Scope) : List Source :=
  (r.selected name?).toList.filterMap fun e =>
    (r.metadataFor? e.1.name).map fun metadata => ⟨scope, e.1, metadata⟩

/-- The selected instruments of several scopes, in order. -/
def sourcesOf (w : World) (name? : Option String) (scopes : List (Scope × RegistryKey)) :
    List Source :=
  scopes.flatMap fun e => sourcesIn (w.registry e.2) name? e.1

/-- The instruments that a selection covers, in order. -/
def sources (selection : Selection) (w : World) : List Source :=
  sourcesOf w selection.name? ((selection.scopes? w).getD [])

namespace Source

/-- The tags that an instrument is shown with. -/
def tags (globals : List Tag) (x : Source) : Tags := x.id.tags.withDefaults globals

/-- The name that all names of an instrument's samples continue. -/
def baseName (d : Dialect) (x : Source) : String := d.baseName x.scope x.metadata.name

/-- The series of an instrument. -/
def series (d : Dialect) (globals : List Tag) (x : Source) : List Series :=
  (slots d x.scope x.metadata).map (Slot.series (x.tags globals))

/-- Two instruments have a series in common. -/
def Clash (d : Dialect) (globals : List Tag) (x y : Source) : Prop :=
  ∃ a ∈ x.series d globals, ∃ b ∈ y.series d globals, a.Same b

instance (d : Dialect) (globals : List Tag) (x y : Source) : Decidable (x.Clash d globals y) :=
  inferInstanceAs (Decidable (∃ a ∈ x.series d globals, ∃ b ∈ y.series d globals, a.Same b))

end Source

/-- The series of a line, if it is a sample. -/
def Line.series? : Line → Option Series
  | .sample s => some s.series
  | _ => none

variable {d : Dialect} {settings : Settings} {selection : Selection} {w v : World}
  {globals : List Tag} {x y : Source}

section Instruments

/-- One instrument never has a series twice. -/
theorem series_pairwise (d : Dialect) (globals : List Tag) (x : Source) :
    (x.series d globals).Pairwise fun a b => ¬ a.Same b :=
  List.pairwise_map.mpr ((slots_apart d x.scope x.metadata).imp fun h => h.not_same _)

/-- Every instrument has a series. -/
theorem slots_ne_nil (d : Dialect) (scope : Scope) (metadata : Metadata) :
    slots d scope metadata ≠ [] := by
  unfold slots
  dsimp only
  split <;> exact List.cons_ne_nil _ _

/-- Of two instruments with a series in common the base name of one continues that of the other. -/
theorem continues_of_clash (h : x.Clash d globals y) :
    Continues (x.baseName d) (y.baseName d) ∨ Continues (y.baseName d) (x.baseName d) := by
  obtain ⟨a, ha, b, hb, hname, -, -⟩ := h
  obtain ⟨s, hs, rfl⟩ := List.mem_map.mp ha
  obtain ⟨t, ht, rfl⟩ := List.mem_map.mp hb
  have hx : Continues (x.baseName d) s.name := continues_of_mem_slots hs
  have hy : Continues (y.baseName d) t.name := continues_of_mem_slots ht
  have hsame : s.name = t.name := hname
  rw [← hsame] at hy
  exact hx.total hy

/-- Instruments of one name without tags for quantiles have a series in common exactly when their tags
become the same labels. -/
theorem clash_iff_labels (hscope : x.scope = y.scope) (hmetadata : x.metadata = y.metadata)
    (hx : (x.tags globals).get? quantileKey = none)
    (hy : (y.tags globals).get? quantileKey = none) :
    x.Clash d globals y ↔
      (x.tags globals).list.map Label.ofTag ⊆ (y.tags globals).list.map Label.ofTag ∧
      (y.tags globals).list.map Label.ofTag ⊆ (x.tags globals).list.map Label.ofTag := by
  constructor
  · rintro ⟨a, ha, b, hb, -, hab, hba⟩
    obtain ⟨s, -, rfl⟩ := List.mem_map.mp ha
    obtain ⟨t, -, rfl⟩ := List.mem_map.mp hb
    exact ⟨labels_subset_of_series hx hab, labels_subset_of_series hy hba⟩
  · rintro ⟨hxy, hyx⟩
    obtain ⟨s, hs⟩ := List.exists_mem_of_ne_nil _ (slots_ne_nil d x.scope x.metadata)
    have hs' : s ∈ slots d y.scope y.metadata := hscope ▸ hmetadata ▸ hs
    refine ⟨_, List.mem_map_of_mem hs, _, List.mem_map_of_mem hs', rfl, fun l hl => ?_, fun l hl => ?_⟩
    · exact mem_labels_series.mpr ((mem_labels_series.mp hl).imp_left fun h => hxy h)
    · exact mem_labels_series.mpr ((mem_labels_series.mp hl).imp_left fun h => hyx h)

end Instruments

section Documents

/-- The series in a family's lines. -/
theorem filterMap_series?_familyLines (d : Dialect) (help : Option String) (f : Family) :
    (familyLines d help f).filterMap Line.series? = f.samples.map Sample.series := by
  have hheader : (headerLines d help f).filterMap Line.series? = [] := by
    unfold headerLines
    cases d.helpFirst <;> cases d.declaresUnits <;> cases help <;> cases f.unit <;> rfl
  have hsamples : (f.samples.map Line.sample).filterMap Line.series? = f.samples.map Sample.series := by
    rw [List.filterMap_map, show Line.series? ∘ Line.sample = some ∘ Sample.series from rfl,
      List.filterMap_eq_map]
  rw [familyLines, List.filterMap_append, hheader, hsamples, List.nil_append]

/-- The series in a group's lines. -/
theorem filterMap_series?_groupLines (d : Dialect) (settings : Settings) (scope : Scope) (g : Group) :
    (groupLines d settings scope g).filterMap Line.series? =
      (groupSamples d scope g).map Sample.series := by
  unfold groupLines groupSamples
  dsimp only
  cases families d scope g with
  | nil => rfl
  | cons f rest =>
    rw [familiesLines, List.filterMap_append, filterMap_series?_familyLines, List.filterMap_flatMap,
      List.flatMap_cons, List.map_append, List.map_flatMap]
    simp only [filterMap_series?_familyLines]

/-- The series in a document are those of the groups that are exported. -/
theorem filterMap_series?_documentLines {lines : List Line}
    (hl : (documentLines? d settings selection w).1 = some lines) :
    ∃ scopes, selection.scopes? w = some scopes ∧
      lines.filterMap Line.series? =
        ((scopeGroups settings.globalTags selection.name? w scopes).1.flatMap
          fun e => groupSamples d e.1 e.2).map Sample.series := by
  rw [documentLines?_eq] at hl
  obtain ⟨groups, hgroups, rfl⟩ := Option.map_eq_some_iff.mp hl
  obtain ⟨scopes, hscopes, rfl⟩ := Option.map_eq_some_iff.mp hgroups
  refine ⟨scopes, hscopes, ?_⟩
  have hmark : (if d.endMark then [Line.endMark] else []).filterMap Line.series? = [] := by
    split <;> rfl
  rw [List.filterMap_append, hmark, List.append_nil, List.filterMap_flatMap, List.map_flatMap]
  simp only [filterMap_series?_groupLines]

/-- The samples of groups are those of their members, in another order. -/
theorem groupSamples_perm (d : Dialect) (scope : Scope) (groups : List Group) :
    (groups.flatMap (groupSamples d scope)).Perm
      ((allMembers groups).flatMap fun x => groupSamples d scope ⟨x.1, [x.2]⟩) := by
  simp only [allMembers, List.flatMap_assoc, List.flatMap_map]
  exact List.Perm.flatMap_left _ fun g _ =>
    (additive_families d scope g.metadata).perm_flatMap g.members

/-- Members that show instruments one by one have the series of these. -/
theorem series_of_shown {P : World → Prop} {r : Registry} {shown : List (Identity × Handle)}
    {members : List (Metadata × Member)} (d : Dialect) (scope : Scope)
    (h : List.Forall₂ (ShownBy P r globals) shown members) :
    (members.flatMap fun x => groupSamples d scope ⟨x.1, [x.2]⟩).map Sample.series =
      (shown.filterMap fun e => (r.metadataFor? e.1.name).map fun metadata =>
        (⟨scope, e.1, metadata⟩ : Source)).flatMap (Source.series d globals) := by
  induction h with
  | nil => rfl
  | @cons e x _ _ hx _ ih =>
    obtain ⟨v, hv, hshows⟩ := hx.shows
    rw [List.flatMap_cons, List.map_append, series_singleton hx.kind hshows, ih]
    simp only [List.filterMap_cons, hx.metadata, Option.map_some, List.flatMap_cons]
    rfl

/-- Whatever gauges remove, the samples of several scopes have the series of some selected instruments,
no one taken twice. -/
theorem series_of_scopes (hwv : w.Shrunk v) (d : Dialect) (globals : List Tag) (name? : Option String)
    (scopes : List (Scope × RegistryKey)) :
    ∃ shown : List Source, shown.Sublist (sourcesOf w name? scopes) ∧
      (((scopeGroups globals name? v scopes).1.flatMap fun e => groupSamples d e.1 e.2).map
        Sample.series).Perm (shown.flatMap (Source.series d globals)) := by
  induction scopes generalizing v with
  | nil => exact ⟨[], .slnil, .nil⟩
  | cons e rest ih =>
    obtain ⟨scope, k⟩ := e
    obtain ⟨hlater, here, hhere, hmembers⟩ := Export.collectGroups_shown hwv k name? globals
    obtain ⟨shown, hshown, hseries⟩ := ih hlater
    refine ⟨_, (hhere.filterMap _).append hshown, ?_⟩
    rw [List.flatMap_append, ← series_of_shown d scope hmembers]
    simp only [scopeGroups, List.flatMap_append, List.map_append, List.flatMap_map]
    exact ((groupSamples_perm d scope _).map _).append hseries

/-- The samples of scopes whose registries are showable have the series of all selected
instruments. -/
theorem series_of_showable (hwv : w.Undisturbed v) (d : Dialect) (globals : List Tag)
    {name? : Option String} {scopes : List (Scope × RegistryKey)}
    (hs : ∀ e ∈ scopes, Showable w e.2 name?) :
    (((scopeGroups globals name? v scopes).1.flatMap fun e => groupSamples d e.1 e.2).map
      Sample.series).Perm ((sourcesOf w name? scopes).flatMap (Source.series d globals)) := by
  induction scopes generalizing v with
  | nil => exact .nil
  | cons e rest ih =>
    obtain ⟨scope, k⟩ := e
    obtain ⟨hhere, hrest⟩ := List.forall_mem_cons.mp hs
    have hshow := hhere.of_undisturbed hwv
    have hmembers := hshow.forall₂_selected globals
    have hseries := ih (hwv.trans (hshow.undisturbed_collectGroups globals)) hrest
    rw [hwv.registry_eq k] at hmembers
    rw [sourcesOf, List.flatMap_cons, List.flatMap_append, sourcesIn,
      ← series_of_shown d scope hmembers]
    simp only [scopeGroups, List.flatMap_append, List.map_append, List.flatMap_map]
    exact ((groupSamples_perm d scope _).map _).append hseries

/-- The series of several instruments are all different exactly when no two instruments have one in
common. -/
theorem pairwise_series_iff {xs : List Source} :
    (xs.flatMap (Source.series d globals)).Pairwise (fun a b => ¬ a.Same b) ↔
      xs.Pairwise fun x y => ¬ x.Clash d globals y := by
  rw [List.pairwise_flatMap]
  simp only [Source.Clash, not_exists, not_and]
  exact and_iff_right fun x _ => series_pairwise d globals x

/-- The scopes of a selection are all different. -/
theorem scopes_pairwise (selection : Selection) (w : World) :
    ((selection.scopes? w).getD []).Pairwise fun a b => a.1 ≠ b.1 := by
  have hlive : w.liveScopes.Pairwise fun a b => a.1 ≠ b.1 :=
    w.scopes.ordered.imp fun {a b} hab heq => by
      rw [heq] at hab
      simp at hab
  have hone (s : Scope) :
      (((w.scope? s).map fun k => [(s, k)]).getD []).Pairwise fun a b => a.1 ≠ b.1 := by
    cases w.scope? s with
    | none => exact .nil
    | some k => exact List.pairwise_singleton _ _
  cases selection with
  | all => exact hlive
  | metricEverywhere name => exact hlive
  | scope s => exact hone s
  | metric s name => exact hone s

/-- The instruments of a selection are all different. -/
theorem nodup_sources (selection : Selection) (w : World) : (sources selection w).Nodup := by
  have hin (r : Registry) (name? : Option String) (scope : Scope) :
      (sourcesIn r name? scope).Pairwise fun x y => x.id ≠ y.id := by
    refine List.pairwise_filterMap.mpr ((r.selected name?).ordered.imp fun {a b} hab x hx y hy heq => ?_)
    obtain ⟨_, -, rfl⟩ := Option.map_eq_some_iff.mp hx
    obtain ⟨_, -, rfl⟩ := Option.map_eq_some_iff.mp hy
    rw [show a.1 = b.1 from heq] at hab
    simp at hab
  have hscope {r : Registry} {name? : Option String} {scope : Scope} {x : Source}
      (hx : x ∈ sourcesIn r name? scope) : x.scope = scope := by
    obtain ⟨e, -, he⟩ := List.mem_filterMap.mp hx
    obtain ⟨_, -, rfl⟩ := Option.map_eq_some_iff.mp he
    rfl
  refine List.pairwise_flatMap.mpr
    ⟨fun e _ => (hin _ _ _).imp fun hne heq => hne (congrArg Source.id heq), ?_⟩
  refine (scopes_pairwise selection w).imp fun hne x hx y hy heq => hne ?_
  rw [← hscope hx, ← hscope hy, heq]

/-- Instruments of a selection clash in neither order. -/
theorem pairwise_sources_iff :
    (sources selection w).Pairwise (fun x y => ¬ x.Clash d globals y) ↔
      ∀ x ∈ sources selection w, ∀ y ∈ sources selection w, x ≠ y → ¬ x.Clash d globals y := by
  have hsymm : Std.Symm fun x y : Source => ¬ x.Clash d globals y :=
    ⟨fun x y hxy ⟨a, ha, b, hb, hsame⟩ => hxy ⟨b, hb, a, ha, hsame.symm⟩⟩
  exact ⟨fun h x hx y hy hne => h.forall hx hy hne, (nodup_sources selection w).pairwise_of_forall_ne⟩

/-- Whatever is registered and whatever names gauges remove when they are read, a document shows every
series once unless two of the selected instruments have a series in common, and if its registries are
showable only then. One instrument never has a series twice. Two instruments have one in common only if the
base name of one is that of the other, or continues it after an underscore; under the same name, and without
a tag for quantiles, exactly if their tags with the global ones become the same labels. -/
theorem distinct_series (d : Dialect) (settings : Settings) (selection : Selection) (w : World)
    {lines : List Line} (hl : (documentLines? d settings selection w).1 = some lines) :
    ((∀ x ∈ sources selection w, ∀ y ∈ sources selection w, x ≠ y →
        ¬ x.Clash d settings.globalTags y) →
      (lines.filterMap Line.series?).Pairwise fun a b => ¬ a.Same b) ∧
    ((∀ e ∈ (selection.scopes? w).getD [], Showable w e.2 selection.name?) →
      (lines.filterMap Line.series?).Pairwise (fun a b => ¬ a.Same b) →
      ∀ x ∈ sources selection w, ∀ y ∈ sources selection w, x ≠ y →
        ¬ x.Clash d settings.globalTags y) ∧
    (∀ x : Source, (x.series d settings.globalTags).Pairwise fun a b => ¬ a.Same b) ∧
    (∀ x y : Source, x.Clash d settings.globalTags y →
      Continues (x.baseName d) (y.baseName d) ∨ Continues (y.baseName d) (x.baseName d)) ∧
    ∀ x y : Source, x.scope = y.scope → x.metadata = y.metadata →
      (x.tags settings.globalTags).get? quantileKey = none →
      (y.tags settings.globalTags).get? quantileKey = none →
      (x.Clash d settings.globalTags y ↔
        (x.tags settings.globalTags).list.map Label.ofTag ⊆
            (y.tags settings.globalTags).list.map Label.ofTag ∧
          (y.tags settings.globalTags).list.map Label.ofTag ⊆
            (x.tags settings.globalTags).list.map Label.ofTag) := by
  obtain ⟨scopes, hscopes, hlines⟩ := filterMap_series?_documentLines hl
  have hsources : sources selection w = sourcesOf w selection.name? scopes := by
    rw [sources, hscopes, Option.getD_some]
  refine ⟨fun hclash => ?_, fun hshowable hdistinct => ?_, series_pairwise d settings.globalTags,
    fun _ _ => continues_of_clash, fun _ _ => clash_iff_labels⟩
  · obtain ⟨shown, hshown, hseries⟩ :=
      series_of_scopes (.refl w) d settings.globalTags selection.name? scopes
    have hpairwise := pairwise_sources_iff.mpr hclash
    rw [hsources] at hpairwise
    rw [hlines, hseries.pairwise_iff (mt Series.Same.symm)]
    exact pairwise_series_iff.mpr (hpairwise.sublist hshown)
  · rw [hscopes, Option.getD_some] at hshowable
    have hseries := series_of_showable (.refl w) d settings.globalTags hshowable
    rw [hlines, hseries.pairwise_iff (mt Series.Same.symm), pairwise_series_iff, ← hsources] at hdistinct
    exact pairwise_sources_iff.mp hdistinct

/-- Two counters whose names differ in a letter have no series in common. -/
theorem distinct_series_counters :
    ∃ lines, (documentLines? .openMetrics .default .all (worldOfCounters ["a.b", "a-c"])).1 = some lines ∧
      (lines.filterMap Line.series?).Pairwise fun a b => ¬ a.Same b := by
  obtain ⟨lines, hl⟩ : ∃ lines,
      (documentLines? .openMetrics .default .all (worldOfCounters ["a.b", "a-c"])).1 = some lines :=
    ⟨_, rfl⟩
  exact ⟨lines, hl, (distinct_series .openMetrics .default .all _ hl).1 (by decide +kernel)⟩

/-- Names that become the same are two instruments to a registry, and one series in a document. -/
theorem repeats_series :
    ((worldOfCounters ["a.b", "a-b"]).registry ⟨0⟩).HonestlyReachable ∧
      ∀ d ∈ [Dialect.prometheus, Dialect.openMetrics], ∃ lines,
        (documentLines? d .default .all (worldOfCounters ["a.b", "a-b"])).1 = some lines ∧
          ¬ (lines.filterMap Line.series?).Pairwise fun a b => ¬ a.Same b := by
  refine ⟨Export.honestlyReachable_counters _, ?_⟩
  simp only [List.forall_mem_cons]
  refine ⟨⟨_, rfl, ?_⟩, ⟨_, rfl, ?_⟩, nofun⟩
  · decide +kernel
  · decide +kernel

end Documents

end Telemetry.Exposition
