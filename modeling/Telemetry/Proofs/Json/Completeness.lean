import Telemetry.Proofs.Export.Completeness
import Telemetry.Proofs.Export.Members
import Telemetry.Proofs.Json.Key

/-!
# What JSON objects keep

The object of a scope has one entry for each key that an instrument has, and the entry is that of the
last instrument with this key, in the order of identities. So nothing is lost exactly where keys differ.
The same holds of metadata and names.
-/

namespace Telemetry.Json

open Export (Settings Selection Showable ShownBy allMembers readInstrument withCounters worldOfCounters)
open Registry (HonestlyReachable Registration)

/-- An entry is that of an instrument: its key is made of the name and all tags, and its value is what
the instrument reads. -/
structure EntryOf (w : World) (r : Registry) (globals : List Tag) (e : Identity × Handle)
    (x : String × Json) : Prop where
  exists_metadata : ∃ m, r.metadataFor? e.1.name = some m ∧
    x.1 = key m.name (e.1.tags.withDefaults globals).list ∧
    x.2 = ofReading (readInstrument w m.unit e.2).1

/-- The entries of selected instruments that have metadata, in the order of identities. -/
def valueEntries (w : World) (r : Registry) (name? : Option String) (globals : List Tag) :
    List (String × Json) :=
  (r.selected name?).toList.filterMap fun e => (r.metadataFor? e.1.name).map fun m =>
    (key m.name (e.1.tags.withDefaults globals).list, ofReading (readInstrument w m.unit e.2).1)

/-- The entries of the metadata of a registry, in the order of names. -/
def metadataEntries (r : Registry) : List (String × Json) :=
  r.metadata.toList.map fun e => (Name.sanitize e.1, ofMetadata e.1 e.2 r.identities)

variable {w : World} {k : RegistryKey} {s : Scope} {name? : Option String}

/-- The entries of groups are those of their members, one by one. -/
theorem flatMap_groupEntries (groups : List Export.Group) :
    groups.flatMap groupEntries =
      (allMembers groups).map fun x => (key x.1.name x.2.tags.list, ofReading x.2.reading) := by
  simp only [allMembers, List.map_flatMap, List.map_map]
  rfl

/-- Members that show instruments have the entries of these. -/
theorem map_of_shown {r : Registry} {globals : List Tag} {shown : List (Identity × Handle)}
    {members : List (Metadata × Export.Member)}
    (h : List.Forall₂ (ShownBy (· = w) r globals) shown members) :
    (members.map fun x => (key x.1.name x.2.tags.list, ofReading x.2.reading)) =
      shown.filterMap fun e => (r.metadataFor? e.1.name).map fun m =>
        (key m.name (e.1.tags.withDefaults globals).list,
          ofReading (readInstrument w m.unit e.2).1) := by
  induction h with
  | nil => rfl
  | cons hx _ ih =>
    obtain ⟨v, rfl, htags, hreading⟩ := hx.shows
    simp only [List.map_cons, List.filterMap_cons, hx.metadata, Option.map_some, htags, hreading, ih]

/-- The values of a showable registry are the entries of the selected instruments. -/
theorem scopeValues_of_showable (hs : Showable w k name?) (settings : Settings) :
    (scopeValues settings name? k w).1 =
      .ofList (valueEntries w (w.registry k) name? settings.globalTags) := by
  simp only [scopeValues, flatMap_groupEntries, map_of_shown (hs.forall₂_selected _)]
  rfl

/-- Every live instrument has an entry. -/
theorem entryOf_valueEntries (hc : (w.registry k).Coherent) (globals : List Tag) :
    List.Forall₂ (EntryOf w (w.registry k) globals) (w.registry k).instruments.toList
      (valueEntries w (w.registry k) none globals) := by
  rw [valueEntries, Export.toList_selected_none]
  refine Related.forall₂_filterMap fun e he => ?_
  have hl : (w.registry k).instrument? e.1 = some e.2 := Table.get?_eq_some_iff.mpr he
  obtain ⟨m, hm⟩ := hc.hasName_iff_metadataFor?.mp (Registry.hasName_of_instrument? hl)
  have hentry := congrArg (Option.map fun m : Metadata =>
    (key m.name (e.1.tags.withDefaults globals).list, ofReading (readInstrument w m.unit e.2).1)) hm
  exact ⟨_, hentry, m, hm, rfl, rfl⟩

/-- The metadata of a registry are the entries of its names, stored in order. -/
theorem scopeMetadata_all (k : RegistryKey) (w : World) :
    (scopeMetadata none k w).1 = .ofList (metadataEntries (w.registry k)) := by
  have hall : (w.registry k).metadata.toList.filter
      (fun e => (none : Option String).all (· == e.1)) = (w.registry k).metadata.toList :=
    List.filter_eq_self.mpr fun _ _ => rfl
  simp only [scopeMetadata, hall]
  rfl

/-- The object of a live scope is what its registry contributes. -/
theorem object?_scope (contribution : Contribution) (hs : w.scope? s = some k) :
    (object? contribution (.scope s) w).1 = some (contribution none k w).1 := by
  simp [object?, Selection.scopes?, hs, Selection.name?]

/-- The metadata of a name lists the tags of each instrument of the name. -/
theorem tags_ofMetadata (r : Registry) (name : String) (m : Metadata) :
    ∃ fields : Table String Json, ofMetadata name m r.identities = .ofTable fields ∧
      fields.get? "tags" = some (.list ((r.instrumentsNamed name).keys.map tagTexts)) := by
  have hids : r.identities.filter (·.name == name) = (r.instrumentsNamed name).keys := by
    rw [Registry.identities, Table.keys, List.filter_map]
    rfl
  refine ⟨_, rfl, ?_⟩
  rw [hids, Table.get?_ofList]
  simp [Table.find]

/-- No key of a live instrument is left out of the object of a scope, nor any live name out of its
metadata, and nothing else is in them. Of several instruments with one key the last one, in the order of
identities, gives the value; of several names that are sanitized to the same, the last one gives the
metadata. So where keys differ there is exactly one entry for each live instrument, and where sanitized
names differ exactly one for each live name; it lists the tags of every instrument of the name. Keys are
the same exactly when the sanitized names are and the tags with the global ones are, up to semicolons in
values, as long as no tag key has a semicolon or an equals sign. -/
theorem scope_objects (hs : w.scope? s = some k) (hr : (w.registry k).Reachable)
    (hkind : ∀ {id h m}, (w.registry k).instrument? id = some h →
      (w.registry k).metadataFor? id.name = some m → h.kind = m.kind)
    (hh : ∀ {id h}, (w.registry k).instrument? id = some h → w.Harmless h) (settings : Settings) :
    (∃ values, (object? (scopeValues settings) (.scope s) w).1 = some values ∧
      let entries := valueEntries w (w.registry k) none settings.globalTags
      List.Forall₂ (EntryOf w (w.registry k) settings.globalTags)
        (w.registry k).instruments.toList entries ∧
      (∀ x, values.get? x = Table.find x entries.reverse) ∧
      ((entries.map Prod.fst).Nodup → values.toList.Perm entries) ∧
      ((entries.map Prod.fst).Nodup ↔ values.size = (w.registry k).instruments.size)) ∧
    (∃ names, (object? scopeMetadata (.scope s) w).1 = some names ∧
      (∀ name, name ∈ (w.registry k).names ↔
        ∃ id h, (w.registry k).instrument? id = some h ∧ id.name = name) ∧
      (∀ x, names.get? x = Table.find x (metadataEntries (w.registry k)).reverse) ∧
      (((w.registry k).names.map Name.sanitize).Nodup →
        names.toList.Perm (metadataEntries (w.registry k))) ∧
      (((w.registry k).names.map Name.sanitize).Nodup ↔
        names.size = (w.registry k).names.length)) ∧
    (∀ name m, ∃ fields : Table String Json,
      ofMetadata name m (w.registry k).identities = .ofTable fields ∧
        fields.get? "tags" = some (.list (((w.registry k).instrumentsNamed name).keys.map tagTexts))) ∧
    ∀ n m ts us, (∀ t ∈ ts, SeparableTag t) → (∀ t ∈ us, SeparableTag t) →
      (key n ts = key m us ↔ Name.sanitize n = Name.sanitize m ∧ ts.map keyTag = us.map keyTag) := by
  have hc : (w.registry k).Coherent := hr.coherent
  have hshowable : Showable w k none := ⟨hc, hkind, fun hl _ => hh hl⟩
  refine ⟨?_, ?_, tags_ofMetadata _, fun _ _ _ _ => key_eq_iff⟩
  · have hvalues := scopeValues_of_showable hshowable settings
    have hentries := entryOf_valueEntries hc settings.globalTags
    refine ⟨_, (object?_scope _ hs).trans (congrArg some hvalues), hentries, Table.get?_ofList _,
      Table.toList_ofList_perm, ?_⟩
    rw [Table.nodup_iff_size_ofList, ← hentries.length_eq]
    rfl
  · have hlive (name : String) : name ∈ (w.registry k).names ↔
        ∃ id h, (w.registry k).instrument? id = some h ∧ id.name = name := by
      rw [Registry.names, Table.mem_keys_iff, hc name, Registry.hasName_iff_instrument?]
    have hkeys : (w.registry k).names.map Name.sanitize =
        (metadataEntries (w.registry k)).map Prod.fst := by
      rw [Registry.names, Table.keys, metadataEntries, List.map_map, List.map_map]
      rfl
    have hlength : (w.registry k).names.length = (metadataEntries (w.registry k)).length := by
      rw [Registry.names, Table.keys, metadataEntries, List.length_map, List.length_map]
    refine ⟨_, (object?_scope _ hs).trans (congrArg some (scopeMetadata_all k w)), hlive,
      Table.get?_ofList _, ?_, ?_⟩
    · rw [hkeys]
      exact Table.toList_ofList_perm
    · rw [hkeys, hlength]
      exact Table.nodup_iff_size_ofList

/-- Two counters whose names differ in a letter make two entries. -/
theorem scope_objects_counters :
    let w := worldOfCounters ["a.b", "a-c"]
    ∃ values, (object? (scopeValues .default) (.scope "s") w).1 = some values ∧ values.size = 2 := by
  intro w
  have hr := Export.honestlyReachable_counters ["a.b", "a-c"]
  obtain ⟨⟨values, hvalues, -, -, -, hsize⟩, -⟩ :=
    scope_objects (s := "s") (k := ⟨0⟩) (w := w) (by decide +kernel) hr.reachable hr.agreeing.kind_eq
      (fun _ _ _ => rfl) .default
  refine ⟨values, hvalues, ?_⟩
  exact (hsize.mp (by decide +kernel)).trans (by decide +kernel)

/-- A world whose only scope has a gauge and a counter, which the gauge removes when it is read. -/
def worldOfRemover : World :=
  let w := (((World.start 1).init "s").2.create (.gauge ⟨0, some ⟨⟨0⟩, "b"⟩⟩)).2
  withCounters (w.registering ⟨0⟩ (Registration.registerGauge (.name "a") [] 0).run).2 ["b"]

/-- Its registry is one that honest operations led to. -/
theorem honestlyReachable_worldOfRemover : (worldOfRemover.registry ⟨0⟩).HonestlyReachable := by
  let w := (((World.start 1).init "s").2.create (.gauge ⟨0, some ⟨⟨0⟩, "b"⟩⟩)).2
  have hempty : (w.registry ⟨0⟩).HonestlyReachable := .empty
  have hgauge : (Registration.registerGauge (.name "a") [] 0 : Registration Store).Honest := trivial
  exact Export.honestlyReachable_withCounters (Export.honestlyReachable_registering hempty hgauge) _

/-- Names that are sanitized to the same share one entry, of values as of metadata; and what a gauge
removes while it is read has none. -/
theorem loses_instruments :
    let w := worldOfCounters ["a.b", "a-b"]
    let v := worldOfRemover
    ((w.registry ⟨0⟩).HonestlyReachable ∧ (w.registry ⟨0⟩).identities.length = 2 ∧
      (w.registry ⟨0⟩).names.length = 2 ∧
      (object? (scopeValues .default) (.scope "s") w).1.map Table.size = some 1 ∧
      (object? scopeMetadata (.scope "s") w).1.map Table.size = some 1) ∧
    (v.registry ⟨0⟩).HonestlyReachable ∧ (v.registry ⟨0⟩).identities.length = 2 ∧
      (object? (scopeValues .default) (.scope "s") v).1.map Table.size = some 1 := by
  refine ⟨⟨Export.honestlyReachable_counters _, ?_, ?_, ?_, ?_⟩, ?_, ?_, ?_⟩
  · decide +kernel
  · decide +kernel
  · decide +kernel
  · decide +kernel
  · exact honestlyReachable_worldOfRemover
  · decide +kernel
  · decide +kernel

end Telemetry.Json
