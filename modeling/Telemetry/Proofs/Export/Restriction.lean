import Telemetry.Proofs.Export.Unseen
import Telemetry.Proofs.Json.Completeness

/-!
# Restricted exports

An export of everything and an export of one name in one scope go different ways: one takes all
instruments of a registry apart by name, the other looks for the instruments of the name; one goes
through all scopes, the other finds a scope by its name. Yet what is shown of a name in a scope is the
same in every document, where gauges remove nothing. So a registry contributes what its names
contribute, one after the other, and an export what its scopes contribute.
-/

namespace Telemetry

namespace Registry

variable {r : Registry} {α : Type}

/-- A name that is listed is selected alone. -/
theorem selectedNames_some {name : String} (hn : name ∈ r.names) :
    r.selectedNames (some name) = [name] := by
  apply Table.eq_of_ordered (Export.selectedNames_ordered r (some name)) (List.pairwise_singleton _ _)
  intro n
  simp only [selectedNames, List.mem_filter, Option.all_some, beq_iff_eq, List.mem_singleton]
  constructor
  · rintro ⟨-, heq⟩
    exact heq.symm
  · rintro rfl
    exact ⟨hn, rfl⟩

/-- Without a name all names are selected. -/
theorem selectedNames_none (r : Registry) : r.selectedNames none = r.names :=
  List.filter_eq_self.mpr fun _ _ => rfl

/-- What is made for all names is what is made for each of them alone. -/
theorem flatMap_selectedNames (r : Registry) (f : String → List α) :
    (r.names.flatMap fun name => (r.selectedNames (some name)).flatMap f) =
      (r.selectedNames none).flatMap f := by
  rw [selectedNames_none]
  apply List.flatMap_congr
  intro name hn
  rw [selectedNames_some hn, List.flatMap_singleton]

end Registry

namespace Export

variable {w : World} {k : RegistryKey}

namespace Selection

/-- The scope that is named, if it is one. -/
def scope? : Selection → Option Scope
  | .scope s | .metric s _ => some s
  | .all | .metricEverywhere _ => none

/-- A scope is named that is not live. -/
def Absent (w : World) (x : Selection) : Prop := ∃ s, x.scope? = some s ∧ w.scope? s = none

/-- A selection covers scopes unless it names one that is not live. -/
theorem scopes?_eq_none_iff {x : Selection} : x.scopes? w = none ↔ x.Absent w := by
  cases x with
  | all | metricEverywhere _ => simp [scopes?, Absent, scope?]
  | scope s | metric s _ => simp [scopes?, Absent, scope?]

end Selection

/-- The group of a name, if it can be read. -/
def groupOf (k : RegistryKey) (globals : List Tag) (w : World) (name : String) : List Group :=
  (readGroup k name globals ((w.registry k).instrumentsNamed name).toList w).1.toOption.toList

/-- In a calm world the groups of an export are those of the selected names. -/
theorem collectGroups_calm (hc : w.Calm) (hr : (w.registry k).Coherent) (name? : Option String)
    (globals : List Tag) :
    (collectGroups k name? globals w).1 =
      ((w.registry k).selectedNames name?).flatMap (groupOf k globals w) := by
  let entries := ((w.registry k).selected name?).toList
  let step (name : String) (w : World) : List Group × World :=
    let o := readGroup k name globals (entries.filter fun e => e.1.name == name) w
    (o.1.toOption.toList, o.2)
  have hread : (readGroups k globals entries w ((w.registry k).selectedNames name?)).1 =
      ((w.registry k).selectedNames name?).flatMap fun name => (step name w).1 :=
    World.Unseen.flatMap (g := fun names w => readGroups k globals entries w names)
      (fun name => unseen_readGroup k name globals _) (fun _ => rfl)
      (fun name rest w => congrArg Prod.fst (readGroups_cons k globals entries w name rest))
      hc (.refl w) _
  rw [collectGroups_eq, distinctNames_selected hr, hread]
  apply List.flatMap_congr
  intro name hn
  have hname : name?.all (· == name) = true := (List.mem_filter.mp hn).2
  simp only [step, entries, groupOf, filter_selected hname]

/-- In a calm world a registry has the groups of its names, one after the other. -/
theorem collectGroups_by_name (hc : w.Calm) (hr : (w.registry k).Coherent) (globals : List Tag) :
    (collectGroups k none globals w).1 =
      (w.registry k).names.flatMap fun name => (collectGroups k (some name) globals w).1 := by
  simp only [collectGroups_calm hc hr, Registry.flatMap_selectedNames]

end Export

namespace World

variable {w : World} {s : Scope} {k : RegistryKey}

/-- The scopes that are listed with their registries are live. -/
theorem mem_liveScopes : (s, k) ∈ w.liveScopes ↔ w.scope? s = some k := Table.get?_eq_some_iff.symm

/-- What is made for the names of live scopes is made for these. -/
theorem map_scopeNames {α : Type} {f : Scope → α} {g : Scope × RegistryKey → α}
    (h : ∀ s k, w.scope? s = some k → f s = g (s, k)) : w.scopeNames.map f = w.liveScopes.map g := by
  rw [scopeNames, Table.keys, List.map_map]
  apply List.map_congr_left
  intro e he
  exact h e.1 e.2 (mem_liveScopes.mp he)

end World

namespace Exposition

open Export (Selection Settings collectGroups)

variable {d : Dialect} {settings : Settings} {w : World} {s : Scope} {k : RegistryKey}
  {name? : Option String} {x : Selection}

/-- The text of the mark at the end. -/
def Dialect.ending (d : Dialect) : String := if d.endMark then "# EOF\n" else ""

/-- The text of a document before the mark at its end. -/
def body (d : Dialect) (settings : Settings) (w : World) (x : Selection) : String :=
  render d (scopeLines d settings x.name? w ((x.scopes? w).getD [])).1

/-- The text of a scope. -/
def scopeText (d : Dialect) (settings : Settings) (name? : Option String) (w : World)
    (e : Scope × RegistryKey) : String :=
  render d ((collectGroups e.2 name? settings.globalTags w).1.flatMap (groupLines d settings e.1))

/-- There is no text document exactly when a scope is named that is not live. -/
theorem document?_eq_none_iff : (document? d settings x w).1 = none ↔ x.Absent w := by
  rw [← Selection.scopes?_eq_none_iff]
  simp only [document?, documentLines?]
  cases x.scopes? w with
  | none => simp
  | some scopes => simp

/-- Otherwise the document is its text with the mark at the end. -/
theorem document?_of_not_absent (hx : ¬ x.Absent w) :
    (document? d settings x w).1 = some (body d settings w x ++ d.ending) := by
  have hending : render d (if d.endMark then [.endMark] else []) = d.ending := by
    rw [Dialect.ending]
    split <;> rfl
  obtain ⟨scopes, hscopes⟩ := Option.ne_none_iff_exists'.mp
    (hx ∘ Selection.scopes?_eq_none_iff.mp)
  simp only [document?, documentLines?, body, hscopes, Option.getD_some, Option.map_some,
    render_append, hending]

/-- Lists of lines one after the other are their texts one after the other. -/
theorem render_flatMap {α : Type} (d : Dialect) (f : α → List Line) (l : List α) :
    render d (l.flatMap f) = String.join (l.map fun a => render d (f a)) := by
  induction l with
  | nil => rfl
  | cons a rest ih => rw [List.flatMap_cons, render_append, ih, List.map_cons, String.join_cons]

/-- In a calm world scopes have their texts one after the other. -/
theorem render_scopeLines (hc : w.Calm) (scopes : List (Scope × RegistryKey)) :
    render d (scopeLines d settings name? w scopes).1 =
      String.join (scopes.map (scopeText d settings name? w)) := by
  have hlines : (scopeLines d settings name? w scopes).1 = scopes.flatMap fun e =>
      (collectGroups e.2 name? settings.globalTags w).1.flatMap (groupLines d settings e.1) :=
    World.Unseen.flatMap (g := fun scopes w => scopeLines d settings name? w scopes)
      (fun e => (Export.unseen_collectGroups e.2 name? settings.globalTags).map
        fun groups => groups.flatMap (groupLines d settings e.1))
      (fun _ => rfl) (fun _ _ _ => rfl) hc (.refl w) scopes
  rw [hlines, render_flatMap]
  rfl

/-- The text of one name in a live scope. -/
theorem body_metric (hc : w.Calm) (hs : w.scope? s = some k) (name : String) :
    body d settings w (.metric s name) = scopeText d settings (some name) w (s, k) := by
  simp [body, Selection.scopes?, Selection.name?, hs, render_scopeLines hc]

/-- The text of a live scope. -/
theorem body_scope (hc : w.Calm) (hs : w.scope? s = some k) :
    body d settings w (.scope s) = scopeText d settings none w (s, k) := by
  simp [body, Selection.scopes?, Selection.name?, hs, render_scopeLines hc]

/-- The text of a live scope is that of its names, one after the other. -/
theorem body_scope_eq_join (hc : w.Calm) (hs : w.scope? s = some k)
    (hr : (w.registry k).Coherent) :
    body d settings w (.scope s) =
      String.join ((w.registry k).names.map fun name => body d settings w (.metric s name)) := by
  simp only [body_scope hc hs, body_metric hc hs, scopeText, ← render_flatMap,
    Export.collectGroups_by_name hc hr, List.flatMap_assoc]

/-- The text of everything is that of the scopes, one after the other. -/
theorem body_all_eq_join (hc : w.Calm) :
    body d settings w .all =
      String.join (w.scopeNames.map fun s => body d settings w (.scope s)) := by
  rw [World.map_scopeNames fun s k hs => body_scope hc hs, ← render_scopeLines hc]
  rfl

/-- The text of one name is that of the name in each scope, one after the other. -/
theorem body_metricEverywhere_eq_join (hc : w.Calm) (name : String) :
    body d settings w (.metricEverywhere name) =
      String.join (w.scopeNames.map fun s => body d settings w (.metric s name)) := by
  rw [World.map_scopeNames fun s k hs => body_metric hc hs name, ← render_scopeLines hc]
  rfl

end Exposition

namespace Json

open Export (Selection Settings groupOf)

variable {c : Contribution} {w : World} {s : Scope} {k : RegistryKey} {x : Selection}

/-- The object of a selection; empty when a scope is named that is not live. -/
def objectOf (c : Contribution) (w : World) (x : Selection) : Table String Json :=
  (object? c x w).1.getD .empty

/-- There is no object exactly when a scope is named that is not live. -/
theorem object?_eq_none_iff : (object? c x w).1 = none ↔ x.Absent w := by
  rw [← Selection.scopes?_eq_none_iff]
  simp only [object?]
  cases x.scopes? w with
  | none => simp
  | some scopes => cases x <;> cases scopes <;> simp

/-- Nor is there a document of it. -/
theorem write?_eq_none_iff : (write? c x w).1 = none ↔ x.Absent w := by
  simp only [write?, Option.map_eq_none_iff]
  exact object?_eq_none_iff

/-- Otherwise the object is there. -/
theorem object?_of_not_absent (hx : ¬ x.Absent w) : (object? c x w).1 = some (objectOf c w x) := by
  obtain ⟨t, ht⟩ := Option.ne_none_iff_exists'.mp (hx ∘ object?_eq_none_iff.mp)
  rw [objectOf, ht, Option.getD_some]

/-- The object of a live scope is what its registry contributes of all names. -/
theorem objectOf_scope (hs : w.scope? s = some k) : objectOf c w (.scope s) = (c none k w).1 := by
  rw [objectOf, object?_scope c hs, Option.getD_some]

/-- The object of one name in a live scope is what its registry contributes of the name. -/
theorem objectOf_metric (hs : w.scope? s = some k) (name : String) :
    objectOf c w (.metric s name) = (c (some name) k w).1 := by
  simp [objectOf, object?, Selection.scopes?, Selection.name?, hs]

/-- What a registry contributes is made of entries for each of its names, in order. -/
def Contribution.ByName (c : Contribution) (w : World) (k : RegistryKey) : Prop :=
  ∃ entries : String → List (String × Json), ∀ name?,
    (c name? k w).1 = .ofList (((w.registry k).selectedNames name?).flatMap entries)

/-- In a calm world values are made of entries for each name. -/
theorem byName_scopeValues (hc : w.Calm) (hr : (w.registry k).Coherent) (settings : Settings) :
    Contribution.ByName (scopeValues settings) w k := by
  refine ⟨fun name => (groupOf k settings.globalTags w name).flatMap groupEntries, fun name? => ?_⟩
  simp only [scopeValues, Export.collectGroups_calm hc hr, List.flatMap_assoc]

/-- Metadata is made of an entry for each name. -/
theorem byName_scopeMetadata (w : World) (k : RegistryKey) :
    Contribution.ByName scopeMetadata w k := by
  let r := w.registry k
  refine ⟨fun name => ((r.metadataFor? name).map fun m =>
    (Name.sanitize name, ofMetadata name m r.identities)).toList, fun name? => ?_⟩
  rw [Registry.selectedNames, Registry.names, Table.keys, List.filter_map, List.flatMap_map]
  simp only [scopeMetadata, List.map_eq_flatMap]
  congr 1
  apply List.flatMap_congr
  intro e he
  have hm : r.metadataFor? e.1 = some e.2 := Table.get?_eq_some_iff.mpr (List.mem_filter.mp he).1
  rw [hm]
  rfl

/-- So a registry contributes the entries of what it contributes of each name, in order. -/
theorem Contribution.ByName.scope (h : Contribution.ByName c w k) :
    (c none k w).1 =
      .ofList ((w.registry k).names.flatMap fun name => (c (some name) k w).1.toList) := by
  obtain ⟨entries, hentries⟩ := h
  simp only [hentries]
  rw [Table.ofList_flatMap_toList, Registry.flatMap_selectedNames]

/-- What stands for a scope in the object of several scopes, if anything does. -/
def kept? (keepEmpty : Bool) (entries : Table String Json) : Option Json :=
  if keepEmpty || !entries.isEmpty then some (.ofTable entries) else none

/-- In a calm world the entries of scopes are what their registries contribute. -/
theorem scopeEntries_calm (hc : w.Calm) (hu : ∀ name? k, World.Unseen (c name? k)) (keepEmpty : Bool)
    (name? : Option String) (scopes : List (Scope × RegistryKey)) :
    (scopeEntries c keepEmpty name? w scopes).1 =
      scopes.filterMap fun e => (kept? keepEmpty (c name? e.2 w).1).map (Prod.mk e.1) := by
  rw [List.filterMap_eq_flatMap_toList]
  apply World.Unseen.flatMap
    (f := fun e w => (((kept? keepEmpty (c name? e.2 w).1).map (Prod.mk e.1)).toList,
      (c name? e.2 w).2))
    (g := fun scopes w => scopeEntries c keepEmpty name? w scopes)
    (fun e => (hu name? e.2).map fun entries => ((kept? keepEmpty entries).map (Prod.mk e.1)).toList)
    (fun _ => rfl) ?_ hc (.refl w) scopes
  intro e rest w
  simp only [scopeEntries, kept?]
  split <;> rfl

/-- What stands for a scope is what is kept of what its registry contributes. -/
theorem get?_scopeEntries (hc : w.Calm) (hu : ∀ name? k, World.Unseen (c name? k)) (keepEmpty : Bool)
    (name? : Option String) (s : Scope) :
    (Table.ofList (scopeEntries c keepEmpty name? w w.liveScopes).1).get? s =
      (w.scope? s).bind fun k => kept? keepEmpty (c name? k w).1 := by
  rw [scopeEntries_calm hc hu]
  exact Table.get?_ofList_filterMap w.scopes (fun k => kept? keepEmpty (c name? k w).1) s

/-- The object of everything has the object of each live scope. -/
theorem get?_objectOf_all (hc : w.Calm) (hu : ∀ name? k, World.Unseen (c name? k)) {j : Json} :
    (objectOf c w .all).get? s = some j ↔
      (∃ k, w.scope? s = some k) ∧ j = .ofTable (objectOf c w (.scope s)) := by
  change (Table.ofList (scopeEntries c true none w w.liveScopes).1).get? s = some j ↔ _
  rw [get?_scopeEntries hc hu, Option.bind_eq_some_iff]
  constructor
  · rintro ⟨k, hs, hj⟩
    rw [objectOf_scope hs]
    exact ⟨⟨k, hs⟩, (Option.some.inj hj).symm⟩
  · rintro ⟨⟨k, hs⟩, rfl⟩
    rw [objectOf_scope hs]
    exact ⟨k, hs, rfl⟩

/-- The object of one name has the object of the name in each live scope that has something of it. -/
theorem get?_objectOf_metricEverywhere (hc : w.Calm) (hu : ∀ name? k, World.Unseen (c name? k))
    {name : String} {j : Json} :
    (objectOf c w (.metricEverywhere name)).get? s = some j ↔
      (∃ k, w.scope? s = some k) ∧ (objectOf c w (.metric s name)).isEmpty = false ∧
        j = .ofTable (objectOf c w (.metric s name)) := by
  have hkept {t : Table String Json} :
      kept? false t = some j ↔ t.isEmpty = false ∧ j = .ofTable t := by
    rw [kept?]
    cases t.isEmpty <;> simp [eq_comm]
  change (Table.ofList (scopeEntries c false (some name) w w.liveScopes).1).get? s = some j ↔ _
  rw [get?_scopeEntries hc hu, Option.bind_eq_some_iff]
  constructor
  · rintro ⟨k, hs, hj⟩
    rw [objectOf_metric hs]
    exact ⟨⟨k, hs⟩, hkept.mp hj⟩
  · rintro ⟨⟨k, hs⟩, hj⟩
    rw [objectOf_metric hs] at hj
    exact ⟨k, hs, hkept.mpr hj⟩

end Json

namespace Export

open Exposition (Dialect body document?)
open Json (Contribution objectOf object?)

/-- Text documents of restricted selections make up those of less restricted ones; `body` is a document
before its ending. -/
structure TextsAgree (w : World) (ending : String) (document : Selection → Option String)
    (body : Selection → String) : Prop where
  absent : ∀ x, document x = none ↔ x.Absent w
  text : ∀ x, ¬ x.Absent w → document x = some (body x ++ ending)
  scope : ∀ s k, w.scope? s = some k →
    body (.scope s) = String.join ((w.registry k).names.map fun name => body (.metric s name))
  all : body .all = String.join (w.scopeNames.map fun s => body (.scope s))
  everywhere : ∀ name,
    body (.metricEverywhere name) = String.join (w.scopeNames.map fun s => body (.metric s name))

/-- JSON objects of restricted selections make up those of less restricted ones, and documents are the
texts of objects. -/
structure ObjectsAgree (w : World) (document : Selection → Option String)
    (object? : Selection → Option (Table String Json)) (object : Selection → Table String Json) :
    Prop where
  absent : ∀ x, document x = none ↔ x.Absent w
  text : ∀ x, ¬ x.Absent w → document x = some (Json.ofTable (object x)).write
  found : ∀ x, ¬ x.Absent w → object? x = some (object x)
  scope : ∀ s k, w.scope? s = some k →
    object (.scope s) =
      .ofList ((w.registry k).names.flatMap fun name => (object (.metric s name)).toList)
  all : ∀ s j, (object .all).get? s = some j ↔
    (∃ k, w.scope? s = some k) ∧ j = .ofTable (object (.scope s))
  everywhere : ∀ name s j, (object (.metricEverywhere name)).get? s = some j ↔
    (∃ k, w.scope? s = some k) ∧ (object (.metric s name)).isEmpty = false ∧
      j = .ofTable (object (.metric s name))

variable {w : World} {v : Selection → World}

/-- Text documents that are made at the same time agree. -/
theorem textsAgree (hc : w.Calm) (hr : ∀ s k, w.scope? s = some k → (w.registry k).Coherent)
    (d : Dialect) (settings : Settings) (hv : ∀ x, w.Alike (v x)) :
    TextsAgree w d.ending (fun x => (document? d settings x (v x)).1) (body d settings w) := by
  have hsame (x : Selection) :
      (document? d settings x (v x)).1 = (document? d settings x w).1 :=
    (Exposition.unseen_document? d settings x hc (hv x)).1
  simp only [hsame]
  exact
    { absent := fun x => Exposition.document?_eq_none_iff
      text := fun x hx => Exposition.document?_of_not_absent hx
      scope := fun s k hs => Exposition.body_scope_eq_join hc hs (hr s k hs)
      all := Exposition.body_all_eq_join hc
      everywhere := Exposition.body_metricEverywhere_eq_join hc }

/-- JSON objects that are made at the same time agree, where each registry contributes what its names
do. -/
theorem objectsAgree (hc : w.Calm) {c : Contribution} (hu : ∀ name? k, World.Unseen (c name? k))
    (hnames : ∀ s k, w.scope? s = some k → Contribution.ByName c w k) (hv : ∀ x, w.Alike (v x)) :
    ObjectsAgree w (fun x => (Json.write? c x (v x)).1) (fun x => (object? c x (v x)).1)
      (objectOf c w) := by
  have hwrite (x : Selection) : (Json.write? c x (v x)).1 = (Json.write? c x w).1 :=
    (Json.unseen_write? hu x hc (hv x)).1
  have hobject (x : Selection) : (object? c x (v x)).1 = (object? c x w).1 :=
    (Json.unseen_object? hu x hc (hv x)).1
  simp only [hwrite, hobject]
  exact
    { absent := fun x => Json.write?_eq_none_iff
      text := fun x hx => by simp only [Json.write?, Json.object?_of_not_absent hx, Option.map_some]
      found := fun x hx => Json.object?_of_not_absent hx
      scope := fun s k hs => by
        simp only [Json.objectOf_scope hs, Json.objectOf_metric hs, (hnames s k hs).scope]
      all := fun s j => Json.get?_objectOf_all hc hu
      everywhere := fun name s j => Json.get?_objectOf_metricEverywhere hc hu }

/-- Exports are made at one clock time, each in a world that others may have left, of live registries
that any operations led to and where gauges remove nothing. There is no document exactly of a selection
that names a scope which is not live. The text of a scope is that of its live names, in order, the text
of everything that of all live scopes, in order, and the text of a name that of the name in each of
them. The object of a scope, of values or of metadata, is made by putting in the entries of its names in
order, the object of everything has the object of each live scope, and the object of a name that of the
name in each scope where it is not empty. -/
theorem restricted_exports_agree (hc : w.Calm)
    (hr : ∀ s k, w.scope? s = some k → (w.registry k).Reachable) (settings : Settings)
    (hv : ∀ x, w.Alike (v x)) :
    (w.scopeNames.Pairwise (fun a b => compare a b = .lt) ∧
      ∀ s, s ∈ w.scopeNames ↔ ∃ k, w.scope? s = some k) ∧
    (∀ s k, w.scope? s = some k →
      (w.registry k).names.Pairwise (fun a b => compare a b = .lt) ∧
        ∀ name, name ∈ (w.registry k).names ↔
          ∃ id h, (w.registry k).instrument? id = some h ∧ id.name = name) ∧
    (∀ d : Dialect, ∃ body,
      TextsAgree w d.ending (fun x => (document? d settings x (v x)).1) body) ∧
    (∃ object, ObjectsAgree w (fun x => (Json.values? settings x (v x)).1)
      (fun x => (object? (Json.scopeValues settings) x (v x)).1) object) ∧
    ∃ object, ObjectsAgree w (fun x => (Json.metadata? x (v x)).1)
      (fun x => (object? Json.scopeMetadata x (v x)).1) object := by
  have hcoherent : ∀ s k, w.scope? s = some k → (w.registry k).Coherent :=
    fun s k hs => (hr s k hs).coherent
  refine ⟨⟨w.scopes.keys_ordered, fun s => ?_⟩, ?_, ?_, ?_, ?_⟩
  · rw [World.scopeNames, Table.mem_keys_iff, Table.contains_iff]
    rfl
  · intro s k hs
    refine ⟨(w.registry k).metadata.keys_ordered, fun name => ?_⟩
    rw [Registry.names, Table.mem_keys_iff, hcoherent s k hs, Registry.hasName_iff_instrument?]
  · intro d
    exact ⟨_, textsAgree hc hcoherent d settings hv⟩
  · exact ⟨_, objectsAgree hc (Json.unseen_scopeValues settings)
      (fun s k hs => Json.byName_scopeValues hc (hcoherent s k hs) settings) hv⟩
  · exact ⟨_, objectsAgree hc Json.unseen_scopeMetadata
      (fun s k _ => Json.byName_scopeMetadata w k) hv⟩

/-- The document of everything is that of one counter and then that of the other, also when all of them
are made after another export, and an empty scope has nothing to add. -/
theorem restricted_exports_agree_counters :
    let w := ((worldOfCounters ["load", "jobs"]).init "a").2
    let v := (document? .openMetrics .default .all w).2
    let document (x : Selection) := (document? .openMetrics .default x v).1
    w.Calm ∧ (∀ s k, w.scope? s = some k → (w.registry k).Reachable) ∧ w.Alike v ∧
      document (.metric "b" "jobs") = none ∧
      ∃ jobs load, document (.metric "s" "jobs") = some (jobs ++ "# EOF\n") ∧
        document (.metric "s" "load") = some (load ++ "# EOF\n") ∧
        document .all = some (jobs ++ load ++ "# EOF\n") := by
  intro w v document
  have hc : w.Calm := fun serial => by rfl
  have hlive : w.liveScopes = [("a", ⟨1⟩), ("s", ⟨0⟩)] := by decide +kernel
  have hr : ∀ s k, w.scope? s = some k → (w.registry k).Reachable := by
    intro s k hs
    have hmem := World.mem_liveScopes.mpr hs
    rw [hlive] at hmem
    simp only [List.mem_cons, Prod.mk.injEq, List.not_mem_nil, or_false] at hmem
    obtain ⟨rfl, rfl⟩ | ⟨rfl, rfl⟩ := hmem
    · exact Registry.Reachable.empty
    · exact (honestlyReachable_counters ["load", "jobs"]).reachable
  have hv : w.Alike v := (Exposition.unseen_document? .openMetrics .default .all hc (.refl w)).2
  obtain ⟨-, -, htexts, -, -⟩ := restricted_exports_agree hc hr .default fun _ => hv
  obtain ⟨body, h⟩ := htexts .openMetrics
  have hs : w.scope? "s" = some ⟨0⟩ := by decide +kernel
  have ha : w.scope? "a" = some ⟨1⟩ := by decide +kernel
  have hnone : (w.registry ⟨1⟩).names = [] := by decide +kernel
  have htwo : (w.registry ⟨0⟩).names = ["jobs", "load"] := by decide +kernel
  have hscopes : w.scopeNames = ["a", "s"] := by decide +kernel
  have hmetric (name : String) :
      document (.metric "s" name) = some (body (.metric "s" name) ++ "# EOF\n") := by
    apply h.text
    rintro ⟨_, hname, hdead⟩
    obtain rfl := Option.some.inj hname
    rw [hs] at hdead
    contradiction
  have hall : document .all = some (body .all ++ "# EOF\n") := by
    apply h.text
    rintro ⟨_, hname, -⟩
    contradiction
  have hbody : body .all = body (.metric "s" "jobs") ++ body (.metric "s" "load") := by
    rw [h.all, hscopes, List.map_cons, List.map_cons, h.scope "a" ⟨1⟩ ha, h.scope "s" ⟨0⟩ hs, hnone,
      htwo]
    simp
  refine ⟨hc, hr, hv, (h.absent _).mpr ⟨"b", rfl, by decide +kernel⟩, _, _, hmetric "jobs",
    hmetric "load", ?_⟩
  rw [hall, hbody]

end Export

end Telemetry
