import Telemetry.Http.Service
import Telemetry.Proofs.Export.Group

/-!
# Exports of related worlds

An export goes through registries, names and instruments, and the worlds that it goes through change on
the way. Two exports are compared here that start from related worlds: as long as what they look at is
related, and reading related instruments keeps the worlds related, each part of one export is answered
like the same part of the other. What the relation is does not matter: whether exports are seen, and
whether they see what is done elsewhere, are questions about one relation or another.
-/

namespace Telemetry

namespace World

/-- Two steps that have related answers in related worlds, and lead to related worlds. -/
def Along (R : World → World → Prop) {α β : Type} (A : α → β → Prop) (f : World → α × World)
    (g : World → β × World) : Prop :=
  ∀ ⦃w v⦄, R w v → A (f w).1 (g v).1 ∧ R (f w).2 (g v).2

/-- A relation of worlds that exports carry along: the same scopes are live, their registries have
related metadata of the same names and related instruments of the same identities, and related
instruments are read alike and leave the worlds related. -/
structure Carries (R : World → World → Prop) (M : Metadata → Metadata → Prop)
    (H : Handle → Handle → Prop) (L : RegistryKey → Prop) : Prop where
  scopes : ∀ ⦃w v⦄, R w v → v.scopes = w.scopes
  live : ∀ ⦃w v⦄, R w v → ∀ s k, w.scope? s = some k → L k
  metadata : ∀ ⦃w v⦄, R w v → ∀ k, L k → ∀ name,
    Option.Rel M ((w.registry k).metadataFor? name) ((v.registry k).metadataFor? name)
  instruments : ∀ ⦃w v⦄, R w v → ∀ k, L k → ∀ id,
    Option.Rel H ((w.registry k).instrument? id) ((v.registry k).instrument? id)
  kind_metadata : ∀ ⦃m m'⦄, M m m' → m'.kind = m.kind
  kind_handle : ∀ ⦃h h'⦄, H h h' → h'.kind = h.kind
  read : ∀ ⦃m m' h h'⦄, M m m' → H h h' →
    Along R Eq (Export.readInstrument · m.unit h) (Export.readInstrument · m'.unit h')

section Along

variable {R : World → World → Prop} {α β γ δ : Type} {A : α → β → Prop} {B : γ → δ → Prop}
  {f : World → α × World} {g : World → β × World}

/-- Answers that hang on nothing. -/
theorem Along.pure {a : α} {b : β} (h : A a b) : Along R A (fun w => (a, w)) (fun w => (b, w)) :=
  fun _ _ hR => ⟨h, hR⟩

/-- One step after the other. -/
theorem Along.bind {F : α → World → γ × World} {G : β → World → δ × World} (h : Along R A f g)
    (hnext : ∀ a b, A a b → Along R B (F a) (G b)) :
    Along R B (fun w => F (f w).1 (f w).2) (fun w => G (g w).1 (g w).2) := by
  intro w v hR
  obtain ⟨hanswer, hlater⟩ := h hR
  exact hnext _ _ hanswer hlater

/-- What is answered may be put differently. -/
theorem Along.map {F : α → γ} {G : β → δ} (h : Along R A f g)
    (hput : ∀ a b, A a b → B (F a) (G b)) :
    Along R B (fun w => (F (f w).1, (f w).2)) (fun w => (G (g w).1, (g w).2)) :=
  h.bind fun a b hab => .pure (hput a b hab)

/-- Equal answers put in one way are equal. -/
theorem Along.congr {f g : World → α × World} (h : Along R Eq f g) (F : α → γ) :
    Along R Eq (fun w => (F (f w).1, (f w).2)) (fun w => (F (g w).1, (g w).2)) :=
  h.map fun _ _ hab => congrArg F hab

/-- One step after another that has equal answers. -/
theorem Along.next {f g : World → α × World} {F : α → World → γ × World} {G : α → World → δ × World}
    (h : Along R Eq f g) (hnext : ∀ a, Along R B (F a) (G a)) :
    Along R B (fun w => F (f w).1 (f w).2) (fun w => G (g w).1 (g w).2) :=
  h.bind fun a _ hab => hab ▸ hnext a

/-- Steps that are the same as two others. -/
theorem Along.of_eq {f' : World → α × World} {g' : World → β × World} (h : Along R A f' g')
    (hf : ∀ w, f w = f' w) (hg : ∀ w, g w = g' w) : Along R A f g := by
  rwa [funext hf, funext hg]

end Along

end World

namespace Export

open World (Along Carries)

/-- Groups under related metadata with the same members. -/
structure Group.Rel (M : Metadata → Metadata → Prop) (g g' : Group) : Prop where
  metadata : M g.metadata g'.metadata
  members : g'.members = g.members

/-- Under the same metadata they are the same. -/
theorem Group.Rel.eq {g g' : Group} (h : Group.Rel Eq g g') : g = g' := by
  obtain ⟨hmetadata, hmembers⟩ := h
  cases g
  cases g'
  simp only at hmetadata hmembers
  rw [hmetadata, hmembers]

/-- Entries of the same identity with related instruments. -/
structure SameEntry (H : Handle → Handle → Prop) (e e' : Identity × Handle) : Prop where
  id : e'.1 = e.1
  handle : H e.2 e'.2

section Tables

variable {H : Handle → Handle → Prop} {t t' : Table Identity Handle}

/-- Tables that have related instruments of the same identities list the same identities. -/
theorem keys_of_rel (h : ∀ id, Option.Rel H (t.get? id) (t'.get? id)) : t'.keys = t.keys := by
  apply Table.eq_of_ordered t'.keys_ordered t.keys_ordered
  intro id
  rw [Table.mem_keys_iff, Table.mem_keys_iff, Table.contains, Table.contains]
  obtain ⟨ht, ht'⟩ | ⟨x, x', ht, ht', -⟩ := Related.cases_of_rel (h id)
  · rw [ht, ht']
  · rw [ht, ht']
    rfl

/-- They list related entries. -/
theorem forall₂_of_rel (h : ∀ id, Option.Rel H (t.get? id) (t'.get? id)) :
    List.Forall₂ (SameEntry H) t.toList t'.toList := by
  have hkeys : t'.toList.map Prod.fst = t.toList.map Prod.fst := keys_of_rel h
  have hentries : ∀ e ∈ t.toList, ∀ e' ∈ t'.toList, e'.1 = e.1 → SameEntry H e e' := by
    intro e he e' he' hid
    have hrel := h e.1
    rw [Table.get?_eq_some_iff.mpr he, ← hid, Table.get?_eq_some_iff.mpr he'] at hrel
    cases hrel with
    | some hH => exact ⟨hid, hH⟩
  revert hkeys hentries
  generalize t.toList = l
  generalize t'.toList = l'
  intro hkeys hentries
  induction l generalizing l' with
  | nil =>
    rw [List.map_eq_nil_iff.mp hkeys]
    exact .nil
  | cons e l ih =>
    obtain ⟨e', l', rfl, hid, hl⟩ := List.map_eq_cons_iff.mp hkeys
    apply List.Forall₂.cons
    · exact hentries e List.mem_cons_self e' List.mem_cons_self hid
    · exact ih l' hl fun x hx y hy =>
        hentries x (List.mem_cons_of_mem _ hx) y (List.mem_cons_of_mem _ hy)

end Tables

section Groups

variable {R : World → World → Prop} {M : Metadata → Metadata → Prop} {H : Handle → Handle → Prop}
  {L : RegistryKey → Prop} {m m' : Metadata} {k : RegistryKey} {es es' : List (Identity × Handle)}

/-- Members are read alike under related metadata. -/
theorem along_readMembers (c : Carries R M H L) (hm : M m m') (globals : List Tag)
    (he : List.Forall₂ (SameEntry H) es es') :
    Along R Eq (readMembers m globals · es) (readMembers m' globals · es') := by
  induction he with
  | nil => exact .pure rfl
  | @cons e e' rest rest' hhead _ ih =>
    obtain ⟨id, h⟩ := e
    obtain ⟨id', h'⟩ := e'
    obtain ⟨rfl, hH⟩ := hhead
    simp only [readMembers, c.kind_handle hH, c.kind_metadata hm]
    split
    · exact .pure rfl
    · exact (c.read hm hH).next fun reading =>
        ih.congr (Except.map (⟨id'.tags.withDefaults globals, reading⟩ :: ·))

/-- A group is read alike. -/
theorem along_readGroup (c : Carries R M H L) (hk : L k) (name : String) (globals : List Tag)
    (he : List.Forall₂ (SameEntry H) es es') :
    Along R (fun x y => Option.Rel (Group.Rel M) x.toOption y.toOption)
      (readGroup k name globals es) (readGroup k name globals es') := by
  intro w v hR
  obtain ⟨hw, hv⟩ | ⟨m, m', hw, hv, hm⟩ := Related.cases_of_rel (c.metadata hR k hk name)
  · simp only [readGroup, hw, hv]
    exact ⟨.none, hR⟩
  · rw [readGroup_of_metadata globals _ hw, readGroup_of_metadata globals _ hv]
    obtain ⟨hanswer, hlater⟩ := along_readMembers c hm globals he hR
    refine ⟨?_, hlater⟩
    dsimp only
    rw [← hanswer]
    cases (readMembers m globals w es).1 with
    | error _ => exact .none
    | ok members => exact .some ⟨hm, rfl⟩

/-- A group comes before those of later names, if it is not left out. -/
theorem readGroups_cons (k : RegistryKey) (globals : List Tag) (es : List (Identity × Handle))
    (w : World) (name : String) (rest : List String) :
    readGroups k globals es w (name :: rest) =
      let group := readGroup k name globals (es.filter fun e => e.1.name == name) w
      let groups := readGroups k globals es group.2 rest
      (group.1.toOption.toList ++ groups.1, groups.2) := by
  simp only [readGroups]
  cases (readGroup k name globals (es.filter fun e => e.1.name == name) w).1 <;> rfl

/-- Groups are read alike. -/
theorem along_readGroups (c : Carries R M H L) (hk : L k) (globals : List Tag)
    (he : List.Forall₂ (SameEntry H) es es') (names : List String) :
    Along R (List.Forall₂ (Group.Rel M)) (readGroups k globals es · names)
      (readGroups k globals es' · names) := by
  induction names with
  | nil => exact .pure .nil
  | cons name rest ih =>
    have hnamed : List.Forall₂ (SameEntry H) (es.filter fun e => e.1.name == name)
        (es'.filter fun e => e.1.name == name) := by
      apply List.rel_filter _ he
      intro e e' h
      dsimp only
      rw [h.id]
    intro w v hR
    obtain ⟨hgroup, hlater⟩ := along_readGroup c hk name globals hnamed hR
    obtain ⟨hgroups, hlast⟩ := ih hlater
    simp only [readGroups_cons]
    refine ⟨List.rel_append ?_ hgroups, hlast⟩
    obtain ⟨hg, hg'⟩ | ⟨g, g', hg, hg', hrel⟩ := Related.cases_of_rel hgroup
    · rw [hg, hg']
      exact .nil
    · rw [hg, hg']
      exact .cons hrel .nil

/-- The groups of a registry are read alike. -/
theorem along_collectGroups (c : Carries R M H L) (hk : L k) (name? : Option String)
    (globals : List Tag) :
    Along R (List.Forall₂ (Group.Rel M)) (collectGroups k name? globals)
      (collectGroups k name? globals) := by
  intro w v hR
  have hrel := Table.rel_filter (c.instruments hR k hk) fun id => name?.all (· == id.name)
  have hkeys : ((v.registry k).selected name?).keys = ((w.registry k).selected name?).keys :=
    keys_of_rel hrel
  rw [collectGroups_eq, collectGroups_eq, hkeys]
  exact along_readGroups c hk globals (forall₂_of_rel hrel) _ hR

/-- Where metadata is the same, so are the groups. -/
theorem along_sameGroups {R : World → World → Prop} (c : Carries R Eq H L) (hk : L k)
    (name? : Option String) (globals : List Tag) :
    Along R Eq (collectGroups k name? globals) (collectGroups k name? globals) := by
  intro w v hR
  obtain ⟨hgroups, hlater⟩ := along_collectGroups c hk name? globals hR
  refine ⟨?_, hlater⟩
  rw [← List.forall₂_eq_eq_eq]
  exact hgroups.imp fun _ _ => Group.Rel.eq

/-- A selection covers the same scopes, and their registries are of those that are compared. -/
theorem scopes?_of_carries (c : Carries R M H L) {w v : World} (hR : R w v) (selection : Selection) :
    selection.scopes? v = selection.scopes? w ∧
      ∀ scopes, selection.scopes? w = some scopes → ∀ e ∈ scopes, L e.2 := by
  have hlive := c.live hR
  refine ⟨by simp only [Selection.scopes?, World.liveScopes, World.scope?, c.scopes hR], ?_⟩
  have hall : ∀ e ∈ w.liveScopes, L e.2 := fun e he => hlive e.1 e.2 (Table.get?_eq_some_iff.mpr he)
  have hone (s : Scope) (scopes : List (Scope × RegistryKey))
      (hs : (w.scope? s).map (fun k => [(s, k)]) = some scopes) : ∀ e ∈ scopes, L e.2 := by
    obtain ⟨k, hk, rfl⟩ := Option.map_eq_some_iff.mp hs
    intro e he
    obtain rfl := List.mem_singleton.mp he
    exact hlive s k hk
  intro scopes hs
  cases selection with
  | all => exact Option.some.inj hs ▸ hall
  | metricEverywhere _ => exact Option.some.inj hs ▸ hall
  | scope s => exact hone s scopes hs
  | metric s _ => exact hone s scopes hs

end Groups

end Export

namespace Exposition

open Export (Group Selection Settings)
open World (Along Carries)

variable {R : World → World → Prop} {M : Metadata → Metadata → Prop} {H : Handle → Handle → Prop}
  {L : RegistryKey → Prop} {d : Dialect} {settings : Settings}

/-- The lines of scopes are made alike where those of groups are. -/
theorem along_scopeLines (c : Carries R M H L)
    (hlines : ∀ scope g g', Group.Rel M g g' →
      groupLines d settings scope g = groupLines d settings scope g')
    (name? : Option String) {scopes : List (Scope × RegistryKey)} (hL : ∀ e ∈ scopes, L e.2) :
    Along R Eq (scopeLines d settings name? · scopes) (scopeLines d settings name? · scopes) := by
  induction scopes with
  | nil => exact .pure rfl
  | cons e rest ih =>
    obtain ⟨hk, hrest⟩ := List.forall_mem_cons.mp hL
    intro w v hR
    obtain ⟨hgroups, hlater⟩ := Export.along_collectGroups c hk name? settings.globalTags hR
    obtain ⟨hlines', hlast⟩ := ih hrest hlater
    refine ⟨?_, hlast⟩
    have hhere : (Export.collectGroups e.2 name? settings.globalTags w).1.flatMap
          (groupLines d settings e.1) =
        (Export.collectGroups e.2 name? settings.globalTags v).1.flatMap
          (groupLines d settings e.1) := by
      rw [← List.forall₂_eq_eq_eq]
      apply List.rel_flatMap hgroups
      intro g g' hg
      rw [hlines e.1 g g' hg, List.forall₂_eq_eq_eq]
    exact congrArg₂ (· ++ ·) hhere hlines'

/-- Text documents are made alike where the lines of groups are. -/
theorem along_document? (c : Carries R M H L)
    (hlines : ∀ scope g g', Group.Rel M g g' →
      groupLines d settings scope g = groupLines d settings scope g')
    (selection : Selection) :
    Along R Eq (document? d settings selection) (document? d settings selection) := by
  have hdocument : Along R Eq (documentLines? d settings selection)
      (documentLines? d settings selection) := by
    intro w v hR
    obtain ⟨hscopes, hL⟩ := Export.scopes?_of_carries c hR selection
    simp only [documentLines?, hscopes]
    cases hs : selection.scopes? w with
    | none => exact ⟨rfl, hR⟩
    | some scopes =>
      exact (along_scopeLines c hlines selection.name? (hL scopes hs)).congr
        (fun lines => some (lines ++ if d.endMark then [.endMark] else [])) hR
  exact hdocument.congr (Option.map (render d))

end Exposition

namespace Json

open Export (Selection Settings)
open World (Along Carries)

variable {R : World → World → Prop} {H : Handle → Handle → Prop} {L : RegistryKey → Prop}
  {contribution : Contribution}

/-- The entries of scopes are put together alike. -/
theorem along_scopeEntries
    (hc : ∀ name? k, L k → Along R Eq (contribution name? k) (contribution name? k))
    (keepEmpty : Bool) (name? : Option String) {scopes : List (Scope × RegistryKey)}
    (hL : ∀ e ∈ scopes, L e.2) :
    Along R Eq (scopeEntries contribution keepEmpty name? · scopes)
      (scopeEntries contribution keepEmpty name? · scopes) := by
  induction scopes with
  | nil => exact .pure rfl
  | cons e rest ih =>
    obtain ⟨hk, hrest⟩ := List.forall_mem_cons.mp hL
    exact (hc name? e.2 hk).next fun entries => (ih hrest).congr fun later =>
      if keepEmpty || !entries.isEmpty then (e.1, .ofTable entries) :: later else later

/-- The object of a selection is made alike. -/
theorem along_object? (c : Carries R Eq H L)
    (hc : ∀ name? k, L k → Along R Eq (contribution name? k) (contribution name? k))
    (selection : Selection) :
    Along R Eq (object? contribution selection) (object? contribution selection) := by
  intro w v hR
  obtain ⟨hscopes, hL⟩ := Export.scopes?_of_carries c hR selection
  simp only [object?, hscopes]
  cases hs : selection.scopes? w with
  | none => exact ⟨rfl, hR⟩
  | some scopes =>
    have hkeys := hL scopes hs
    cases selection with
    | all => exact (along_scopeEntries hc true none hkeys).congr (fun es => some (Table.ofList es)) hR
    | metricEverywhere name =>
      exact (along_scopeEntries hc false (some name) hkeys).congr (fun es => some (Table.ofList es)) hR
    | scope _ =>
      cases scopes with
      | nil => exact ⟨rfl, hR⟩
      | cons e _ => exact (hc none e.2 (hkeys e List.mem_cons_self)).congr some hR
    | metric _ name =>
      cases scopes with
      | nil => exact ⟨rfl, hR⟩
      | cons e _ => exact (hc (some name) e.2 (hkeys e List.mem_cons_self)).congr some hR

/-- A document is made alike. -/
theorem along_write? (c : Carries R Eq H L)
    (hc : ∀ name? k, L k → Along R Eq (contribution name? k) (contribution name? k))
    (selection : Selection) :
    Along R Eq (write? contribution selection) (write? contribution selection) :=
  (along_object? c hc selection).congr (Option.map fun t => (Json.ofTable t).write)

/-- The values of a registry are read alike. -/
theorem along_scopeValues (c : Carries R Eq H L) (settings : Settings) (name? : Option String)
    (k : RegistryKey) (hk : L k) :
    Along R Eq (scopeValues settings name? k) (scopeValues settings name? k) :=
  (Export.along_sameGroups c hk name? settings.globalTags).congr fun groups =>
    Table.ofList (groups.flatMap groupEntries)

/-- The metadata of a registry is read alike. -/
theorem along_scopeMetadata (c : Carries R Eq H L) (name? : Option String) (k : RegistryKey)
    (hk : L k) : Along R Eq (scopeMetadata name? k) (scopeMetadata name? k) := by
  intro w v hR
  have hmetadata : (v.registry k).metadata = (w.registry k).metadata := by
    apply Table.ext_get?
    intro name
    obtain ⟨hw, hv⟩ | ⟨m, m', hw, hv, hm⟩ := Related.cases_of_rel (c.metadata hR k hk name)
    · exact hv.trans hw.symm
    · exact hv.trans (hm ▸ hw.symm)
  have hids : (v.registry k).identities = (w.registry k).identities :=
    Export.keys_of_rel (c.instruments hR k hk)
  refine ⟨?_, hR⟩
  simp only [scopeMetadata, hmetadata, hids]

end Json

namespace Http

open Export (Selection Settings)
open World (Along Carries)

variable {R : World → World → Prop} {H : Handle → Handle → Prop} {L : RegistryKey → Prop}

/-- A document of values is made alike, in every format. -/
theorem along_values? (c : Carries R Eq H L) (format : Format) (settings : Settings)
    (selection : Selection) :
    Along R Eq (format.values? settings selection) (format.values? settings selection) := by
  have hlines (d : Exposition.Dialect) (scope : Scope) (g g' : Export.Group)
      (h : Export.Group.Rel Eq g g') :
      Exposition.groupLines d settings scope g = Exposition.groupLines d settings scope g' :=
    congrArg (Exposition.groupLines d settings scope) h.eq
  cases format with
  | prometheus => exact Exposition.along_document? c (hlines _) selection
  | openMetrics => exact Exposition.along_document? c (hlines _) selection
  | json => exact Json.along_write? c (Json.along_scopeValues c settings) selection

/-- A document of metadata is made alike. -/
theorem along_metadata? (c : Carries R Eq H L) (selection : Selection) :
    Along R Eq (Json.metadata? selection) (Json.metadata? selection) :=
  Json.along_write? c (Json.along_scopeMetadata c) selection

/-- What a query selects is the same. -/
theorem select_of_carries (c : Carries R Eq H L) {w v : World} (hR : R w v) (q : Query) :
    select v q = select w q := by
  have hscope (s : Scope) : v.scope? s = w.scope? s := by rw [World.scope?, c.scopes hR, World.scope?]
  have hknows (name : String) (k : RegistryKey) (hk : L k) : knows v name k = knows w name k := by
    obtain ⟨hw, hv⟩ | ⟨m, m', hw, hv, -⟩ := Related.cases_of_rel (c.metadata hR k hk name)
    · rw [knows, knows, hw, hv]
    · rw [knows, knows, hw, hv]
      rfl
  have hempty (k : RegistryKey) (hk : L k) :
      (v.registry k).isEmpty = (w.registry k).isEmpty := by
    have hkeys := Export.keys_of_rel (c.instruments hR k hk)
    have hlength := congrArg List.isEmpty hkeys
    rwa [Table.keys, Table.keys, List.isEmpty_map, List.isEmpty_map] at hlength
  unfold select
  cases q.scope with
  | none =>
    have hany (name : String) : v.liveScopes.any (fun e => knows v name e.2) =
        w.liveScopes.any fun e => knows w name e.2 := by
      rw [World.liveScopes, c.scopes hR, Bool.eq_iff_iff, List.any_eq_true, List.any_eq_true]
      apply exists_congr
      intro e
      apply and_congr_right
      intro he
      rw [hknows name e.2 (c.live hR e.1 e.2 (Table.get?_eq_some_iff.mpr he))]
    simp only [hany]
  | some scope =>
    simp only [hscope]
    cases hs : w.scope? scope with
    | none => rfl
    | some k =>
      have hk := c.live hR scope k hs
      simp only [hknows _ k hk, hempty k hk]

/-- A settled request is answered alike. -/
theorem along_deliver (c : Carries R Eq H L) (settings : Settings) (purpose : Purpose)
    (format : Format) (selection : Selection) :
    Along R Eq (deliver settings purpose format selection)
      (deliver settings purpose format selection) := by
  let answer (document : Option String) : Response :=
    document.elim (.empty .notFound) fun text =>
      ⟨.ok, some format.contentType, none, if purpose = .valueHeaders then "" else text⟩
  have hanswer (document : World → Option String × World) (h : Along R Eq document document)
      (hdocument : ∀ w, deliver settings purpose format selection w =
        (answer (document w).1, (document w).2)) :
      Along R Eq (deliver settings purpose format selection)
        (deliver settings purpose format selection) :=
    (h.congr answer).of_eq hdocument hdocument
  cases purpose with
  | metadata =>
    refine hanswer _ (along_metadata? c selection) fun w => ?_
    simp only [deliver, answer]
    cases (Json.metadata? selection w).1 <;> rfl
  | values | valueHeaders =>
    refine hanswer _ (along_values? c format settings selection) fun w => ?_
    simp only [deliver, answer]
    cases (format.values? settings selection w).1 <;> rfl

/-- Requests are answered alike. -/
theorem along_respond (c : Carries R Eq H L) (settings : Settings) (method target : String)
    (accept : Option String) :
    Along R Eq (respond settings method target accept) (respond settings method target accept) := by
  intro w v hR
  unfold respond
  cases Purpose.ofMethod? method with
  | none => exact ⟨rfl, hR⟩
  | some purpose =>
    cases Format.negotiate accept with
    | none => exact ⟨rfl, hR⟩
    | some format =>
      dsimp only
      split
      · exact ⟨rfl, hR⟩
      · cases Query.parse? (queryOf target) with
        | none => exact ⟨rfl, hR⟩
        | some query =>
          simp only [select_of_carries c hR query]
          cases select w query with
          | error status => exact ⟨rfl, hR⟩
          | ok selection => exact along_deliver c settings purpose format selection hR

end Http

end Telemetry
