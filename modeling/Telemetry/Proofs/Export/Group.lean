import Telemetry.Export.Group
import Telemetry.Proofs.Export.Reading
import Telemetry.Proofs.Registry.Agreement
import Telemetry.Proofs.Related

/-!
# Groups lose nothing

An export passes over a table of instruments name by name and checks every instrument against its
metadata once more. Whatever gauges remove meanwhile, each group shows the instruments of one name in
order, and groups come in the order of names. In a registry whose instruments agree with their
metadata no group is left out.
-/

namespace Telemetry

namespace Registry

/-- The live instruments of one name or of all. -/
def selected (r : Registry) (name? : Option String) : Table Identity Handle :=
  r.instruments.filter fun id _ => name?.all (· == id.name)

/-- The live names, or the one of them that is asked for. -/
def selectedNames (r : Registry) (name? : Option String) : List String :=
  r.names.filter fun name => name?.all (· == name)

end Registry

namespace Export

/-- A member shows an instrument: its tags with the global ones, and its values read in a world. -/
structure Member.Shows (x : Member) (metadata : Metadata) (globals : List Tag)
    (e : Identity × Handle) (v : World) : Prop where
  tags : x.tags = e.1.tags.withDefaults globals
  reading : x.reading = (readInstrument v metadata.unit e.2).1

/-- What is shown in an undisturbed world is shown as it was. -/
theorem Member.Shows.of_undisturbed {x : Member} {metadata : Metadata} {globals : List Tag}
    {e : Identity × Handle} {w v : World} (hx : x.Shows metadata globals e v)
    (hwv : w.Undisturbed v) : x.Shows metadata globals e w :=
  ⟨hx.tags, hx.reading.trans (hwv.readInstrument_eq metadata.unit e.2)⟩

/-- A group shows the instruments of a name, in order and once each, under metadata that the name has
in a world; `P` says in which worlds metadata and instruments may have been read. -/
structure Group.Covers (P : World → Prop) (k : RegistryKey) (globals : List Tag)
    (entries : List (Identity × Handle)) (name : String) (g : Group) : Prop where
  metadata : ∃ v, P v ∧ (v.registry k).metadataFor? name = some g.metadata
  members : List.Forall₂
    (fun e x => e.2.kind = g.metadata.kind ∧ ∃ v, P v ∧ Member.Shows x g.metadata globals e v)
    (entries.filter fun e => e.1.name == name) g.members

/-- A registry all of which an export can show: its tables agree with each other, and no selected gauge
removes anything. -/
structure Showable (w : World) (k : RegistryKey) (name? : Option String) : Prop where
  coherent : (w.registry k).Coherent
  kind_eq : ∀ {id h m}, (w.registry k).instrument? id = some h →
    (w.registry k).metadataFor? id.name = some m → h.kind = m.kind
  harmless : ∀ {id h}, (w.registry k).instrument? id = some h →
    name?.all (· == id.name) = true → w.Harmless h

/-- What is showable stays so while nothing is disturbed. -/
theorem Showable.of_undisturbed {w v : World} {k : RegistryKey} {name? : Option String}
    (hs : Showable w k name?) (hwv : w.Undisturbed v) : Showable v k name? where
  coherent := hwv.registry_eq k ▸ hs.coherent
  kind_eq := hwv.registry_eq k ▸ hs.kind_eq
  harmless hl hn := (hs.harmless (hwv.registry_eq k ▸ hl) hn).of_undisturbed hwv

/-- What honest operations led to is showable where no selected gauge removes anything. -/
theorem showable_of_honestlyReachable {w : World} {k : RegistryKey} {name? : Option String}
    (hr : (w.registry k).HonestlyReachable)
    (hh : ∀ id h, (w.registry k).instrument? id = some h → name?.all (· == id.name) = true →
      w.Harmless h) : Showable w k name? where
  coherent := hr.reachable.coherent
  kind_eq := hr.agreeing.kind_eq
  harmless := hh _ _

section Reading

variable {P : World → Prop} {k : RegistryKey} {w : World} {entries : List (Identity × Handle)}
  {name : String} {names : List String}

/-- What is mapped to a success was a success. -/
theorem exists_of_map_eq_ok {ε α β : Type} {f : α → β} {x : Except ε α} {b : β}
    (h : x.map f = .ok b) : ∃ a, x = .ok a ∧ f a = b := by
  cases x with
  | error e => contradiction
  | ok a => exact ⟨a, rfl, Except.ok.inj h⟩

/-- Members are read in worlds of a kind that reading does not leave, and show the instruments in
order. -/
theorem readMembers_sound (metadata : Metadata) (globals : List Tag)
    (hP : ∀ e ∈ entries, ∀ v, P v → P (readInstrument v metadata.unit e.2).2) (hw : P w) :
    P (readMembers metadata globals w entries).2 ∧
      ∀ members, (readMembers metadata globals w entries).1 = .ok members →
        List.Forall₂
          (fun e x => e.2.kind = metadata.kind ∧ ∃ v, P v ∧ Member.Shows x metadata globals e v)
          entries members := by
  induction entries generalizing w with
  | nil =>
    refine ⟨hw, fun members h => ?_⟩
    obtain rfl := Except.ok.inj h
    exact .nil
  | cons e rest ih =>
    obtain ⟨id, h⟩ := e
    simp only [readMembers]
    split
    · exact ⟨hw, nofun⟩
    · rename_i hk
      have hk' : h.kind = metadata.kind := by simpa using hk
      obtain ⟨hlater, hrest⟩ := ih (fun e he => hP e (List.mem_cons_of_mem _ he))
        (hP (id, h) List.mem_cons_self w hw)
      refine ⟨hlater, fun members hm => ?_⟩
      obtain ⟨xs, hxs, rfl⟩ := exists_of_map_eq_ok hm
      exact .cons ⟨hk', w, hw, rfl, rfl⟩ (hrest xs hxs)

/-- Reading succeeds when every instrument is of the kind that the metadata says. -/
theorem readMembers_complete (metadata : Metadata) (globals : List Tag) (w : World)
    (hk : ∀ e ∈ entries, e.2.kind = metadata.kind) :
    ∃ members, (readMembers metadata globals w entries).1 = .ok members := by
  induction entries generalizing w with
  | nil => exact ⟨[], rfl⟩
  | cons e rest ih =>
    obtain ⟨id, h⟩ := e
    have hkind : h.kind = metadata.kind := hk (id, h) List.mem_cons_self
    obtain ⟨members, hm⟩ := ih (readInstrument w metadata.unit h).2
      fun e he => hk e (List.mem_cons_of_mem _ he)
    simp [readMembers, hkind, hm, Except.map]

/-- A group is read as the members of its metadata. -/
theorem readGroup_of_metadata {metadata : Metadata} (globals : List Tag)
    (entries : List (Identity × Handle))
    (hm : (w.registry k).metadataFor? name = some metadata) :
    readGroup k name globals entries w =
      ((readMembers metadata globals w entries).1.map fun members => ⟨metadata, members⟩,
        (readMembers metadata globals w entries).2) := by
  simp only [readGroup, hm]

/-- A group that is read shows the instruments of its name. -/
theorem readGroup_sound (globals : List Tag)
    (hP : ∀ e ∈ entries, ∀ unit v, P v → P (readInstrument v unit e.2).2) (hw : P w)
    (name : String) :
    let o := readGroup k name globals (entries.filter fun e => e.1.name == name) w
    P o.2 ∧ ∀ g, o.1 = .ok g → g.Covers P k globals entries name := by
  intro o
  cases hm : (w.registry k).metadataFor? name with
  | none =>
    have ho : o = (.error (.missingMetadata name), w) := by simp only [o, readGroup, hm]
    rw [ho]
    exact ⟨hw, nofun⟩
  | some metadata =>
    obtain ⟨hlater, hmembers⟩ := readMembers_sound metadata globals
      (fun e he v => hP e (List.mem_filter.mp he).1 metadata.unit v) hw
    rw [show o = _ from readGroup_of_metadata globals _ hm]
    refine ⟨hlater, fun g hg => ?_⟩
    obtain ⟨members, hread, rfl⟩ := exists_of_map_eq_ok hg
    exact ⟨⟨w, hw, hm⟩, hmembers members hread⟩

/-- Groups show the instruments of some of the names, in their order. -/
theorem readGroups_sound (globals : List Tag)
    (hP : ∀ e ∈ entries, ∀ unit v, P v → P (readInstrument v unit e.2).2) (hw : P w)
    (names : List String) :
    P (readGroups k globals entries w names).2 ∧
      ∃ kept, kept.Sublist names ∧
        List.Forall₂ (fun name g => Group.Covers P k globals entries name g) kept
          (readGroups k globals entries w names).1 := by
  induction names generalizing w with
  | nil => exact ⟨hw, [], .slnil, .nil⟩
  | cons name rest ih =>
    obtain ⟨hgroup, hcovers⟩ := readGroup_sound (k := k) globals hP hw name
    obtain ⟨hlater, kept, hkept, hgroups⟩ := ih hgroup
    refine ⟨hlater, ?_⟩
    simp only [readGroups]
    split
    · rename_i g hg
      exact ⟨name :: kept, hkept.cons_cons name, .cons (hcovers g hg) hgroups⟩
    · exact ⟨kept, hkept.cons name, hgroups⟩

/-- Where the registry does not change and its instruments agree with their metadata, there is a
group for every name. -/
theorem readGroups_complete {r : Registry} (globals : List Tag)
    (hP : ∀ e ∈ entries, ∀ unit v, P v → P (readInstrument v unit e.2).2)
    (hr : ∀ v, P v → v.registry k = r) (hw : P w)
    (hnames : ∀ name ∈ names, ∃ m, r.metadataFor? name = some m ∧
      ∀ e ∈ entries, e.1.name = name → e.2.kind = m.kind) :
    List.Forall₂ (fun name g => Group.Covers P k globals entries name g) names
      (readGroups k globals entries w names).1 := by
  induction names generalizing w with
  | nil => exact .nil
  | cons name rest ih =>
    obtain ⟨m, hm, hkind⟩ := hnames name List.mem_cons_self
    obtain ⟨hgroup, hcovers⟩ := readGroup_sound (k := k) globals hP hw name
    have hgroups := ih hgroup fun n hn => hnames n (List.mem_cons_of_mem _ hn)
    obtain ⟨members, hread⟩ : ∃ members, (readMembers m globals w
        (entries.filter fun e => e.1.name == name)).1 = .ok members :=
      readMembers_complete m globals w fun e he => by
        obtain ⟨hmem, hname⟩ := List.mem_filter.mp he
        exact hkind e hmem (beq_iff_eq.mp hname)
    have hg : (readGroup k name globals (entries.filter fun e => e.1.name == name) w).1 =
        .ok ⟨m, members⟩ := by
      rw [readGroup_of_metadata globals _ ((hr w hw).symm ▸ hm), hread]
      rfl
    simp only [readGroups, hg]
    exact .cons (hcovers _ hg) hgroups

end Reading

section Names

variable {ids : List Identity} {r : Registry} {name? : Option String} {k : RegistryKey} {w : World}

/-- The name of an earlier identity is not a later name. -/
theorem compare_name_of_lt {a b : Identity} (h : compare a b = .lt) :
    compare a.name b.name = .lt ∨ a.name = b.name := by
  have h' : (compare a.name b.name).then (compare a.tagList b.tagList) = .lt := h
  rw [Ordering.then_eq_lt] at h'
  exact h'.imp_right fun he => Std.LawfulEqCmp.eq_of_compare he.1

/-- The names of ordered identities are in order, each once. -/
theorem distinctNames_ordered (h : ids.Pairwise fun a b => compare a b = .lt) :
    (distinctNames ids).Pairwise fun a b => compare a b = .lt := by
  fun_induction distinctNames ids with
  | case1 => exact .nil
  | case2 id => simp
  | case3 a b rest _ ih => exact ih (List.pairwise_cons.mp h).2
  | case4 a b rest hne ih =>
    obtain ⟨ha, hrest⟩ := List.pairwise_cons.mp h
    refine List.pairwise_cons.mpr ⟨fun name hname => ?_, ih hrest⟩
    obtain ⟨id, hid, rfl⟩ := mem_distinctNames.mp hname
    have hab : compare a.name b.name = .lt :=
      (compare_name_of_lt (ha b List.mem_cons_self)).resolve_right hne
    -- No name between the first two can come later.
    rcases List.mem_cons.mp hid with rfl | hid
    · exact hab
    · rcases compare_name_of_lt ((List.pairwise_cons.mp hrest).1 id hid) with hb | hb
      · exact Std.TransCmp.lt_trans hab hb
      · exact hb ▸ hab

/-- The instruments that are selected. -/
theorem mem_selected {e : Identity × Handle} :
    e ∈ (r.selected name?).toList ↔
      r.instrument? e.1 = some e.2 ∧ name?.all (· == e.1.name) = true := by
  rw [Registry.selected, Table.toList_filter, List.mem_filter, ← Table.get?_eq_some_iff]
  rfl

/-- Without a name all live instruments are selected. -/
theorem toList_selected_none (r : Registry) : (r.selected none).toList = r.instruments.toList :=
  List.filter_eq_self.mpr fun _ _ => rfl

/-- The names that are selected are live. -/
theorem mem_selectedNames (hc : r.Coherent) {name : String} :
    name ∈ r.selectedNames name? ↔
      (∃ id h, r.instrument? id = some h ∧ id.name = name) ∧ name?.all (· == name) = true := by
  rw [Registry.selectedNames, List.mem_filter, Registry.names, Table.mem_keys_iff, hc name,
    Registry.hasName_iff_instrument?]

/-- Selected names are in order, each once. -/
theorem selectedNames_ordered (r : Registry) (name? : Option String) :
    (r.selectedNames name?).Pairwise fun a b => compare a b = .lt :=
  r.metadata.keys_ordered.filter _

/-- The names of the selected instruments are the selected names. -/
theorem distinctNames_selected (hc : r.Coherent) (name? : Option String) :
    distinctNames (r.selected name?).keys = r.selectedNames name? := by
  refine Table.eq_of_ordered (distinctNames_ordered (r.selected name?).keys_ordered)
    (selectedNames_ordered r name?) fun n => ?_
  rw [mem_distinctNames, mem_selectedNames hc]
  simp only [Table.mem_keys_iff, Table.contains_iff, Table.get?_eq_some_iff, mem_selected]
  constructor
  · rintro ⟨id, ⟨h, hl, hn⟩, rfl⟩
    exact ⟨⟨id, h, hl, rfl⟩, hn⟩
  · rintro ⟨⟨id, h, hl, rfl⟩, hn⟩
    exact ⟨id, ⟨h, hl, hn⟩, rfl⟩

/-- The selected instruments of a selected name are the live instruments of the name. -/
theorem filter_selected {name : String} (hn : name?.all (· == name) = true) :
    (r.selected name?).toList.filter (fun e => e.1.name == name) =
      (r.instrumentsNamed name).toList := by
  rw [Registry.selected, Table.toList_filter, Registry.instrumentsNamed, Table.toList_filter,
    List.filter_filter]
  refine List.filter_congr fun e _ => ?_
  cases he : e.1.name == name with
  | false => rfl
  | true => rw [beq_iff_eq.mp he, hn]; rfl

/-- An export reads the groups of the selected instruments. -/
theorem collectGroups_eq (k : RegistryKey) (name? : Option String) (globals : List Tag) (w : World) :
    collectGroups k name? globals w =
      readGroups k globals ((w.registry k).selected name?).toList w
        (distinctNames ((w.registry k).selected name?).keys) := by
  cases name? with
  | none =>
    rw [Table.keys, toList_selected_none]
    rfl
  | some name =>
    have hname : (w.registry k).instrumentsNamed name = (w.registry k).selected (some name) :=
      Table.filter_congr fun id _ _ => Bool.beq_comm
    simp only [collectGroups, hname]
    rfl

/-- Whatever gauges remove, a group shows the instruments that a selected name had when the export began,
and there was one; `P` says in which worlds they and the metadata of the name may have been read. -/
theorem name_of_mem_collectGroups {P : World → Prop} {globals : List Tag} {g : Group}
    (hP : ∀ h unit v, P v → P (readInstrument v unit h).2) (hw : P w)
    (hg : g ∈ (collectGroups k name? globals w).1) :
    ∃ name, name?.all (· == name) = true ∧
      (∃ v, P v ∧ (v.registry k).metadataFor? name = some g.metadata) ∧
      ((w.registry k).instrumentsNamed name).toList ≠ [] ∧
      List.Forall₂
        (fun e x => e.2.kind = g.metadata.kind ∧ ∃ v, P v ∧ Member.Shows x g.metadata globals e v)
        ((w.registry k).instrumentsNamed name).toList g.members := by
  rw [collectGroups_eq] at hg
  obtain ⟨-, kept, hkept, hcovers⟩ := readGroups_sound (k := k) globals (fun e _ => hP e.2) hw
    (distinctNames ((w.registry k).selected name?).keys)
  obtain ⟨name, hname, hcover⟩ := Related.exists_of_mem_right hcovers hg
  obtain ⟨id, hid, rfl⟩ := mem_distinctNames.mp (hkept.subset hname)
  obtain ⟨h, hl⟩ := Table.contains_iff.mp (Table.mem_keys_iff.mp hid)
  have he := Table.get?_eq_some_iff.mp hl
  have hselected := (mem_selected.mp he).2
  have hmembers := hcover.members
  have hnamed : (id, h) ∈ ((w.registry k).selected name?).toList.filter (fun e => e.1.name == id.name) :=
    List.mem_filter.mpr ⟨he, beq_self_eq_true _⟩
  rw [filter_selected hselected] at hmembers hnamed
  exact ⟨id.name, hselected, hcover.metadata, List.ne_nil_of_mem hnamed, hmembers⟩

/-- What an export reads of a registry that is showable it reads in undisturbed worlds. -/
theorem Showable.undisturbed_read (hs : Showable w k name?) {v : World} {e : Identity × Handle}
    (he : e ∈ ((w.registry k).selected name?).toList) (unit : Option String) (hv : w.Undisturbed v) :
    w.Undisturbed (readInstrument v unit e.2).2 := by
  obtain ⟨hl, hn⟩ := mem_selected.mp he
  exact hv.trans (World.undisturbed_readInstrument ((hs.harmless hl hn).of_undisturbed hv) unit)

/-- An export of a showable registry disturbs nothing. -/
theorem Showable.undisturbed_collectGroups (hs : Showable w k name?) (globals : List Tag) :
    w.Undisturbed (collectGroups k name? globals w).2 := by
  rw [collectGroups_eq]
  exact (readGroups_sound globals (fun e he unit v hv => hs.undisturbed_read he unit hv) (.refl w) _).1

/-- In a showable registry every selected name has a group, and all are read in undisturbed
worlds. -/
theorem Showable.collectGroups_covers (hs : Showable w k name?) (globals : List Tag) :
    List.Forall₂
      (fun name g => Group.Covers w.Undisturbed k globals ((w.registry k).selected name?).toList name g)
      ((w.registry k).selectedNames name?) (collectGroups k name? globals w).1 := by
  have hnames : ∀ name ∈ (w.registry k).selectedNames name?,
      ∃ m, (w.registry k).metadataFor? name = some m ∧
        ∀ e ∈ ((w.registry k).selected name?).toList, e.1.name = name → e.2.kind = m.kind := by
    intro name hname
    obtain ⟨⟨id, h, hl, rfl⟩, -⟩ := (mem_selectedNames hs.coherent).mp hname
    obtain ⟨m, hm⟩ := hs.coherent.hasName_iff_metadataFor?.mp (Registry.hasName_of_instrument? hl)
    exact ⟨m, hm, fun e he hen => hs.kind_eq (mem_selected.mp he).1 (hen ▸ hm)⟩
  rw [collectGroups_eq, distinctNames_selected hs.coherent]
  exact readGroups_complete globals (fun e he unit v hv => hs.undisturbed_read he unit hv)
    (fun v hv => hv.registry_eq k) (.refl w) hnames

end Names

end Export

end Telemetry
