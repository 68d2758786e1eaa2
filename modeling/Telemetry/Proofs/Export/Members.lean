import Telemetry.Proofs.Export.Group
import Mathlib.Data.List.Flatten

/-!
# Members in the order of their identities

Names stand in order, and so do the instruments of each name. So the members of all groups, one group
after the other, are in the order of identities again: an export shows the selected instruments one by
one, and what it shows is found by going through the table of instruments once.
-/

namespace Telemetry.Export

/-- The members of groups, each with the metadata of its group. -/
def allMembers (groups : List Group) : List (Metadata × Member) :=
  groups.flatMap fun g => g.members.map fun x => (g.metadata, x)

/-- An instrument is shown by a member under metadata of its name, read in a world with `P`. -/
structure ShownBy (P : World → Prop) (r : Registry) (globals : List Tag) (e : Identity × Handle)
    (x : Metadata × Member) : Prop where
  metadata : r.metadataFor? e.1.name = some x.1
  kind : e.2.kind = x.1.kind
  shows : ∃ v, P v ∧ Member.Shows x.2 x.1 globals e v

variable {P : World → Prop} {r : Registry} {k : RegistryKey} {name? : Option String} {w v : World}
  {entries : List (Identity × Handle)} {globals : List Tag}

/-- Ordered entries are taken apart by name and put together again. -/
theorem flatMap_filter_name {names : List String}
    (hnames : names.Pairwise fun a b => compare a b = .lt)
    (hentries : entries.Pairwise fun a b => compare a.1 b.1 = .lt)
    (h : ∀ e ∈ entries, e.1.name ∈ names) :
    (names.flatMap fun name => entries.filter fun e => e.1.name == name) = entries := by
  have hordered : (names.flatMap fun name => entries.filter fun e => e.1.name == name).Pairwise
      fun a b => compare a.1 b.1 = .lt := by
    refine List.pairwise_flatMap.mpr ⟨fun _ _ => hentries.filter _, hnames.imp ?_⟩
    intro m n hmn x hx y hy
    have hx := beq_iff_eq.mp (List.mem_filter.mp hx).2
    have hy := beq_iff_eq.mp (List.mem_filter.mp hy).2
    subst hx hy
    -- Identities are compared by name first.
    change (compare x.1.name y.1.name).then (compare x.1.tagList y.1.tagList) = .lt
    rw [hmn]
    rfl
  refine Table.eq_of_ordered hordered hentries fun e => ?_
  simp only [List.mem_flatMap, List.mem_filter, beq_iff_eq]
  exact ⟨fun ⟨_, _, he, _⟩ => he, fun he => ⟨e.1.name, h e he, he, rfl⟩⟩

/-- Groups that show names show the instruments of these names one by one. -/
theorem forall₂_allMembers {names : List String} {groups : List Group}
    (h : List.Forall₂ (fun name g => Group.Covers P k globals entries name g) names groups)
    (hP : ∀ v, P v → (v.registry k).PartOf r) :
    List.Forall₂ (ShownBy P r globals)
      (names.flatMap fun name => entries.filter fun e => e.1.name == name) (allMembers groups) := by
  refine List.rel_flatMap h fun name g hg => ?_
  obtain ⟨u, hu, hm⟩ := hg.metadata
  have hnamed : ∀ e ∈ entries.filter fun e => e.1.name == name, e.1.name = name :=
    fun e he => beq_iff_eq.mp (List.mem_filter.mp he).2
  rw [List.forall₂_map_right_iff]
  refine ((List.forall₂_and_left _ _).mpr ⟨hnamed, hg.members⟩).imp fun e x hx => ?_
  obtain ⟨rfl, hk, hshows⟩ := hx
  exact ⟨(hP u hu).metadata hm, hk, hshows⟩

/-- The selected instruments of a part of a registry are selected in the whole. -/
theorem sublist_selected {s : Registry} (h : s.PartOf r) (name? : Option String) :
    (s.selected name?).toList.Sublist (r.selected name?).toList := by
  refine Table.sublist_of_ordered (s.selected name?).ordered (r.selected name?).ordered fun e he => ?_
  obtain ⟨hl, hn⟩ := mem_selected.mp he
  exact mem_selected.mpr ⟨h.instruments hl, hn⟩

/-- Every selected instrument belongs to one of the names that an export goes through. -/
theorem flatMap_distinctNames (t : Table Identity Handle) :
    ((distinctNames t.keys).flatMap fun name => t.toList.filter fun e => e.1.name == name) =
      t.toList := by
  refine flatMap_filter_name (distinctNames_ordered t.keys_ordered) t.ordered fun e he => ?_
  exact mem_distinctNames.mpr ⟨e.1, List.mem_map_of_mem he, rfl⟩

/-- Whatever has been removed before and is removed meanwhile: an export shows some of the selected
instruments one by one, in the order of identities and no one twice. -/
theorem collectGroups_shown (hwv : w.Shrunk v) (k : RegistryKey) (name? : Option String)
    (globals : List Tag) :
    w.Shrunk (collectGroups k name? globals v).2 ∧
      ∃ shown, shown.Sublist ((w.registry k).selected name?).toList ∧
        List.Forall₂ (ShownBy w.Shrunk (w.registry k) globals) shown
          (allMembers (collectGroups k name? globals v).1) := by
  rw [collectGroups_eq]
  have hread : ∀ e ∈ ((v.registry k).selected name?).toList, ∀ unit u, w.Shrunk u →
      w.Shrunk (readInstrument u unit e.2).2 :=
    fun e _ unit u hu => hu.trans (World.shrunk_readInstrument u unit e.2)
  obtain ⟨hlater, kept, hkept, hcovers⟩ := readGroups_sound (k := k) globals hread hwv
    (distinctNames ((v.registry k).selected name?).keys)
  refine ⟨hlater, _, ?_, forall₂_allMembers hcovers fun u hu => hu k⟩
  have hsome := hkept.flatMap fun name =>
    ((v.registry k).selected name?).toList.filter fun e => e.1.name == name
  rw [flatMap_distinctNames] at hsome
  exact hsome.trans (sublist_selected (hwv k) name?)

/-- An export of a showable registry shows all selected instruments one by one, in the order of
identities. -/
theorem Showable.forall₂_selected (hs : Showable w k name?) (globals : List Tag) :
    List.Forall₂ (ShownBy (· = w) (w.registry k) globals)
      ((w.registry k).selected name?).toList (allMembers (collectGroups k name? globals w).1) := by
  have hshown := forall₂_allMembers (hs.collectGroups_covers globals) fun v hv => hv.shrunk k
  rw [← distinctNames_selected hs.coherent, flatMap_distinctNames] at hshown
  refine hshown.imp fun e x h => ⟨h.metadata, h.kind, ?_⟩
  obtain ⟨v, hv, hshows⟩ := h.shows
  exact ⟨w, rfl, hshows.of_undisturbed hv⟩

end Telemetry.Export
