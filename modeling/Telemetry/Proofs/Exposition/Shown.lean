import Telemetry.Proofs.Export.Figures
import Telemetry.Proofs.Export.Members
import Telemetry.Proofs.Exposition.Decoding

/-!
# What the lines of a document show

A document has the lines of the families of the groups that are exported. Each of these groups shows live
instruments of a selected scope, at least one, and its families are there for all of its members: which
names its samples have is known from the scope and the metadata, and which tags from the instruments.
-/

namespace Telemetry.Exposition

open Export (Group Member Selection Settings)

/-- The name in a line: that of a family, or of a sample. -/
def Line.name? : Line → Option String
  | .help family _ => some family
  | .type family _ => some family
  | .unit family _ => some family
  | .sample s => some s.name
  | .endMark => none

/-- The names of a group: those of its families and those of its samples. -/
def groupNames (d : Dialect) (scope : Scope) (g : Group) : List String :=
  (families d scope g).map (·.name) ++ (groupSamples d scope g).map (·.name)

variable {d : Dialect} {settings : Settings} {selection : Selection} {w v : World}
  {globals : List Tag} {groups : List (Scope × Group)} {e : Scope × Group} {lines : List Line}

section Groups

variable {k : RegistryKey} {name? : Option String} {g : Group}

/-- Whatever was removed before, each group of several scopes is collected in one of them. -/
theorem collected_of_mem_scopeGroups (hwv : w.Shrunk v) {scopes : List (Scope × RegistryKey)}
    (he : e ∈ (scopeGroups globals name? v scopes).1) :
    ∃ k u, (e.1, k) ∈ scopes ∧ w.Shrunk u ∧ e.2 ∈ (Export.collectGroups k name? globals u).1 := by
  induction scopes generalizing v with
  | nil => contradiction
  | cons s rest ih =>
    obtain ⟨scope, k⟩ := s
    rcases List.mem_append.mp he with he | he
    · obtain ⟨g, hg, rfl⟩ := List.mem_map.mp he
      exact ⟨k, v, List.mem_cons_self, hwv, hg⟩
    · have hlater := (Export.collectGroups_shown hwv k name? globals).1
      obtain ⟨i, u, hi, hu, hg⟩ := ih hlater he
      exact ⟨i, u, List.mem_cons_of_mem _ hi, hu, hg⟩

/-- A document is one of exported groups. -/
theorem exists_exportedGroups (hl : (documentLines? d settings selection w).1 = some lines) :
    ∃ groups, exportedGroups? settings.globalTags selection w = some groups := by
  rw [documentLines?_eq] at hl
  obtain ⟨groups, hgroups, -⟩ := Option.map_eq_some_iff.mp hl
  exact ⟨groups, hgroups⟩

/-- Each exported group is collected in a selected scope. -/
theorem collected_of_mem_exportedGroups (hgroups : exportedGroups? globals selection w = some groups)
    (he : e ∈ groups) :
    ∃ k u, (e.1, k) ∈ (selection.scopes? w).getD [] ∧ w.Shrunk u ∧
      e.2 ∈ (Export.collectGroups k selection.name? globals u).1 := by
  obtain ⟨scopes, hscopes, rfl⟩ := Option.map_eq_some_iff.mp hgroups
  rw [hscopes]
  exact collected_of_mem_scopeGroups (.refl w) he

/-- Each member of an exported group shows a live instrument of a selected scope, with its tags and the
global ones. -/
theorem instrument_of_mem_members (hgroups : exportedGroups? globals selection w = some groups)
    (he : e ∈ groups) {x : Member} (hx : x ∈ e.2.members) :
    ∃ k id h, (e.1, k) ∈ (selection.scopes? w).getD [] ∧ (w.registry k).instrument? id = some h ∧
      h.kind = e.2.metadata.kind ∧ x.tags = id.tags.withDefaults globals := by
  obtain ⟨k, u, hk, hu, hg⟩ := collected_of_mem_exportedGroups hgroups he
  obtain ⟨name, hmembers⟩ := Export.exists_name_of_mem_collectGroups hg
  obtain ⟨i, hi, hkind, v, hshows⟩ := Related.exists_of_mem_right hmembers hx
  have hlive := Table.get?_of_get?_filter (Table.get?_eq_some_iff.mpr hi)
  exact ⟨k, i.1, i.2, hk, (hu k).instruments hlive, hkind, hshows.tags⟩

/-- The samples of a member are named by the slots of its metadata. -/
theorem sampleNames_singleton (scope : Scope) {metadata : Metadata} {x : Member} {i : Identity × Handle}
    (hk : i.2.kind = metadata.kind) (hx : Member.Shows x metadata globals i v) :
    (groupSamples d scope ⟨metadata, [x]⟩).map (·.name) = (slots d scope metadata).map (·.name) := by
  have hseries : (groupSamples d scope ⟨metadata, [x]⟩).map Sample.series =
      (slots d scope metadata).map (Slot.series (i.1.tags.withDefaults globals)) :=
    series_singleton hk hx
  have hnames := congrArg (List.map Series.name) hseries
  rw [List.map_map, List.map_map] at hnames
  exact hnames

/-- A group has samples with the names of the slots of its metadata, and no others. -/
theorem mem_sampleNames_iff (hg : g ∈ (Export.collectGroups k name? globals w).1) (scope : Scope)
    {n : String} :
    n ∈ (groupSamples d scope g).map (·.name) ↔ n ∈ (slots d scope g.metadata).map (·.name) := by
  obtain ⟨name, -, -, hne, hmembers⟩ :=
    Export.name_of_mem_collectGroups (P := fun _ => True) (fun _ _ _ => id) trivial hg
  have hnames : ∀ x ∈ g.members, (groupSamples d scope ⟨g.metadata, [x]⟩).map (·.name) =
      (slots d scope g.metadata).map (·.name) := by
    intro x hx
    obtain ⟨i, -, hkind, v, -, hshows⟩ := Related.exists_of_mem_right hmembers hx
    exact sampleNames_singleton scope hkind hshows
  have hperm : (groupSamples d scope g).Perm
      (g.members.flatMap fun x => groupSamples d scope ⟨g.metadata, [x]⟩) :=
    (additive_families d scope g.metadata).perm_flatMap g.members
  rw [(hperm.map _).mem_iff, List.map_flatMap, List.mem_flatMap]
  constructor
  · rintro ⟨x, hx, hn⟩
    rwa [hnames x hx] at hn
  · intro hn
    obtain ⟨x, hx⟩ : ∃ x, x ∈ g.members := by
      apply List.exists_mem_of_length_pos
      rw [← hmembers.length_eq]
      exact List.length_pos_iff.mpr hne
    exact ⟨x, hx, by rwa [hnames x hx]⟩

/-- The samples of a group have the tags of its members. -/
theorem tags_of_mem_groupSamples (hg : g ∈ (Export.collectGroups k name? globals w).1) {scope : Scope}
    {s : Sample} (hs : s ∈ groupSamples d scope g) : ∃ x ∈ g.members, s.tags = x.tags := by
  rw [(Export.groupSamples_of_mem hg d scope).mem_iff, List.mem_flatMap] at hs
  obtain ⟨x, hx, hs⟩ := hs
  obtain ⟨e, -, rfl⟩ := List.mem_map.mp hs
  exact ⟨x, hx, rfl⟩

end Groups

section Lines

/-- What holds of the lines of each family, with the description or without it, holds of the lines of a
document when it holds of all families of the exported groups. -/
theorem forall_mem_lines_iff {Q : Line → Prop} {R : Family → Prop} (hmark : Q .endMark)
    (hQ : ∀ help f, (∀ l ∈ familyLines d help f, Q l) ↔ R f)
    (hgroups : exportedGroups? settings.globalTags selection w = some groups)
    (hl : (documentLines? d settings selection w).1 = some lines) :
    (∀ l ∈ lines, Q l) ↔ ∀ e ∈ groups, ∀ f ∈ families d e.1 e.2, R f := by
  have hgroup (e : Scope × Group) :
      (∀ l ∈ groupLines d settings e.1 e.2, Q l) ↔ ∀ f ∈ families d e.1 e.2, R f := by
    unfold groupLines
    dsimp only
    cases families d e.1 e.2 with
    | nil => simp [familiesLines]
    | cons f rest => simp only [familiesLines, List.forall_mem_append, List.forall_mem_flatMap,
        List.forall_mem_cons, hQ]
  have hend : ∀ l ∈ if d.endMark then [Line.endMark] else [], Q l := by
    split
    · exact List.forall_mem_singleton.mpr hmark
    · exact List.forall_mem_nil _
  rw [documentLines?_eq, hgroups, Option.map_some, Option.some.injEq] at hl
  rw [← hl, List.forall_mem_append, List.forall_mem_flatMap]
  simp only [hgroup, and_iff_left hend]

/-- The samples of a document are those of the exported groups. -/
theorem mem_samples_iff (hgroups : exportedGroups? settings.globalTags selection w = some groups)
    (hl : (documentLines? d settings selection w).1 = some lines) {s : Sample} :
    .sample s ∈ lines ↔ ∃ e ∈ groups, s ∈ groupSamples d e.1 e.2 := by
  have hfamily (help : Option String) (f : Family) :
      (∀ l ∈ familyLines d help f, .sample s ≠ l) ↔ ∀ t ∈ f.samples, s ≠ t := by
    have hheader : ∀ l ∈ headerLines d help f, .sample s ≠ l := by
      unfold headerLines
      cases d.helpFirst <;> cases d.declaresUnits <;> cases help <;> cases f.unit <;> simp
    rw [familyLines, List.forall_mem_append, and_iff_right hheader, List.forall_mem_map]
    simp
  have hmark : Line.sample s ≠ .endMark := by simp
  have hlines := forall_mem_lines_iff hmark hfamily hgroups hl
  have hgroup (e : Scope × Group) : s ∉ groupSamples d e.1 e.2 ↔
      ∀ f ∈ families d e.1 e.2, ∀ t ∈ f.samples, s ≠ t := by
    rw [groupSamples, ← List.forall_mem_flatMap, List.forall_mem_ne]
  simp only [← hgroup] at hlines
  rw [List.forall_mem_ne] at hlines
  rw [← not_iff_not, hlines]
  simp

/-- The names in a document are those of the exported groups. -/
theorem mem_names_iff (hgroups : exportedGroups? settings.globalTags selection w = some groups)
    (hl : (documentLines? d settings selection w).1 = some lines) {n : String} :
    n ∈ lines.filterMap Line.name? ↔ ∃ e ∈ groups, n ∈ groupNames d e.1 e.2 := by
  have hfamily (help : Option String) (f : Family) :
      (∀ l ∈ familyLines d help f, n ∉ l.name?) ↔ n ≠ f.name ∧ ∀ s ∈ f.samples, n ≠ s.name := by
    have hheader : (∀ l ∈ headerLines d help f, n ∉ l.name?) ↔ n ≠ f.name := by
      unfold headerLines
      cases d.helpFirst <;> cases d.declaresUnits <;> cases help <;> cases f.unit <;>
        simp [Line.name?, eq_comm]
    rw [familyLines, List.forall_mem_append, hheader, List.forall_mem_map]
    simp [Line.name?, eq_comm]
  have hlines := forall_mem_lines_iff (Option.not_mem_none n) hfamily hgroups hl
  have hgroup (e : Scope × Group) : n ∉ groupNames d e.1 e.2 ↔
      ∀ f ∈ families d e.1 e.2, n ≠ f.name ∧ ∀ s ∈ f.samples, n ≠ s.name := by
    constructor
    · intro h f hf
      rw [groupNames, List.mem_append, not_or] at h
      refine ⟨fun hn => h.1 (hn ▸ List.mem_map_of_mem hf), fun s hs hn => h.2 ?_⟩
      exact hn ▸ List.mem_map_of_mem (List.mem_flatMap.mpr ⟨f, hf, hs⟩)
    · intro h hn
      rcases List.mem_append.mp hn with hn | hn
      · obtain ⟨f, hf, rfl⟩ := List.mem_map.mp hn
        exact (h f hf).1 rfl
      · obtain ⟨s, hs, rfl⟩ := List.mem_map.mp hn
        obtain ⟨f, hf, hs⟩ := List.mem_flatMap.mp hs
        exact (h f hf).2 s hs rfl
  simp only [← hgroup] at hlines
  rw [← not_iff_not]
  simpa using hlines

end Lines

end Telemetry.Exposition
