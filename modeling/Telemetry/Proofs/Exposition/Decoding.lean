import Telemetry.Proofs.Exposition.Reader

/-!
# Documents decode uniquely

The reader gives back what a document shows, whatever the names, units, descriptions, tags and readings
are: the families of the groups that are exported, each with its headers and its samples. Descriptions and
the values of tags come back as they were given, and tag keys as the keys of labels. So no text from outside
can add a line or a label, take one away or split one.
-/

namespace Telemetry.Exposition

open Export (Group Selection Settings)

/-- The groups of several scopes, in order. -/
def scopeGroups (globals : List Tag) (name? : Option String) (w : World) :
    List (Scope × RegistryKey) → List (Scope × Group) × World
  | [] => ([], w)
  | (scope, k) :: rest =>
    let (groups, w) := Export.collectGroups k name? globals w
    let (later, w) := scopeGroups globals name? w rest
    (groups.map (fun g => (scope, g)) ++ later, w)

/-- The groups that an export shows, with their scopes; none when the selection names a scope that is
not live. -/
def exportedGroups? (globals : List Tag) (selection : Selection) (w : World) :
    Option (List (Scope × Group)) :=
  (selection.scopes? w).map fun scopes => (scopeGroups globals selection.name? w scopes).1

/-- What a sample is to be read as: its name, its tags under the keys of labels with their values as they
are, its quantile as one more label, and its value. -/
def Sample.entry (s : Sample) : Entry :=
  .sample s.name
    (s.tags.list.map (fun t => ⟨Label.sanitizeKey t.key, t.value⟩) ++
      (s.quantile.map fun q => ⟨"quantile", Decimal.Style.document.write q⟩).toList)
    (Decimal.Style.document.write s.value)

/-- What the type of a family is to be read as. -/
def Family.typeEntry (f : Family) : Entry :=
  match f.type with
  | .counter => .type f.name "counter"
  | .gauge => .type f.name "gauge"
  | .summary => .type f.name "summary"

/-- What a family is to be read as: its type, with its unit behind it if units are declared, and its
description before or behind these if it is given one; then all its samples. -/
def Family.entries (d : Dialect) (description : Option String) (f : Family) : List Entry :=
  let unit := if d.declaresUnits then (f.unit.map (Entry.unit f.name)).toList else []
  let description := (description.map (Entry.help f.name)).toList
  let header :=
    if d.helpFirst then description ++ f.typeEntry :: unit else f.typeEntry :: unit ++ description
  header ++ f.samples.map Sample.entry

/-- What a group is to be read as, family after family: the first is given the description of the group if
descriptions are shown. -/
def groupEntries (d : Dialect) (settings : Settings) (scope : Scope) (g : Group) : List Entry :=
  match families d scope g with
  | [] => []
  | first :: rest =>
    first.entries d (if settings.help then g.metadata.description else none) ++
      rest.flatMap (Family.entries d none)

variable {d : Dialect} {settings : Settings} {selection : Selection} {w : World}

/-- The lines of a family say what it is to be read as. -/
theorem map_entry_familyLines (d : Dialect) (description : Option String) (f : Family) :
    (familyLines d description f).map Line.entry = f.entries d description := by
  have hdescription : (description.map (Line.help f.name)).toList.map Line.entry =
      (description.map (Entry.help f.name)).toList := by
    cases description <;> rfl
  have htype : (Line.type f.name f.type).entry = f.typeEntry := by
    unfold Family.typeEntry
    cases f.type <;> rfl
  have hunit : (if d.declaresUnits then (f.unit.map (Line.unit f.name)).toList else []).map Line.entry =
      if d.declaresUnits then (f.unit.map (Entry.unit f.name)).toList else [] := by
    cases d.declaresUnits <;> cases f.unit <;> rfl
  have hsamples : (f.samples.map Line.sample).map Line.entry = f.samples.map Sample.entry :=
    List.map_map
  rw [familyLines, List.map_append, hsamples, headerLines, apply_ite (List.map Line.entry)]
  simp only [List.map_append, List.map_cons, hdescription, htype, hunit, List.append_assoc,
    List.singleton_append]
  rfl

/-- The lines of a group say what it is to be read as. -/
theorem map_entry_groupLines (d : Dialect) (settings : Settings) (scope : Scope) (g : Group) :
    (groupLines d settings scope g).map Line.entry = groupEntries d settings scope g := by
  unfold groupLines groupEntries
  dsimp only
  cases families d scope g with
  | nil => rfl
  | cons first rest =>
    simp only [familiesLines, List.map_append, List.map_flatMap, map_entry_familyLines]

/-- The lines of several scopes are those of their groups. -/
theorem scopeLines_eq (d : Dialect) (settings : Settings) (name? : Option String) (w : World)
    (scopes : List (Scope × RegistryKey)) :
    scopeLines d settings name? w scopes =
      ((scopeGroups settings.globalTags name? w scopes).1.flatMap
        fun e => groupLines d settings e.1 e.2,
        (scopeGroups settings.globalTags name? w scopes).2) := by
  induction scopes generalizing w with
  | nil => rfl
  | cons e rest ih =>
    simp only [scopeLines, scopeGroups, ih, List.flatMap_append, List.flatMap_map]

/-- The lines of a document are those of the groups that are exported, and the mark at the end. -/
theorem documentLines?_eq (d : Dialect) (settings : Settings) (selection : Selection) (w : World) :
    (documentLines? d settings selection w).1 =
      (exportedGroups? settings.globalTags selection w).map fun groups =>
        groups.flatMap (fun e => groupLines d settings e.1 e.2) ++
          if d.endMark then [.endMark] else [] := by
  unfold documentLines? exportedGroups?
  cases selection.scopes? w with
  | none => rfl
  | some scopes => simp only [scopeLines_eq, Option.map_some]

/-- The lines of a family with safe names are safe. -/
theorem safe_of_mem_familyLines {f : Family} (hf : f.Safe) (help : Option String) :
    ∀ l ∈ familyLines d help f, l.Safe := by
  have hhelp : ∀ l ∈ (help.map (Line.help f.name)).toList, l.Safe := by
    intro l hl
    obtain ⟨text, -, rfl⟩ := Option.map_eq_some_iff.mp (Option.mem_toList.mp hl)
    exact hf.name
  have hunit : ∀ l ∈ (if d.declaresUnits then (f.unit.map (Line.unit f.name)).toList else []),
      l.Safe := by
    split
    · intro l hl
      obtain ⟨u, hu, rfl⟩ := Option.map_eq_some_iff.mp (Option.mem_toList.mp hl)
      exact ⟨hf.name, hf.unit u hu⟩
    · nofun
  have htype : ∀ l ∈ [Line.type f.name f.type], l.Safe := List.forall_mem_singleton.mpr hf.name
  rw [familyLines, List.forall_mem_append, List.forall_mem_map, headerLines]
  refine ⟨?_, hf.samples⟩
  split <;> simp only [List.forall_mem_append]
  · exact ⟨⟨hhelp, htype⟩, hunit⟩
  · exact ⟨⟨htype, hunit⟩, hhelp⟩

/-- The lines of a group are safe. -/
theorem safe_of_mem_groupLines (d : Dialect) (settings : Settings) (scope : Scope) (g : Group) :
    ∀ l ∈ groupLines d settings scope g, l.Safe := by
  have hsafe := safe_of_mem_families d scope g
  unfold groupLines
  dsimp only
  cases hfamilies : families d scope g with
  | nil => nofun
  | cons f rest =>
    rw [hfamilies, List.forall_mem_cons] at hsafe
    rw [familiesLines, List.forall_mem_append]
    refine ⟨safe_of_mem_familyLines hsafe.1 _, fun l hl => ?_⟩
    obtain ⟨f', hf', hl⟩ := List.mem_flatMap.mp hl
    exact safe_of_mem_familyLines (hsafe.2 f' hf') none l hl

/-- The mark at the end is no line of a family. -/
theorem endMark_not_mem_familyLines (d : Dialect) (help : Option String) (f : Family) :
    .endMark ∉ familyLines d help f := by
  unfold familyLines headerLines
  cases d.helpFirst <;> cases d.declaresUnits <;> simp

/-- The mark at the end is no line of a group. -/
theorem endMark_not_mem_groupLines (d : Dialect) (settings : Settings) (scope : Scope) (g : Group) :
    .endMark ∉ groupLines d settings scope g := by
  unfold groupLines
  dsimp only
  cases families d scope g with
  | nil => nofun
  | cons f rest =>
    simp [familiesLines, endMark_not_mem_familyLines]

/-- A header has no line feed where its parts have none. -/
theorem newline_not_mem_headerChars {word family declaration : String} (hw : '\n' ∉ word.toList)
    (hf : SafeText family) (hd : '\n' ∉ declaration.toList) :
    '\n' ∉ headerChars word family declaration := by
  have hfamily : '\n' ∉ family.toList := hf.not_mem (by decide)
  simp [headerChars, hw, hfamily, hd]

/-- Labels with commas between them have no line feed where none of them has one. -/
theorem newline_not_mem_joined {labels : List Label} (h : ∀ l ∈ labels, '\n' ∉ labelChars l) :
    '\n' ∉ ((labels.map labelChars).intersperse [',']).flatten := by
  induction labels with
  | nil => nofun
  | cons l more ih =>
    obtain ⟨hl, hmore⟩ := List.forall_mem_cons.mp h
    cases more with
    | nil => simpa using hl
    | cons l' more => simpa [List.intersperse, hl] using ih hmore

/-- A sample has no line feed. -/
theorem newline_not_mem_sampleChars {s : Sample} (hs : SafeText s.name) : '\n' ∉ s.chars := by
  have hname : '\n' ∉ s.name.toList := hs.not_mem (by decide)
  have hlabel : ∀ l ∈ s.labels, '\n' ∉ labelChars l := by
    intro l hl
    have hkey : '\n' ∉ l.key.toList := not_mem_key (by decide) l hl
    simp [labelChars, Text.Escape.labelValue, hkey, Text.Escape.newline_not_mem_encode]
  have hblock : '\n' ∉ labelBlock s.labels := by
    have hlabels := newline_not_mem_joined hlabel
    unfold labelBlock
    split <;> simp [hlabels]
  simp [Sample.chars, hname, hblock, newline_not_mem_valueText]

/-- The text of a safe line has no line feed. -/
theorem newline_not_mem_chars (d : Dialect) {l : Line} (hl : l.Safe) : '\n' ∉ l.chars d := by
  cases l with
  | help family description =>
    refine newline_not_mem_headerChars (by decide) hl ?_
    rw [Text.Escape.description, String.toList_ofList]
    exact Text.Escape.newline_not_mem_encode _ _
  | type family t => exact newline_not_mem_headerChars (by decide) hl (by cases t <;> decide)
  | unit family u => exact newline_not_mem_headerChars (by decide) hl.1 (hl.2.not_mem (by decide))
  | sample s => exact newline_not_mem_sampleChars hl
  | endMark =>
    change '\n' ∉ "# EOF".toList
    decide

/-- The text of safe lines is split into them. -/
theorem pieces_render {lines : List Line} (h : ∀ l ∈ lines, l.Safe) :
    Text.pieces '\n' (render d lines).toList = lines.map (·.chars d) ++ [[]] := by
  have hlines : ∀ cs ∈ lines.map (·.chars d), '\n' ∉ cs := by
    rw [List.forall_mem_map]
    exact fun l hl => newline_not_mem_chars d (h l hl)
  rw [← Text.pieces_lines hlines, render, String.toList_ofList, List.flatMap_map]

/-- Safe lines are read back from their text. -/
theorem document?_render {lines : List Line} (h : ∀ l ∈ lines, l.Safe) :
    Reader.document? (render d lines) = some (lines.map Line.entry) := by
  have hread : (lines.map (·.chars d)).mapM Reader.line? = some (lines.map Line.entry) := by
    rw [Text.mapM_eq_some_iff, List.map_map, List.map_map]
    exact List.map_congr_left fun l hl => Reader.line?_chars d (h l hl)
  simp only [Reader.document?, pieces_render h, List.getLast?_append, List.dropLast_concat, hread]
  rfl

/-- Only the mark at the end looks like it. -/
theorem eq_endMark_of_chars {l : Line} (hl : l.Safe) (h : l.chars d = "# EOF".toList) :
    l = .endMark := by
  have hread := Reader.line?_chars d hl
  rw [h] at hread
  have hentry : l.entry = .endMark := (Option.some.inj hread).symm
  cases l <;> trivial

/-- A document says what its families show, and nothing else: the reader gets back the exported groups in
order, family by family, each with its type and its unit, each description as it was given, and each sample
with the values of its tags as they were. A document that is marked at the end has the mark there only.
There is no document only where the selection names a scope that is not live. -/
theorem read_document (d : Dialect) (settings : Settings) (selection : Selection) (w : World) :
    match exportedGroups? settings.globalTags selection w with
    | none => (document? d settings selection w).1 = none
    | some groups =>
      ∃ text, (document? d settings selection w).1 = some text ∧
        Reader.document? text = some
          (groups.flatMap (fun e => groupEntries d settings e.1 e.2) ++
            if d.endMark then [.endMark] else []) ∧
        ∃ body, "# EOF".toList ∉ body ∧
          Text.pieces '\n' text.toList =
            body ++ (if d.endMark then ["# EOF".toList] else []) ++ [[]] := by
  have hlines := documentLines?_eq d settings selection w
  split
  · rename_i hnone
    rw [hnone] at hlines
    simp [document?, hlines]
  · rename_i groups hsome
    rw [hsome] at hlines
    let body := groups.flatMap fun e => groupLines d settings e.1 e.2
    let mark : List Line := if d.endMark then [.endMark] else []
    have hbody : ∀ l ∈ body, l.Safe ∧ l ≠ .endMark := by
      intro l hl
      obtain ⟨e, -, hl⟩ := List.mem_flatMap.mp hl
      refine ⟨safe_of_mem_groupLines d settings e.1 e.2 l hl, ?_⟩
      rintro rfl
      exact endMark_not_mem_groupLines d settings e.1 e.2 hl
    have hmark : ∀ l ∈ mark, l = .endMark := by
      simp only [mark]
      split <;> simp
    have hsafe : ∀ l ∈ body ++ mark, l.Safe := by
      rw [List.forall_mem_append]
      refine ⟨fun l hl => (hbody l hl).1, fun l hl => ?_⟩
      rw [hmark l hl]
      trivial
    refine ⟨render d (body ++ mark), ?_, ?_, body.map (·.chars d), fun h => ?_, ?_⟩
    · simp [document?, hlines, body, mark]
    · have hmarks : mark.map Line.entry = if d.endMark then [.endMark] else [] :=
        apply_ite (List.map Line.entry) _ _ _
      rw [document?_render hsafe, List.map_append, List.map_flatMap, hmarks]
      simp only [map_entry_groupLines]
    · obtain ⟨l, hl, hchars⟩ := List.mem_map.mp h
      exact (hbody l hl).2 (eq_endMark_of_chars (hbody l hl).1 hchars)
    · have hmarks : mark.map (·.chars d) = if d.endMark then ["# EOF".toList] else [] :=
        apply_ite (List.map (Line.chars d)) _ _ _
      rw [pieces_render hsafe, List.map_append, hmarks]

/-- A world with a counter whose description and whose tag have characters that are escaped. -/
def worldOfPaths : World :=
  let w := ((World.start 1).init "s").2
  let paths : Metadata :=
    { Metadata.ofKind "hits" .counter with description := some "by \"path\"\nor C:\\" }
  (w.registering ⟨0⟩ fun r store =>
    r.instrument .counter (.metadata paths) [⟨"url-path", "a\"b\\\n,c"⟩] (w.factory (.counter 0)) store).2

/-- A description and a value come back with their quotation marks, backslashes and line feeds. -/
theorem read_document_paths :
    ∃ text, (document? .openMetrics .default .all worldOfPaths).1 = some text ∧
      Reader.document? text = some
        [.type "s:hits" "counter", .help "s:hits" "by \"path\"\nor C:\\",
          .sample "s:hits_total" [⟨"url_path", "a\"b\\\n,c"⟩] "0.0", .endMark] := by
  have hshown : (exportedGroups? [] .all worldOfPaths).map
      (·.flatMap fun e => groupEntries .openMetrics .default e.1 e.2) =
        some [.type "s:hits" "counter", .help "s:hits" "by \"path\"\nor C:\\",
          .sample "s:hits_total" [⟨"url_path", "a\"b\\\n,c"⟩] "0.0"] := by decide +kernel
  obtain ⟨groups, hgroups, hentries⟩ := Option.map_eq_some_iff.mp hshown
  have hread := read_document .openMetrics .default .all worldOfPaths
  have hgroups : exportedGroups? Settings.default.globalTags .all worldOfPaths = some groups := hgroups
  rw [hgroups] at hread
  obtain ⟨text, htext, hread, -⟩ := hread
  rw [hentries] at hread
  exact ⟨text, htext, hread⟩

end Telemetry.Exposition
