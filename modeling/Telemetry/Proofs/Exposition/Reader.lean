import Telemetry.Exposition.Document
import Telemetry.Proofs.Decimal.Style
import Telemetry.Proofs.Exposition.Names
import Telemetry.Proofs.Text.Reading

/-!
# A reader of text documents

Documents are read without knowledge of what was written: a document is split at line feeds, a line
that begins with a number sign and a blank is a header or the mark at the end, and every other line
is a name, labels in braces if there are any, and a value. Escapes are undone. A line of safe names
is read as what it says, and its text has no line feed, so the same holds of whole documents.
-/

namespace Telemetry.Exposition

/-- What a line of a document says, as it can be read from its text. -/
inductive Entry where
  | help (family description : String)
  | type (family type : String)
  | unit (family unit : String)
  /-- A name with labels and the text of a value. -/
  | sample (name : String) (labels : List Label) (value : String)
  | endMark
  deriving DecidableEq, Repr

/-- What a line says. -/
def Line.entry : Line → Entry
  | .help family description => .help family description
  | .type family t => .type family t.word
  | .unit family u => .unit family u
  | .sample s => .sample s.name s.labels (valueText s.value)
  | .endMark => .endMark

namespace Reader

/-- Read one label. Answers it and what follows its closing quotation mark. -/
def label? (cs : List Char) : Option (Label × List Char) :=
  match Text.cut? '=' cs with
  | some (key, '"' :: quoted) =>
    (Text.Escape.quoted? quoted).map fun p => (⟨String.ofList key, String.ofList p.1⟩, p.2)
  | _ => none

/-- What follows a label is shorter than the whole. -/
theorem length_lt_of_label? {cs rest : List Char} {l : Label} (h : label? cs = some (l, rest)) :
    rest.length < cs.length := by
  unfold label? at h
  split at h
  · rename_i key quoted hcut
    obtain ⟨p, hquoted, he⟩ := Option.map_eq_some_iff.mp h
    obtain ⟨-, rfl⟩ := Prod.mk.inj he
    have hrest := Text.Escape.length_lt_of_quoted? hquoted
    rw [← Text.append_of_cut? hcut, List.length_append, List.length_cons, List.length_cons]
    omega
  · contradiction

/-- Read labels up to the closing brace. Answers them and what follows the brace. -/
def labels? (cs : List Char) : Option (List Label × List Char) :=
  match h : label? cs with
  | some (l, ',' :: rest) =>
    have : rest.length < cs.length := Nat.lt_of_succ_lt (length_lt_of_label? h)
    (labels? rest).map fun p => (l :: p.1, p.2)
  | some (l, '\x7d' :: rest) => some ([l], rest)
  | _ => none
termination_by cs.length

/-- Whether a character belongs to the name that a line begins with. -/
def inName (c : Char) : Bool := c != '\x7b' && c != ' '

/-- Read a name, labels and a value. -/
def sample? (cs : List Char) : Option Entry :=
  let name := String.ofList (cs.takeWhile inName)
  match cs.dropWhile inName with
  | ' ' :: value => some (.sample name [] (String.ofList value))
  | '\x7b' :: block =>
    match labels? block with
    | some (labels, ' ' :: value) => some (.sample name labels (String.ofList value))
    | _ => none
  | _ => none

/-- Read what follows a number sign and a blank. -/
def header? (cs : List Char) : Option Entry :=
  if cs = "EOF".toList then some .endMark
  else
    match Text.cut? ' ' cs with
    | none => none
    | some (word, rest) =>
      match Text.cut? ' ' rest with
      | none => none
      | some (family, declaration) =>
        let family := String.ofList family
        if word = "HELP".toList then
          some (.help family (String.ofList (Text.Escape.decode declaration)))
        else if word = "TYPE".toList then some (.type family (String.ofList declaration))
        else if word = "UNIT".toList then some (.unit family (String.ofList declaration))
        else none

/-- Read one line. -/
def line? : List Char → Option Entry
  | '#' :: ' ' :: rest => header? rest
  | cs => sample? cs

/-- Read a document: each of its lines ends with a line feed. -/
def document? (text : String) : Option (List Entry) :=
  let lines := Text.pieces '\n' text.toList
  if lines.getLast? = some [] then lines.dropLast.mapM line? else none

end Reader

/-- A line whose names are safe. -/
def Line.Safe : Line → Prop
  | .help family _ | .type family _ => SafeText family
  | .unit family u => SafeText family ∧ SafeText u
  | .sample s => SafeText s.name
  | .endMark => True

section Characters

variable {s : String} {c : Char}

/-- The texts of values are plain. -/
theorem newline_not_mem_valueText (x : Float) : '\n' ∉ (valueText x).toList := fun h => by
  have hplain := Decimal.isPlain_of_mem_write_document x _ h
  contradiction

/-- What no safe text has. -/
theorem SafeText.not_mem (hs : SafeText s) (hc : Name.isSafe c = false) : c ∉ s.toList := fun h => by
  rw [hs c h] at hc
  contradiction

/-- The keys of labels have no character that a key may not go on with. -/
theorem isPart_of_mem_sanitizeKey (h : c ∈ (Label.sanitizeKey s).toList) : Label.isPart c = true := by
  have hstart (x : Char) : Label.isPart (Label.keepIf Label.isStart x) = true := by
    unfold Label.keepIf
    split
    · rename_i hx
      simp only [Label.isStart, Bool.or_eq_true] at hx
      simp only [Label.isPart, Char.isAlphanum, Bool.or_eq_true]
      exact hx.imp_left Or.inl
    · decide
  have hpart (x : Char) : Label.isPart (Label.keepIf Label.isPart x) = true := by
    unfold Label.keepIf
    split
    · assumption
    · decide
  unfold Label.sanitizeKey at h
  split at h
  · simp at h
  · rw [String.toList_ofList] at h
    rcases List.mem_cons.mp h with rfl | h
    · exact hstart _
    · obtain ⟨x, -, rfl⟩ := List.mem_map.mp h
      exact hpart x

/-- Keys as they are written have only characters that a key may go on with. -/
theorem isPart_of_mem_key {s : Sample} {l : Label} (hl : l ∈ s.labels) :
    ∀ c ∈ l.key.toList, Label.isPart c = true := by
  rcases List.mem_append.mp hl with hl | hl
  · obtain ⟨t, -, rfl⟩ := List.mem_map.mp hl
    exact fun c hc => isPart_of_mem_sanitizeKey hc
  · obtain ⟨q, -, rfl⟩ := Option.map_eq_some_iff.mp (Option.mem_toList.mp hl)
    change ∀ c ∈ quantileKey.toList, Label.isPart c = true
    exact List.all_eq_true.mp (by decide)

/-- What no key as it is written has. -/
theorem not_mem_key {s : Sample} (hc : Label.isPart c = false) :
    ∀ l ∈ s.labels, c ∉ l.key.toList := by
  intro l hl h
  rw [isPart_of_mem_key hl c h] at hc
  contradiction

end Characters

namespace Reader

/-- A written label is read back, whatever follows. -/
theorem label?_append {l : Label} (hl : '=' ∉ l.key.toList) (rest : List Char) :
    label? (labelChars l ++ rest) = some (l, rest) := by
  have hcut : Text.cut? '=' (labelChars l ++ rest) =
      some (l.key.toList, '"' :: (Text.Escape.encode true l.value.toList ++ '"' :: rest)) := by
    rw [← Text.cut?_append hl]
    simp [labelChars, Text.Escape.labelValue]
  rw [label?, hcut]
  simp [Text.Escape.quoted?_encode]

/-- After a comma reading goes on with the next label. -/
theorem labels?_of_comma {cs rest : List Char} {l : Label} (h : label? cs = some (l, ',' :: rest)) :
    labels? cs = (labels? rest).map fun p => (l :: p.1, p.2) := by
  rw [labels?]
  split <;> simp_all

/-- After a brace there are no more labels. -/
theorem labels?_of_brace {cs rest : List Char} {l : Label}
    (h : label? cs = some (l, '\x7d' :: rest)) : labels? cs = some ([l], rest) := by
  rw [labels?]
  split <;> simp_all

/-- Written labels are read back up to the closing brace, whatever follows. -/
theorem labels?_append {labels : List Label} (hne : labels ≠ [])
    (hkeys : ∀ l ∈ labels, '=' ∉ l.key.toList) (rest : List Char) :
    labels? (((labels.map labelChars).intersperse [',']).flatten ++ '\x7d' :: rest) =
      some (labels, rest) := by
  induction labels with
  | nil => contradiction
  | cons l more ih =>
    have hl := hkeys l List.mem_cons_self
    cases more with
    | nil =>
      have hlabel := label?_append hl ('\x7d' :: rest)
      simpa using labels?_of_brace hlabel
    | cons l' more =>
      have hmore := ih (List.cons_ne_nil _ _) fun m hm => hkeys m (List.mem_cons_of_mem _ hm)
      have hlabel := label?_append hl
        (',' :: ((((l' :: more).map labelChars).intersperse [',']).flatten ++ '\x7d' :: rest))
      have hread := labels?_of_comma hlabel
      rw [hmore] at hread
      simpa [List.intersperse] using hread

/-- A name is read up to the first character that does not belong to it. -/
theorem span_inName {name : String} (hn : SafeText name) {c : Char} (hc : inName c = false)
    (rest : List Char) :
    (name.toList ++ c :: rest).takeWhile inName = name.toList ∧
      (name.toList ++ c :: rest).dropWhile inName = c :: rest := by
  have hin : ∀ x ∈ name.toList, inName x = true := by
    intro x hx
    have hbrace : x ≠ '\x7b' := fun h => hn.not_mem (by decide) (h ▸ hx)
    have hblank : x ≠ ' ' := fun h => hn.not_mem (by decide) (h ▸ hx)
    simp [inName, hbrace, hblank]
  rw [List.takeWhile_append_of_pos hin, List.dropWhile_append_of_pos hin]
  simp [hc]

/-- A sample without labels is its name and its value. -/
theorem chars_of_no_labels {s : Sample} (hl : s.labels = []) :
    s.chars = s.name.toList ++ ' ' :: (valueText s.value).toList := by
  simp [Sample.chars, labelBlock, hl]

/-- A sample with labels has them in braces. -/
theorem chars_of_labels {s : Sample} (hl : s.labels ≠ []) :
    s.chars = s.name.toList ++ '\x7b' ::
      (((s.labels.map labelChars).intersperse [',']).flatten ++
        '\x7d' :: ' ' :: (valueText s.value).toList) := by
  simp [Sample.chars, labelBlock, hl]

/-- A written sample is read back. -/
theorem sample?_chars {s : Sample} (hs : SafeText s.name) :
    sample? s.chars = some (.sample s.name s.labels (valueText s.value)) := by
  by_cases hl : s.labels = []
  · obtain ⟨htake, hdrop⟩ := span_inName hs (c := ' ') rfl (valueText s.value).toList
    simp only [sample?, chars_of_no_labels hl, htake, hdrop, String.ofList_toList, hl]
  · obtain ⟨htake, hdrop⟩ := span_inName hs (c := '\x7b') rfl
      (((s.labels.map labelChars).intersperse [',']).flatten ++
        '\x7d' :: ' ' :: (valueText s.value).toList)
    simp only [sample?, chars_of_labels hl, htake, hdrop,
      labels?_append hl (not_mem_key (by decide)), String.ofList_toList]

/-- A written header is read by its word. -/
theorem header?_append (word : String) {family : String} (hword : ' ' ∉ word.toList)
    (hf : SafeText family) (declaration : String) :
    header? (word.toList ++ ' ' :: (family.toList ++ ' ' :: declaration.toList)) =
      if word.toList = "HELP".toList then
        some (.help family (String.ofList (Text.Escape.decode declaration.toList)))
      else if word.toList = "TYPE".toList then some (.type family declaration)
      else if word.toList = "UNIT".toList then some (.unit family declaration)
      else none := by
  have hmark : word.toList ++ ' ' :: (family.toList ++ ' ' :: declaration.toList) ≠
      "EOF".toList := by
    intro h
    have hblank : ' ' ∈ "EOF".toList := by
      rw [← h]
      simp
    exact absurd hblank (by decide)
  simp only [header?, if_neg hmark, Text.cut?_append hword,
    Text.cut?_append (hf.not_mem (show Name.isSafe ' ' = false by decide)), String.ofList_toList]

/-- A sample does not begin like a header. -/
theorem chars_ne_header {s : Sample} (hs : SafeText s.name) (rest : List Char) :
    s.chars ≠ '#' :: rest := by
  intro h
  have hname : s.chars.takeWhile inName = s.name.toList := by
    by_cases hl : s.labels = []
    · rw [chars_of_no_labels hl]
      exact (span_inName hs (c := ' ') rfl _).1
    · rw [chars_of_labels hl]
      exact (span_inName hs (c := '\x7b') rfl _).1
  have hmem : '#' ∈ s.name.toList := by
    rw [← hname, h, List.takeWhile_cons_of_pos rfl]
    exact List.mem_cons_self
  exact hs.not_mem (by decide) hmem

/-- A line of safe names is read as what it says. -/
theorem line?_chars (d : Dialect) {l : Line} (hl : l.Safe) : line? (l.chars d) = some l.entry := by
  cases l with
  | help family description =>
    have hread := header?_append "HELP" (by decide) hl
      (Text.Escape.description d.escapesQuotes description)
    have hdecode : Text.Escape.decode
        (Text.Escape.description d.escapesQuotes description).toList = description.toList := by
      rw [Text.Escape.description, String.toList_ofList, Text.Escape.decode_encode]
    rw [hdecode, String.ofList_toList] at hread
    exact hread
  | type family t => exact header?_append "TYPE" (by decide) hl t.word
  | unit family u => exact header?_append "UNIT" (by decide) hl.1 u
  | sample s =>
    have hline : line? s.chars = sample? s.chars := by
      unfold line?
      split
      · rename_i rest h
        exact absurd h (chars_ne_header hl _)
      · rfl
    exact hline.trans (sample?_chars hl)
  | endMark => rfl

end Reader

end Telemetry.Exposition
