import Mathlib.Data.List.Forall2
import Telemetry.Proofs.Tag.Segments
import Telemetry.Proofs.Text.Blank
import Telemetry.Proofs.Text.Letters
import Telemetry.Proofs.Text.Reading

/-!
# What tag expressions say

The expressions that are read are those of blank characters and those whose segments each write a tag: a
word with blank characters around it, the first equals sign of the segment, and a value. The tags are
those of the segments, in order, and the fault of any other expression is that of the first segment
which writes none. The expression of a list of tags is read back as this list.
-/

namespace Telemetry.Tag

/-- A word: a letter or an underscore, then letters, digits and underscores. -/
def IsWord (cs : List Char) : Prop :=
  ∃ c rest, cs = c :: rest ∧ (c.isAlpha = true ∨ c = '_') ∧ ∀ d ∈ rest, d.isAlphanum = true ∨ d = '_'

/-- A segment writes a tag: before its first equals sign stands a word, but for blank characters around
it, and this is the key; what follows is the value. -/
def Spells (segment : List Char) (t : Tag) : Prop :=
  ∃ before, segment = before ++ '=' :: t.value.toList ∧ '=' ∉ before ∧
    Text.Trimmed before t.key.toList ∧ IsWord t.key.toList

/-- What is wrong with a segment that writes no tag. -/
inductive Faulty (segment : List Char) : SegmentFault → Prop
  | notAPair : '=' ∉ segment → Faulty segment (.notAPair (String.ofList segment))
  | emptyKey {before value : List Char} : segment = before ++ '=' :: value → '=' ∉ before →
    (∀ c ∈ before, Text.isBlank c = true) → Faulty segment (.emptyKey (String.ofList segment))
  | invalidKey {before value key : List Char} : segment = before ++ '=' :: value → '=' ∉ before →
    Text.Trimmed before key → key ≠ [] → ¬ IsWord key →
    Faulty segment (.invalidKey (String.ofList key))

variable {segment : List Char} {t u : Tag} {ts : List Tag} {s : String}

section Words

variable {c : Char} {cs : List Char}

/-- Label keys are the words. -/
theorem isKey_iff : Label.isKey s = true ↔ IsWord s.toList := by
  unfold Label.isKey IsWord
  cases s.toList with
  | nil => simp
  | cons c rest => simp [Label.isStart, Label.isPart]

/-- A word is made of letters, digits and underscores. -/
theorem IsWord.isPart (h : IsWord cs) : ∀ c ∈ cs, Label.isPart c = true := by
  obtain ⟨c, rest, rfl, hfirst, hrest⟩ := h
  have hfirst : Label.isPart c = true := by
    rcases hfirst with halpha | rfl
    · simp [Label.isPart, Char.isAlphanum, halpha]
    · rfl
  exact List.forall_mem_cons.mpr ⟨hfirst, fun d hd => by simpa [Label.isPart] using hrest d hd⟩

/-- Letters, digits and underscores are not blank. -/
theorem isBlank_of_isPart (h : Label.isPart c = true) : Text.isBlank c = false := by
  have hbounds : 48 ≤ c.toNat ∧ c.toNat ≤ 122 := by
    simp only [Label.isPart, Text.isAlphanum_eq, Bool.or_eq_true, beq_iff_eq, Text.isUpper_iff,
      Text.isLower_iff, Text.isDigit_iff] at h
    rcases h with h | rfl
    · omega
    · decide
  have hranges : ∀ r ∈ Text.blankRanges, r.2 < 48 ∨ 122 < r.1 := by decide
  rw [Text.isBlank, List.any_eq_false]
  intro r hr
  have hr := hranges r hr
  simp only [Bool.and_eq_true, decide_eq_true_eq]
  omega

/-- What no word has. -/
theorem IsWord.not_mem (h : IsWord cs) (hc : Label.isPart c = false) : c ∉ cs := by
  intro hmem
  rw [h.isPart c hmem] at hc
  contradiction

/-- A word has a character. -/
theorem IsWord.ne_nil (h : IsWord cs) : cs ≠ [] := by
  obtain ⟨c, rest, rfl, -⟩ := h
  exact List.cons_ne_nil c rest

/-- Nothing of a word is trimmed away. -/
theorem IsWord.trimmed (h : IsWord cs) : Text.Trimmed cs cs :=
  Text.trim_eq_iff.mp (Text.trim_eq_self fun c hc => isBlank_of_isPart (h.isPart c hc))

end Words

section Segments

variable {before value : List Char}

/-- A segment without an equals sign is no pair. -/
theorem ofSegment_of_not_mem (h : '=' ∉ segment) :
    ofSegment segment = .error (.notAPair (String.ofList segment)) := by
  rw [ofSegment, Text.cut?_eq_none_iff.mpr h]

/-- A segment with an equals sign has what is left of the text before the first one for its key. -/
theorem ofSegment_append {key : List Char} (h : '=' ∉ before) (hkey : Text.Trimmed before key)
    (value : List Char) :
    ofSegment (before ++ '=' :: value) =
      if key = [] then .error (.emptyKey (String.ofList (before ++ '=' :: value)))
      else if Label.isKey (String.ofList key) then .ok ⟨String.ofList key, String.ofList value⟩
      else .error (.invalidKey (String.ofList key)) := by
  rw [ofSegment, Text.cut?_append h]
  simp [hkey.trim_eq, String.isEmpty_iff]

/-- A segment has no equals sign, or a first one and a key before it. -/
theorem segment_cases (segment : List Char) : '=' ∉ segment ∨ ∃ before value key,
    segment = before ++ '=' :: value ∧ '=' ∉ before ∧ Text.Trimmed before key := by
  cases hcut : Text.cut? '=' segment with
  | none => exact .inl (Text.cut?_eq_none_iff.mp hcut)
  | some p =>
    obtain ⟨hsegment, hbefore⟩ := Text.cut?_eq_some_iff.mp hcut
    exact .inr ⟨p.1, p.2, Text.trim p.1, hsegment, hbefore, Text.trimmed_trim p.1⟩

/-- The key of a tag that a segment writes is a word. -/
theorem Spells.isWord (h : Spells segment t) : IsWord t.key.toList := by
  obtain ⟨-, -, -, -, hword⟩ := h
  exact hword

/-- The tag that is read from a segment is the one that the segment writes. -/
theorem ofSegment_eq_ok_iff : ofSegment segment = .ok t ↔ Spells segment t := by
  constructor
  · intro h
    rcases segment_cases segment with hnone | ⟨before, value, key, rfl, hbefore, hkey⟩
    · rw [ofSegment_of_not_mem hnone] at h
      contradiction
    rw [ofSegment_append hbefore hkey] at h
    split at h
    · contradiction
    split at h
    · rename_i hword
      rw [isKey_iff, String.toList_ofList] at hword
      obtain rfl := Except.ok.inj h
      simp only [Spells, String.toList_ofList]
      exact ⟨before, rfl, hbefore, hkey, hword⟩
    · contradiction
  · rintro ⟨before, rfl, hbefore, hkey, hword⟩
    rw [ofSegment_append hbefore hkey, if_neg hword.ne_nil, String.ofList_toList,
      if_pos (isKey_iff.mpr hword), String.ofList_toList]

/-- The fault that is found in a segment is what is wrong with it. -/
theorem ofSegment_eq_error_iff {fault : SegmentFault} :
    ofSegment segment = .error fault ↔ Faulty segment fault := by
  constructor
  · intro h
    rcases segment_cases segment with hnone | ⟨before, value, key, rfl, hbefore, hkey⟩
    · rw [ofSegment_of_not_mem hnone] at h
      exact Except.error.inj h ▸ .notAPair hnone
    rw [ofSegment_append hbefore hkey] at h
    split at h
    · rename_i hempty
      subst hempty
      exact Except.error.inj h ▸ .emptyKey rfl hbefore (Text.trimmed_nil_iff.mp hkey)
    rename_i hempty
    split at h
    · contradiction
    · rename_i hword
      rw [isKey_iff, String.toList_ofList] at hword
      exact Except.error.inj h ▸ .invalidKey rfl hbefore hkey hempty hword
  · intro h
    cases h with
    | notAPair hnone => exact ofSegment_of_not_mem hnone
    | emptyKey hsegment hbefore hblank =>
      rw [hsegment, ofSegment_append hbefore (Text.trimmed_nil_iff.mpr hblank), if_pos rfl]
    | @invalidKey before value key hsegment hbefore hkey hempty hword =>
      rw [← String.toList_ofList (l := key), ← isKey_iff] at hword
      rw [hsegment, ofSegment_append hbefore hkey, if_neg hempty, if_neg hword]

end Segments

section Expressions

/-- An expression of blank characters has no tags. -/
theorem parseExpression_of_blank (h : ∀ c ∈ s.toList, Text.isBlank c = true) :
    parseExpression s = .ok [] := by
  rw [parseExpression, if_pos (List.all_eq_true.mpr h)]

/-- Any other expression is read segment by segment. -/
theorem parseExpression_of_not_blank (h : ¬ ∀ c ∈ s.toList, Text.isBlank c = true) :
    parseExpression s = ((segments s.toList).mapM ofSegment).mapError fun fault => ⟨s, fault⟩ := by
  rw [parseExpression, if_neg (mt List.all_eq_true.mp h)]

/-- An expression of blank characters is one segment, which writes no tag. -/
theorem not_blank_of_spells (h : List.Forall₂ Spells (segments s.toList) ts) :
    ¬ ∀ c ∈ s.toList, Text.isBlank c = true := by
  intro hblank
  have hcomma : ',' ∉ s.toList := Text.not_mem_of_blank (by decide) hblank
  have hone := segments_escapeCommas s.toList
  rw [escapeCommas_of_not_mem hcomma] at hone
  rw [hone] at h
  obtain ⟨t, -, hspells, -, -⟩ := List.forall₂_cons_left_iff.mp h
  obtain ⟨before, hsegment, -⟩ := hspells
  have hequals : '=' ∈ s.toList := hsegment ▸ List.mem_append_right before List.mem_cons_self
  exact Text.not_mem_of_blank (by decide) hblank hequals

/-- The tags that are read are those which the segments write, in order. -/
theorem parseExpression_eq_ok_iff : parseExpression s = .ok ts ↔
    (∀ c ∈ s.toList, Text.isBlank c = true) ∧ ts = [] ∨ List.Forall₂ Spells (segments s.toList) ts := by
  by_cases hblank : ∀ c ∈ s.toList, Text.isBlank c = true
  · rw [parseExpression_of_blank hblank]
    constructor
    · intro h
      exact .inl ⟨hblank, (Except.ok.inj h).symm⟩
    · rintro (⟨-, rfl⟩ | h)
      · rfl
      · exact absurd hblank (not_blank_of_spells h)
  · have hread : (segments s.toList).mapM ofSegment = .ok ts ↔
        List.Forall₂ Spells (segments s.toList) ts := by
      rw [Text.mapM_eq_ok_iff, ← List.forall₂_eq_eq_eq, List.forall₂_map_left_iff,
        List.forall₂_map_right_iff]
      simp only [ofSegment_eq_ok_iff]
    rw [parseExpression_of_not_blank hblank, ← hread]
    cases (segments s.toList).mapM ofSegment with
    | error fault => simp [Except.mapError, hblank]
    | ok us => simp [Except.mapError, hblank]

/-- The fault of an expression is that of the first segment which writes no tag. -/
theorem parseExpression_eq_error_iff {e : MalformedExpression} : parseExpression s = .error e ↔
    e.input = s ∧ (∃ c ∈ s.toList, Text.isBlank c = false) ∧
      ∃ done segment rest, segments s.toList = done ++ segment :: rest ∧
        (∀ d ∈ done, ∃ t, Spells d t) ∧ Faulty segment e.fault := by
  by_cases hblank : ∀ c ∈ s.toList, Text.isBlank c = true
  · have hnone : ¬ ∃ c ∈ s.toList, Text.isBlank c = false := by simpa using hblank
    simp [parseExpression_of_blank hblank, hnone]
  · have hsome : ∃ c ∈ s.toList, Text.isBlank c = false := by simpa using hblank
    have hread : (segments s.toList).mapM ofSegment = .error e.fault ↔
        ∃ done segment rest, segments s.toList = done ++ segment :: rest ∧
          (∀ d ∈ done, ∃ t, Spells d t) ∧ Faulty segment e.fault := by
      rw [Text.mapM_eq_error_iff]
      simp only [ofSegment_eq_ok_iff, ofSegment_eq_error_iff]
    rw [parseExpression_of_not_blank hblank, ← hread]
    obtain ⟨input, fault⟩ := e
    cases (segments s.toList).mapM ofSegment with
    | error fault' => simp [Except.mapError, hsome, eq_comm (a := s)]
    | ok us => simp [Except.mapError]

/-- There are tags which segments write when each segment writes one. -/
theorem exists_forall₂_spells_iff {parts : List (List Char)} :
    (∃ ts, List.Forall₂ Spells parts ts) ↔ ∀ part ∈ parts, ∃ t, Spells part t := by
  induction parts with
  | nil => simp
  | cons part rest ih =>
    rw [List.forall_mem_cons, ← ih]
    constructor
    · rintro ⟨ts, h⟩
      obtain ⟨t, us, ht, hus, rfl⟩ := List.forall₂_cons_left_iff.mp h
      exact ⟨⟨t, ht⟩, us, hus⟩
    · rintro ⟨⟨t, ht⟩, us, hus⟩
      exact ⟨t :: us, .cons ht hus⟩

/-- Every expression is cut in one way at the commas that no backslash stands right before; its segments
are what lies between, without the backslashes before other commas. It is read exactly when it is blank
or each segment writes a tag: then the tags are none, or those of the segments in order. Otherwise the
refusal has the expression itself, and the fault of the first segment which writes no tag. -/
theorem parseExpression_grammar (s : String) :
    ∃ raws, (∀ others, Cut s.toList others ↔ others = raws) ∧
      let parts := raws.map unescapeCommas
      ((∃ ts, parseExpression s = .ok ts) ↔
        (∀ c ∈ s.toList, Text.isBlank c = true) ∨ ∀ part ∈ parts, ∃ t, Spells part t) ∧
      (∀ ts, parseExpression s = .ok ts ↔
        (∀ c ∈ s.toList, Text.isBlank c = true) ∧ ts = [] ∨ List.Forall₂ Spells parts ts) ∧
      ∀ e, parseExpression s = .error e ↔
        e.input = s ∧ (∃ c ∈ s.toList, Text.isBlank c = false) ∧
          ∃ done part rest, parts = done ++ part :: rest ∧
            (∀ d ∈ done, ∃ t, Spells d t) ∧ Faulty part e.fault := by
  refine ⟨(segments s.toList).map escapeCommas, fun others => cut_iff, ?_⟩
  have hparts : ((segments s.toList).map escapeCommas).map unescapeCommas = segments s.toList := by
    have hid : unescapeCommas ∘ escapeCommas = id := funext unescapeCommas_escapeCommas
    rw [List.map_map, hid, List.map_id]
  simp only [hparts]
  have hread : (∃ ts, parseExpression s = .ok ts) ↔
      (∀ c ∈ s.toList, Text.isBlank c = true) ∨ ∀ part ∈ segments s.toList, ∃ t, Spells part t := by
    simp only [parseExpression_eq_ok_iff, exists_or, exists_and_left, exists_eq, and_true,
      exists_forall₂_spells_iff]
  exact ⟨hread, fun ts => parseExpression_eq_ok_iff, fun e => parseExpression_eq_error_iff⟩

end Expressions

section Writing

/-- The segment of a tag is its text with the commas escaped, if its key has none. -/
theorem toSegment_eq (h : ',' ∉ t.key.toList) : t.toSegment = escapeCommas t.text.toList := by
  rw [text, String.toList_append, String.toList_append, escapeCommas_append, escapeCommas_append,
    escapeCommas_of_not_mem h, List.append_assoc]
  rfl

/-- The text of a tag ends in a backslash when its value does. -/
theorem getLast?_text_eq_iff :
    t.text.toList.getLast? = some '\\' ↔ t.value.toList.getLast? = some '\\' := by
  rw [text, String.toList_append, List.getLast?_append, String.toList_append, List.getLast?_append]
  cases t.value.toList.getLast? with
  | none => simp
  | some c => simp

/-- The text of a tag whose key is a word writes the tag. -/
theorem spells_text (h : IsWord t.key.toList) : Spells t.text.toList t := by
  refine ⟨t.key.toList, ?_, h.not_mem rfl, h.trimmed, h⟩
  rw [text, String.toList_append, String.toList_append, List.append_assoc]
  rfl

/-- The expression of several tags is the segment of the first, a comma, and that of the others. -/
theorem expression_cons_cons (t u : Tag) (ts : List Tag) :
    (expression (t :: u :: ts)).toList = t.toSegment ++ ',' :: (expression (u :: ts)).toList := by
  simp [expression, Text.join]

/-- The expression of one tag is one segment. -/
theorem segments_expression_singleton (hkey : ',' ∉ t.key.toList) :
    segments (expression [t]).toList = [t.text.toList] := by
  simp [expression, Text.join, toSegment_eq hkey, segments_escapeCommas]

/-- The first tag is a segment when its value does not end in a backslash. -/
theorem segments_expression_cons_cons (hkey : ',' ∉ t.key.toList)
    (hend : t.value.toList.getLast? ≠ some '\\') (u : Tag) (ts : List Tag) :
    segments (expression (t :: u :: ts)).toList =
      t.text.toList :: segments (expression (u :: ts)).toList := by
  rw [expression_cons_cons, toSegment_eq hkey,
    segments_escapeCommas_comma (mt getLast?_text_eq_iff.mp hend)]

/-- Otherwise it is no segment of its own. -/
theorem length_segments_expression_cons_cons (hkey : ',' ∉ t.key.toList)
    (hend : t.value.toList.getLast? = some '\\') (u : Tag) (ts : List Tag) :
    (segments (expression (t :: u :: ts)).toList).length =
      (segments (expression (u :: ts)).toList).length := by
  obtain ⟨front, hfront⟩ := List.getLast?_eq_some_iff.mp (getLast?_text_eq_iff.mpr hend)
  obtain ⟨part, parts, hparts⟩ := List.exists_cons_of_ne_nil
    (segments_ne_nil (expression (u :: ts)).toList)
  rw [expression_cons_cons, toSegment_eq hkey, hfront, segments_escapeCommas_backslash, hparts,
    foldr_intoFirst, List.length_cons, List.length_cons]

/-- The expression of tags without commas in their keys has as many segments as there are tags, less
those for values, but the last, that end in a backslash. -/
theorem length_segments_expression (hne : ts ≠ []) (hkeys : ∀ t ∈ ts, ',' ∉ t.key.toList) :
    (segments (expression ts).toList).length +
      ts.dropLast.countP (fun t => t.value.toList.getLast? = some '\\') = ts.length := by
  induction ts with
  | nil => contradiction
  | cons t rest ih =>
    obtain ⟨hkey, hrest⟩ := List.forall_mem_cons.mp hkeys
    cases rest with
    | nil =>
      rw [segments_expression_singleton hkey]
      rfl
    | cons u more =>
      have hmore := ih (List.cons_ne_nil u more) hrest
      rw [List.dropLast_cons_cons, List.length_cons, ← hmore]
      by_cases hend : t.value.toList.getLast? = some '\\'
      · rw [List.countP_cons_of_pos (by simpa using hend),
          length_segments_expression_cons_cons hkey hend]
        omega
      · rw [List.countP_cons_of_neg (by simpa using hend), segments_expression_cons_cons hkey hend,
          List.length_cons]
        omega

/-- The segments of an expression are the texts of its tags, if no value but the last ends in a
backslash. -/
theorem segments_expression (hne : ts ≠ []) (hkeys : ∀ t ∈ ts, ',' ∉ t.key.toList)
    (hends : ∀ t ∈ ts.dropLast, t.value.toList.getLast? ≠ some '\\') :
    segments (expression ts).toList = ts.map fun t => t.text.toList := by
  induction ts with
  | nil => contradiction
  | cons t rest ih =>
    obtain ⟨hkey, hrest⟩ := List.forall_mem_cons.mp hkeys
    cases rest with
    | nil => exact segments_expression_singleton hkey
    | cons u more =>
      rw [List.dropLast_cons_cons] at hends
      obtain ⟨hend, hends⟩ := List.forall_mem_cons.mp hends
      rw [segments_expression_cons_cons hkey hend, ih (List.cons_ne_nil u more) hrest hends]
      rfl

/-- The expression of a list of tags is read as this list exactly if each key is a word and no value but
that of the last tag ends in a backslash. -/
theorem parseExpression_expression_iff (ts : List Tag) :
    parseExpression (expression ts) = .ok ts ↔
      (∀ t ∈ ts, Label.isKey t.key = true) ∧
        ∀ t ∈ ts.dropLast, t.value.toList.getLast? ≠ some '\\' := by
  rw [parseExpression_eq_ok_iff]
  by_cases hne : ts = []
  · subst hne
    simp [expression, Text.join]
  constructor
  · rintro (⟨-, hnil⟩ | hread)
    · exact absurd hnil hne
    have hwords : ∀ t ∈ ts, IsWord t.key.toList := by
      have hflip := hread.flip.imp fun t part (h : Spells part t) => And.intro h.isWord h
      exact ((List.forall₂_and_left ts _).mp hflip).1
    -- There is a segment for each tag, so no segment has gone on after a comma between two tags.
    have hlength := length_segments_expression hne fun t ht => (hwords t ht).not_mem rfl
    rw [hread.length_eq, Nat.add_eq_left, List.countP_eq_zero] at hlength
    exact ⟨fun t ht => isKey_iff.mpr (hwords t ht), fun t ht => by simpa using hlength t ht⟩
  · rintro ⟨hkeys, hends⟩
    have hwords : ∀ t ∈ ts, IsWord t.key.toList := fun t ht => isKey_iff.mp (hkeys t ht)
    rw [segments_expression hne (fun t ht => (hwords t ht).not_mem rfl) hends,
      List.forall₂_map_left_iff, List.forall₂_same]
    exact .inr fun t ht => spells_text (hwords t ht)

/-- A backslash that ends a value takes the comma after it for the value, and the next tag with it. -/
example : parseExpression (expression [⟨"path", "x\\"⟩, ⟨"app", "shop"⟩]) =
    .ok [⟨"path", "x,app=shop"⟩] := by
  decide +kernel

end Writing

end Telemetry.Tag
