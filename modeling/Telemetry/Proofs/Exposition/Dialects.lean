import Telemetry.Proofs.Exposition.Slots
import Telemetry.Proofs.Related

/-!
# What the text formats have in common

Both text formats show a group in the same families, with the same samples in the same order; only names
differ. Their names begin with different base names, as the formats put different characters between
scope and name, and go on alike unless an ending is left out in one format only: a base name that ends
with a word does not get the word again.
-/

namespace Telemetry.Exposition

open Export (Distribution Group)

/-- What a sample has besides its name. -/
def Sample.content (s : Sample) : Tags × Option Float × Float := (s.tags, s.quantile, s.value)

/-- What a family has besides its names. -/
def Family.content (f : Family) : FamilyType × List (Tags × Option Float × Float) :=
  (f.type, f.samples.map Sample.content)

/-- The names of samples. -/
def Family.sampleNames (f : Family) : List String := f.samples.map (·.name)

/-- Names that go on alike after two base names. -/
def Alike (b c m n : String) : Prop := ∃ ending, m = b ++ ending ∧ n = c ++ ending

/-- Whether a name ends with a word after an underscore. -/
def hasWord (name word : String) : Bool := Text.endsWith name ("_" ++ word)

/-- The words that decide how names go on, family by family: a base name that ends with the word does
not get it again. -/
def decisiveWords (metadata : Metadata) : List (Option String) :=
  match metadata.kind with
  | .counter => [some ((unitWord metadata).getD totalWord)]
  | .gauge => [unitWord metadata]
  | .meter => some totalWord :: rateEndings.map fun _ => none
  | .histogram => unitWord metadata :: statisticEndings.map fun _ => none
  | .timer =>
    some MeasureUnit.secondsWord :: statisticEndings.map (fun _ => some MeasureUnit.secondsWord) ++
      rateEndings.map fun _ => none

/-- The part of a base name that comes from the name of the metric. -/
def nameTail (name : String) : String := String.ofList (Name.sanitizeFrom false true name.toList)

section Words

variable {a b c m n u w : String}

/-- A name ends with a word when its characters do. -/
theorem hasWord_iff : hasWord n w = true ↔ '_' :: w.toList <:+ n.toList := by
  simp [hasWord, Text.endsWith]

/-- A word that was added is there. -/
theorem hasWord_extend (b w : String) : hasWord (extend b w) w = true := by
  rw [hasWord_iff]
  exact ⟨b.toList, by simp [extend]⟩

/-- A word is there once it was added where it was missing. -/
theorem hasWord_extendOnce (b w : String) : hasWord (extendOnce b w) w = true := by
  unfold extendOnce
  split
  · assumption
  · exact hasWord_extend b w

/-- Two names that end with one word end with any other word alike, if that has no underscore. -/
theorem hasWord_congr (hm : hasWord m u = true) (hn : hasWord n u = true) (hw : '_' ∉ w.toList) :
    hasWord m w = hasWord n w := by
  have hpart {m n : String} (hm : hasWord m u = true) (hn : hasWord n u = true)
      (h : hasWord m w = true) : hasWord n w = true := by
    rw [hasWord_iff] at *
    obtain hwu | huw := List.suffix_or_suffix_of_suffix h hm
    · exact hwu.trans hn
    · rcases List.suffix_cons_iff.mp huw with heq | huw
      · exact heq ▸ hn
      · exact absurd (huw.subset List.mem_cons_self) hw
  cases h : hasWord m w with
  | true => exact (hpart hm hn h).symm
  | false =>
    cases h' : hasWord n w with
    | true => exact h.symm.trans (hpart hn hm h')
    | false => rfl

/-- What is added to a name for a word. -/
def ending (b w : String) : String := if hasWord b w then "" else "_" ++ w

/-- What is added to a name for a word, if there is one. -/
def ending? (b : String) : Option String → String
  | some w => ending b w
  | none => ""

/-- A name with a word that it may have already. -/
theorem extendOnce_eq (b w : String) : extendOnce b w = b ++ ending b w := by
  unfold extendOnce ending hasWord
  split
  · rw [String.append_empty]
  · rw [extend, String.append_assoc]

/-- The same where there may be no word. -/
theorem extendOnce?_eq (b : String) (w : Option String) : extendOnce? b w = b ++ ending? b w := by
  cases w with
  | none => exact String.append_empty.symm
  | some w => exact extendOnce_eq b w

/-- The same is added to two names when both end with the word or neither does. -/
theorem ending_inj : ending b w = ending c w ↔ hasWord b w = hasWord c w := by
  have hne : "" ≠ "_" ++ w := by simp [String.ext_iff]
  unfold ending
  cases hasWord b w <;> cases hasWord c w <;> simp [hne, hne.symm]

/-- The same where there may be no word. -/
theorem ending?_inj {w : Option String} :
    ending? b w = ending? c w ↔ ∀ v ∈ w, hasWord b v = hasWord c v := by
  cases w with
  | none => simp [ending?]
  | some w => simp [ending?, ending_inj]

/-- A counter's samples are named alike where the first word that is added decides so: with the unit
there, it depends on the unit alone whether the ending of counters is there too. -/
theorem counter_ending_inj {unit : Option String} :
    ending? b unit ++ ending (extendOnce? b unit) totalWord =
        ending? c unit ++ ending (extendOnce? c unit) totalWord ↔
      hasWord b (unit.getD totalWord) = hasWord c (unit.getD totalWord) := by
  cases unit with
  | none => simp [ending?, extendOnce?, ending_inj]
  | some u =>
    have htotal : ending (extendOnce b u) totalWord = ending (extendOnce c u) totalWord :=
      ending_inj.mpr (hasWord_congr (hasWord_extendOnce b u) (hasWord_extendOnce c u) (by decide))
    simp only [ending?, extendOnce?, htotal, String.append_left_inj, ending_inj, Option.getD_some]

/-- Names are alike when they go on with the same characters. -/
theorem alike_append {x y : String} : Alike b c (b ++ x) (c ++ y) ↔ x = y := by
  constructor
  · rintro ⟨z, hx, hy⟩
    rw [String.append_right_inj] at hx hy
    exact hx.trans hy.symm
  · rintro rfl
    exact ⟨x, rfl, rfl⟩

end Words

section Families

variable {b c s t : String} {word unit unit' : Option String}

/-- The samples of two families have names that go on alike. -/
def NamesAlike (b c : String) (f h : Family) : Prop :=
  List.Forall₂ (Alike b c) f.sampleNames h.sampleNames

/-- Two families are named alike exactly when they are empty or the word, if there is one, is missing in
both base names or in neither. -/
def DecidedBy (b c : String) (word : Option String) (p : Family × Family) : Prop :=
  NamesAlike b c p.1 p.2 ↔ p.1.samples = [] ∨ ∀ w ∈ word, hasWord b w = hasWord c w

/-- Families whose names go on with the same endings after two beginnings are named alike when the
beginnings are. -/
theorem DecidedBy.of_names {f h : Family} (endings : List String)
    (hf : f.sampleNames = endings.map (b ++ s ++ ·)) (hh : h.sampleNames = endings.map (c ++ t ++ ·))
    (hword : s = t ↔ ∀ w ∈ word, hasWord b w = hasWord c w) : DecidedBy b c word (f, h) := by
  have hempty : f.samples = [] ↔ endings = [] := by
    have hlength := congrArg List.length hf
    rw [Family.sampleNames, List.length_map, List.length_map] at hlength
    rw [← List.length_eq_zero_iff, hlength, List.length_eq_zero_iff]
  rw [DecidedBy, NamesAlike, hf, hh, hempty, ← hword, List.forall₂_map_left_iff,
    List.forall₂_map_right_iff, List.forall₂_same]
  simp only [String.append_assoc, alike_append, String.append_left_inj]
  constructor
  · intro h
    cases endings with
    | nil => exact .inl rfl
    | cons x rest => exact .inr (h x List.mem_cons_self)
  · rintro (rfl | h) x hx
    · contradiction
    · exact h

/-- Families of gauges. -/
theorem decidedBy_gaugeFamily (hword : s = t ↔ ∀ w ∈ word, hasWord b w = hasWord c w)
    (values : List (Tags × Float)) :
    DecidedBy b c word (gaugeFamily (b ++ s) unit values, gaugeFamily (c ++ t) unit' values) := by
  apply DecidedBy.of_names (values.map fun _ => "") _ _ hword
  · simp [Family.sampleNames, gaugeFamily, Family.of, Function.comp_def]
  · simp [Family.sampleNames, gaugeFamily, Family.of, Function.comp_def]

/-- Families of counters. -/
theorem decidedBy_counterFamily {stem stem' : String} (hstem : counterSampleName stem = b ++ s)
    (hstem' : counterSampleName stem' = c ++ t)
    (hword : s = t ↔ ∀ w ∈ word, hasWord b w = hasWord c w) (d e : Dialect)
    (values : List (Tags × Float)) :
    DecidedBy b c word (counterFamily d stem unit values, counterFamily e stem' unit' values) := by
  apply DecidedBy.of_names (values.map fun _ => "") _ _ hword
  · simp [Family.sampleNames, counterFamily, Family.of, Function.comp_def, hstem]
  · simp [Family.sampleNames, counterFamily, Family.of, Function.comp_def, hstem']

/-- The names of a summary. -/
theorem sampleNames_summary (n : String) (values : List (Tags × Distribution)) :
    (Family.of n .summary unit (values.flatMap fun v => summarySamples n v.1 v.2)).sampleNames =
      (values.flatMap fun v => "_count" :: "_sum" :: v.2.quantiles.map fun _ => "").map (n ++ ·) := by
  simp only [Family.sampleNames, Family.of, List.map_flatMap, summarySamples, List.map_cons,
    List.map_map, Function.comp_def, String.append_empty, extend, String.append_assoc]
  rfl

/-- The name of a statistic goes on after the stem. -/
theorem statisticName_eq (stem : String) (tail : Option String) (e : String) :
    statisticName stem tail e = stem ++ statisticName "" tail e := by
  cases tail <;> simp [statisticName, extend, String.append_assoc]

/-- Families of rates are always named alike. -/
theorem decidedBy_rateFamilies (b c : String) (values : List (Tags × Pace.Rates)) :
    List.Forall₂ (DecidedBy b c) (rateEndings.map fun _ => none)
      ((rateFamilies b values).zip (rateFamilies c values)) := by
  apply Related.forall₂_zip_map
  intro e _
  change DecidedBy b c none (gaugeFamily (statisticName b none e.1) none _,
    gaugeFamily (statisticName c none e.1) none _)
  rw [statisticName_eq b, statisticName_eq c]
  exact decidedBy_gaugeFamily (by simp) _

/-- Families of distributions. -/
theorem decidedBy_distributionFamilies {summary summary' stem stem' s' t' : String}
    {word' tail : Option String} (hs : summary = b ++ s) (ht : summary' = c ++ t)
    (hs' : stem = b ++ s') (ht' : stem' = c ++ t')
    (hword : s = t ↔ ∀ w ∈ word, hasWord b w = hasWord c w)
    (hword' : s' = t' ↔ ∀ w ∈ word', hasWord b w = hasWord c w)
    (values : List (Tags × Distribution)) :
    List.Forall₂ (DecidedBy b c) (word :: statisticEndings.map fun _ => word')
      ((distributionFamilies summary stem tail unit values).zip
        (distributionFamilies summary' stem' tail unit' values)) := by
  subst hs ht hs' ht'
  apply List.Forall₂.cons
  · exact DecidedBy.of_names _ (sampleNames_summary _ _) (sampleNames_summary _ _) hword
  · apply Related.forall₂_zip_map
    intro e _
    change DecidedBy b c word' (gaugeFamily (statisticName (b ++ s') tail e.1) unit _,
      gaugeFamily (statisticName (c ++ t') tail e.1) unit' _)
    rw [statisticName_eq, statisticName_eq (c ++ t'), String.append_assoc, String.append_assoc]
    apply decidedBy_gaugeFamily
    rw [String.append_left_inj]
    exact hword'

end Families

section Contents

/-- What a family of gauges has besides its names. -/
theorem content_gaugeFamily (n : String) (unit : Option String) (values : List (Tags × Float)) :
    (gaugeFamily n unit values).content = (.gauge, values.map fun v => (v.1, none, v.2)) := by
  simp [Family.content, gaugeFamily, Family.of, Function.comp_def, Sample.content]

/-- What a family of counters has besides its names. -/
theorem content_counterFamily (d : Dialect) (stem : String) (unit : Option String)
    (values : List (Tags × Float)) :
    (counterFamily d stem unit values).content =
      (.counter, values.map fun v => (v.1, none, v.2)) := by
  simp [Family.content, counterFamily, Family.of, Function.comp_def, Sample.content]

/-- What families of rates have besides their names. -/
theorem content_rateFamilies (base : String) (values : List (Tags × Pace.Rates)) :
    (rateFamilies base values).map Family.content =
      rateEndings.map fun e => (.gauge, values.map fun v => (v.1, none, e.2 v.2)) := by
  simp [rateFamilies, content_gaugeFamily, Function.comp_def]

/-- What families of distributions have besides their names. -/
theorem content_distributionFamilies (summary stem : String) (tail unit : Option String)
    (values : List (Tags × Distribution)) :
    (distributionFamilies summary stem tail unit values).map Family.content =
      (.summary, values.flatMap fun v =>
        (v.1, none, v.2.count.toFloat) :: (v.1, none, v.2.sum) ::
          v.2.quantiles.map fun q => (v.1, some q.1.value, q.2)) ::
      statisticEndings.map fun e => (.gauge, values.map fun v => (v.1, none, e.2 v.2)) := by
  have hsummary : (Family.of summary .summary unit
      (values.flatMap fun v => summarySamples summary v.1 v.2)).content =
        (.summary, values.flatMap fun v =>
          (v.1, none, v.2.count.toFloat) :: (v.1, none, v.2.sum) ::
            v.2.quantiles.map fun q => (v.1, some q.1.value, q.2)) := by
    simp [Family.content, Family.of, List.map_flatMap, summarySamples, Sample.content,
      Function.comp_def]
  simp [distributionFamilies, content_gaugeFamily, Function.comp_def, hsummary]

/-- Two formats show the same families, apart from names. -/
theorem content_families (d e : Dialect) (scope : Scope) (g : Group) :
    (families d scope g).map Family.content = (families e scope g).map Family.content := by
  unfold families
  dsimp only
  split <;> simp only [List.map_cons, List.map_nil, List.map_append, content_gaugeFamily,
    content_counterFamily, content_rateFamilies, content_distributionFamilies]

end Contents

section Groups

/-- Whether the families of a group are named alike is decided family by family. -/
theorem decidedBy_families (d e : Dialect) (scope : Scope) (g : Group) :
    List.Forall₂
      (DecidedBy (d.baseName scope g.metadata.name) (e.baseName scope g.metadata.name))
      (decisiveWords g.metadata) ((families d scope g).zip (families e scope g)) := by
  unfold families decisiveWords
  generalize d.baseName scope g.metadata.name = b
  generalize e.baseName scope g.metadata.name = c
  have hname (b : String) (unit : Option String) : counterSampleName (extendOnce? b unit) =
      b ++ (ending? b unit ++ ending (extendOnce? b unit) totalWord) := by
    rw [counterSampleName, extendOnce_eq, extendOnce?_eq, String.append_assoc]
  dsimp only
  cases g.metadata.kind with
  | counter =>
    apply List.Forall₂.cons _ .nil
    apply decidedBy_counterFamily (hname b _) (hname c _)
    simpa using counter_ending_inj
  | gauge =>
    apply List.Forall₂.cons _ .nil
    rw [extendOnce?_eq, extendOnce?_eq]
    exact decidedBy_gaugeFamily ending?_inj _
  | meter =>
    apply List.Forall₂.cons _ (decidedBy_rateFamilies b c _)
    apply decidedBy_counterFamily (extendOnce_eq b _) (extendOnce_eq c _)
    simpa using ending_inj
  | histogram =>
    exact decidedBy_distributionFamilies (extendOnce?_eq b _) (extendOnce?_eq c _)
      String.append_empty.symm String.append_empty.symm ending?_inj (by simp) _
  | timer =>
    rw [List.zip_append (by simp [distributionFamilies])]
    apply List.rel_append _ (decidedBy_rateFamilies b c _)
    exact decidedBy_distributionFamilies (extendOnce_eq b _) (extendOnce_eq c _)
      (extendOnce_eq b _) (extendOnce_eq c _) (by simpa using ending_inj) (by simpa using ending_inj) _

end Groups

section BaseNames

/-- What was written last closes a word: an underscore or a colon, or nothing where nothing could be
added before. -/
def Closes (closed : Bool) (written : List Char) : Prop :=
  (written = [] ∧ closed = true) ∨ ∃ rest c, (c = '_' ∨ c = ':') ∧ written = rest ++ [c]

/-- One character is sanitized before the others; no underscore may follow it only if it closes a
word. -/
theorem sanitizeFrom_cons (afterLower closed : Bool) (c : Char) :
    ∃ written afterLower' closed',
      (∀ rest, Name.sanitizeFrom afterLower closed (c :: rest) =
        written ++ Name.sanitizeFrom afterLower' closed' rest) ∧
      (closed' = true → Closes closed written) := by
  have hopen {p : Prop} (h : false = true) : p := absurd h Bool.false_ne_true
  simp only [Name.sanitizeFrom]
  split
  · exact ⟨(if afterLower then Name.separator closed else []) ++ [c.toLower], false, false,
      fun _ => by rw [List.append_assoc]; rfl, hopen⟩
  split
  · exact ⟨[c], true, false, fun _ => rfl, hopen⟩
  split
  · exact ⟨[c], false, false, fun _ => rfl, hopen⟩
  split
  · exact ⟨[':'], false, true, fun _ => rfl, fun _ => .inr ⟨[], ':', .inr rfl, rfl⟩⟩
  · refine ⟨Name.separator closed, false, true, fun _ => rfl, fun _ => ?_⟩
    cases closed with
    | true => exact .inl ⟨rfl, rfl⟩
    | false => exact .inr ⟨[], '_', .inl rfl, rfl⟩

/-- A beginning is sanitized before the rest; no underscore may follow it only if it closes a word. -/
theorem sanitizeFrom_append (afterLower closed : Bool) (cs : List Char) :
    ∃ written afterLower' closed',
      (∀ rest, Name.sanitizeFrom afterLower closed (cs ++ rest) =
        written ++ Name.sanitizeFrom afterLower' closed' rest) ∧
      (closed' = true → Closes closed written) := by
  induction cs generalizing afterLower closed with
  | nil => exact ⟨[], afterLower, closed, fun _ => rfl, fun h => .inl ⟨rfl, h⟩⟩
  | cons c cs ih =>
    obtain ⟨first, l, k, hfirst, hcloses⟩ := sanitizeFrom_cons afterLower closed c
    obtain ⟨later, l', k', hlater, hcloses'⟩ := ih l k
    refine ⟨first ++ later, l', k', fun rest => ?_, fun hk => ?_⟩
    · rw [List.cons_append, hfirst, hlater, List.append_assoc]
    · rcases hcloses' hk with ⟨rfl, hk⟩ | ⟨rest, x, hx, rfl⟩
      · rw [List.append_nil]
        exact hcloses hk
      · exact .inr ⟨first ++ rest, x, hx, (List.append_assoc _ _ _).symm⟩

/-- A base name ends with the tail that comes from the name, after an underscore or a colon. -/
def EndsWithTail (base name : String) : Prop :=
  ∃ before c, (c = '_' ∨ c = ':') ∧ base.toList = before ++ c :: (nameTail name).toList

/-- So it is where an underscore stands between scope and name: if it is not written, the scope has
one at its end, or a colon. -/
theorem endsWithTail_prometheus (scope : Scope) (name : String) :
    EndsWithTail (Dialect.prometheus.baseName scope name) name := by
  obtain ⟨written, l, k, hwritten, hcloses⟩ := sanitizeFrom_append false false scope.toList
  have hbase : (Dialect.prometheus.baseName scope name).toList =
      written ++ (Name.separator k ++ (nameTail name).toList) := by
    rw [Dialect.baseName, Name.sanitize, String.toList_ofList, String.toList_append,
      String.toList_append, List.append_assoc, hwritten, nameTail, String.toList_ofList]
    rfl
  cases k with
  | false => exact ⟨written, '_', .inl rfl, hbase⟩
  | true =>
    obtain ⟨-, h⟩ | ⟨before, c, hc, rfl⟩ := hcloses rfl
    · contradiction
    · exact ⟨before, c, hc, hbase.trans (List.append_assoc _ _ _)⟩

/-- So it is where a colon stands between them. -/
theorem endsWithTail_openMetrics (scope : Scope) (name : String) :
    EndsWithTail (Dialect.openMetrics.baseName scope name) name := by
  obtain ⟨written, l, k, hwritten, -⟩ := sanitizeFrom_append false false scope.toList
  refine ⟨written, ':', .inr rfl, ?_⟩
  rw [Dialect.baseName, Name.sanitize, String.toList_ofList, String.toList_append,
    String.toList_append, List.append_assoc, hwritten, nameTail, String.toList_ofList]
  rfl

/-- A word is the tail, or ends with it after an underscore or a colon. -/
def Covers (w tail : String) : Prop :=
  w = tail ∨ hasWord w tail = true ∨ Text.endsWith w (":" ++ tail) = true

/-- A base name ends with a word because the tail does, or because the word covers the tail. -/
theorem EndsWithTail.word {base name w : String} (hbase : EndsWithTail base name)
    (hw : hasWord base w = true) : hasWord (nameTail name) w = true ∨ Covers w (nameTail name) := by
  obtain ⟨before, c, hc, hbase⟩ := hbase
  rw [hasWord_iff, hbase] at hw
  obtain ⟨rest, hrest⟩ := hw
  have hwhole (h : w.toList = (nameTail name).toList) : Covers w (nameTail name) :=
    .inl (String.ext_iff.mpr h)
  obtain ⟨more, -, hmore⟩ | ⟨more, -, hmore⟩ := List.append_eq_append_iff.mp hrest
  · cases more with
    | nil => exact .inr (hwhole (List.cons.inj hmore).2)
    | cons x more =>
      have hlist : w.toList = more ++ c :: (nameTail name).toList := (List.cons.inj hmore).2
      rcases hc with rfl | rfl
      · exact .inr (.inr (.inl (hasWord_iff.mpr ⟨more, hlist.symm⟩)))
      · refine .inr (.inr (.inr ?_))
        simp [Text.endsWith, hlist]
  · cases more with
    | nil => exact .inr (hwhole (List.cons.inj hmore).2.symm)
    | cons x more => exact .inl (hasWord_iff.mpr ⟨more, (List.cons.inj hmore).2.symm⟩)

/-- A base name ends with what its tail ends with. -/
theorem EndsWithTail.of_tail {base name w : String} (hbase : EndsWithTail base name)
    (hw : hasWord (nameTail name) w = true) : hasWord base w = true := by
  obtain ⟨before, c, -, hbase⟩ := hbase
  rw [hasWord_iff] at hw ⊢
  apply hw.trans
  exact ⟨before ++ [c], by rw [hbase, List.append_assoc]; rfl⟩

/-- A word that one base name ends with and not the other covers their tail. -/
theorem covers_of_hasWord_ne {b c name w : String} (hb : EndsWithTail b name)
    (hc : EndsWithTail c name) (hne : hasWord b w ≠ hasWord c w) : Covers w (nameTail name) := by
  cases hbw : hasWord b w with
  | true =>
    apply (hb.word hbw).resolve_left
    intro h
    exact hne (hbw.trans (hc.of_tail h).symm)
  | false =>
    have hcw : hasWord c w = true := by
      cases h : hasWord c w with
      | true => rfl
      | false => exact absurd (hbw.trans h.symm) hne
    apply (hc.word hcw).resolve_left
    intro h
    rw [hb.of_tail h] at hbw
    contradiction

end BaseNames

/-- The two text formats name metrics alike, but for endings that one base name has already. They show
the same number of families of the same types in the same order, and these the same number of samples,
with the same tags, quantiles and values in the same order. In each family the names of all samples go on
alike after the base names if both base names end with the word that decides, or neither does; otherwise
they do not, unless there is no sample. A word can be at the end of one base name only if it is the
sanitized name of the metric, or ends with it. -/
theorem dialects_name_alike (scope : Scope) (g : Group) :
    let p := Dialect.prometheus.baseName scope g.metadata.name
    let o := Dialect.openMetrics.baseName scope g.metadata.name
    (families .prometheus scope g).map Family.content =
        (families .openMetrics scope g).map Family.content ∧
      List.Forall₂ (DecidedBy p o) (decisiveWords g.metadata)
        ((families .prometheus scope g).zip (families .openMetrics scope g)) ∧
      ∀ w, hasWord p w ≠ hasWord o w → Covers w (nameTail g.metadata.name) := by
  intro p o
  refine ⟨content_families _ _ scope g, decidedBy_families _ _ scope g, fun w hne => ?_⟩
  exact covers_of_hasWord_ne (endsWithTail_prometheus scope _) (endsWithTail_openMetrics scope _) hne

/-- A counter whose name is the ending of counters. -/
def counterNamedTotal : Group := ⟨.ofKind "total" .counter, [⟨Tags.ofList [], .counter 0⟩]⟩

/-- The ending of counters is there already only where an underscore stands before the name. -/
theorem dialects_name_alike_total :
    hasWord "s_total" "total" ≠ hasWord "s:total" "total" ∧
      Covers "total" (nameTail counterNamedTotal.metadata.name) := by
  have hne : hasWord "s_total" "total" ≠ hasWord "s:total" "total" := by decide
  exact ⟨hne, (dialects_name_alike "s" counterNamedTotal).2.2 "total" hne⟩

/-- So a sample can be named by the base name in one format, and have an ending in the other. -/
theorem names_differ :
    Dialect.prometheus.baseName "s" "total" = "s_total" ∧
      Dialect.openMetrics.baseName "s" "total" = "s:total" ∧
      (families .prometheus "s" counterNamedTotal).map Family.sampleNames = [["s_total"]] ∧
      (families .openMetrics "s" counterNamedTotal).map Family.sampleNames = [["s:total_total"]] ∧
      ¬ Alike "s_total" "s:total" "s_total" "s:total_total" := by
  have hdiffer : ¬ Alike "s_total" "s:total" ("s_total" ++ "") ("s:total" ++ "_total") := by
    rw [alike_append]
    decide
  exact ⟨by decide, by decide, by decide, by decide, hdiffer⟩

end Telemetry.Exposition
