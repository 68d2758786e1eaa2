import Telemetry.Proofs.Export.Completeness
import Telemetry.Proofs.Exposition.Dialects
import Telemetry.Proofs.Exposition.Shown
import Telemetry.Proofs.Name

/-!
# Where names are joined

A name in a document is glued together from sanitized parts. Whether it can be a name at all is decided by
the first character of the scope, and whether sanitizing would leave it as it is by the characters on the
two sides of each joint: the underscore must follow a letter or a digit, and none may follow it.
-/

namespace Telemetry.Exposition

open Export (Group Selection Settings withCounters worldOfCounters)
open Name (Settled beginsPlain beginsWithDigit endsPlain)

/-- Whether a name may begin with the character. -/
def isNameStart (c : Char) : Bool := c.isAlpha || c == '_' || c == ':'

/-- Whether a name may go on with the character. -/
def isNamePart (c : Char) : Bool := c.isAlphanum || c == '_' || c == ':'

/-- Whether a text is a name of the text formats. -/
def isName (s : String) : Bool :=
  match s.toList with
  | [] => false
  | c :: rest => isNameStart c && rest.all isNamePart

section Texts

variable {b e n u w : String} {d : Dialect}

/-- Safe characters are those of names; of these the digits cannot be the first. -/
theorem isNameStart_of_isSafe {c : Char} (h : Name.isSafe c = true) :
    isNamePart c = true ∧ isNameStart c = !c.isDigit := by
  simp only [Name.isSafe, Bool.or_eq_true, beq_iff_eq] at h
  obtain ((hl | hd) | rfl) | rfl := h
  · simp [isNamePart, isNameStart, Text.isAlphanum_eq, Text.isAlpha_eq, hl, Text.isDigit_of_isLower hl]
  · have hne : c ≠ '_' ∧ c ≠ ':' := Name.ne_of_isAlphanum (by simp [Char.isAlphanum, hd])
    simp [isNamePart, isNameStart, Text.isAlphanum_eq, Text.isAlpha_of_isDigit hd, hd, hne]
  · decide
  · decide

/-- A safe text is a name if there is something of it, and no digit comes first. -/
theorem isName_iff (hs : SafeText n) (hne : n ≠ "") : isName n = true ↔ beginsWithDigit n = false := by
  unfold SafeText at hs
  unfold isName beginsWithDigit
  cases hn : n.toList with
  | nil => exact absurd (String.toList_eq_nil_iff.mp hn) hne
  | cons c rest =>
    rw [hn, List.forall_mem_cons] at hs
    have hrest : rest.all isNamePart = true :=
      List.all_eq_true.mpr fun x hx => (isNameStart_of_isSafe (hs.2 x hx)).1
    simp [hrest, (isNameStart_of_isSafe hs.1).2]

/-- A name with an ending ends as the ending does. -/
theorem endsPlain_extend (he : e ≠ "") (b : String) : endsPlain (extend b e) = endsPlain e :=
  Name.endsPlain_of_isSuffix he ⟨b.toList ++ ['_'], by simp [extend]⟩

/-- A name that was given a word unless it was there ends as the word does. -/
theorem endsPlain_extendOnce (hw : w ≠ "") (b : String) : endsPlain (extendOnce b w) = endsPlain w := by
  have hsuffix := hasWord_iff.mp (hasWord_extendOnce b w)
  exact Name.endsPlain_of_isSuffix hw ((List.suffix_cons '_' w.toList).trans hsuffix)

/-- A name with an ending is settled when both are, and an underscore can stand between them. -/
theorem settled_extend_iff (hb : b ≠ "") (he : e ≠ "") :
    Settled (extend b e) ↔
      (Settled b ∧ endsPlain b = true) ∧ Settled e ∧ beginsPlain e = true := by
  have hlist : (extend b e).toList = b.toList ++ '_' :: e.toList := by simp [extend]
  constructor
  · intro h
    have hsb : Settled b := h.of_isPrefix ⟨_, hlist.symm⟩
    have hse : Settled e := h.of_isSuffix ⟨b.toList ++ ['_'], by simp [hlist]⟩
    have hfits := h.fits
    rw [hlist, List.isChain_append, List.isChain_cons] at hfits
    obtain ⟨-, ⟨he', -⟩, hb'⟩ := hfits
    exact ⟨⟨hsb, (hsb.endsPlain_iff hb).mpr fun c hc => hb' c hc '_' rfl⟩, hse,
      (hse.beginsPlain_iff he).mpr he'⟩
  · rintro ⟨⟨hsb, hb'⟩, hse, he'⟩
    refine ⟨SafeText.extend hsb.safe hse.safe, ?_⟩
    rw [hlist, List.isChain_append, List.isChain_cons]
    refine ⟨hsb.fits, ⟨(hse.beginsPlain_iff he).mp he', hse.fits⟩, fun c hc x hx => ?_⟩
    obtain rfl := Option.some.inj hx
    exact (hsb.endsPlain_iff hb).mp hb' c hc

/-- A text that can be joined on both sides. -/
structure Joinable (w : String) : Prop where
  settled : Settled w
  begins : beginsPlain w = true
  ends : endsPlain w = true

instance (w : String) : Decidable (Joinable w) :=
  decidable_of_iff (Settled w ∧ beginsPlain w = true ∧ endsPlain w = true)
    ⟨fun h => ⟨h.1, h.2.1, h.2.2⟩, fun h => ⟨h.settled, h.begins, h.ends⟩⟩

/-- There is something of a text that can be joined. -/
theorem Joinable.ne_empty (h : Joinable w) : w ≠ "" := by
  rintro rfl
  exact absurd h.begins (by decide)

/-- To such an ending a name is joined well if it ends plainly. -/
theorem Joinable.settled_extend_iff (hw : Joinable w) (hb : b ≠ "") :
    Settled (extend b w) ↔ Settled b ∧ endsPlain b = true :=
  (Exposition.settled_extend_iff hb hw.ne_empty).trans (and_iff_left ⟨hw.settled, hw.begins⟩)

/-- The ending of counters can be joined. -/
theorem joinable_total : Joinable totalWord := by decide

/-- So can the word for seconds. -/
theorem joinable_seconds : Joinable MeasureUnit.secondsWord := by decide

/-- So can the endings of summaries. -/
theorem joinable_summary : ∀ e ∈ ["count", "sum"], Joinable e := by decide

/-- So can the endings of rates. -/
theorem joinable_rate : ∀ e ∈ rateEndings.map Prod.fst, Joinable e := by decide

/-- So can the endings of statistics. -/
theorem joinable_statistic : ∀ e ∈ statisticEndings.map Prod.fst, Joinable e := by decide

/-- There is something of a name with an ending. -/
theorem extend_ne_empty (b e : String) : extend b e ≠ "" := by
  intro h
  simpa [extend] using congrArg String.toList h

/-- So there is of a name that was given a word unless it was there. -/
theorem extendOnce_ne_empty (hb : b ≠ "") (w : String) : extendOnce b w ≠ "" := by
  unfold extendOnce
  split
  · exact hb
  · exact extend_ne_empty b w

/-- The same where there may be no word. -/
theorem extendOnce?_ne_empty (hb : b ≠ "") (unit : Option String) : extendOnce? b unit ≠ "" := by
  cases unit with
  | none => exact hb
  | some w => exact extendOnce_ne_empty hb w

/-- To several such endings a name is joined well under the same condition. -/
theorem settled_endings_iff {endings : List String} (hne : endings ≠ []) (h : ∀ e ∈ endings, Joinable e)
    (hb : b ≠ "") :
    (∀ e ∈ endings, Settled (extend b e)) ↔ Settled b ∧ endsPlain b = true := by
  constructor
  · intro hall
    obtain ⟨e, he⟩ := List.exists_mem_of_ne_nil _ hne
    exact ((h e he).settled_extend_iff hb).mp (hall e he)
  · exact fun hb' e he => ((h e he).settled_extend_iff hb).mpr hb'

/-- A settled name that is given a word unless it is there stays settled if the word is there, or can be
joined. -/
theorem settled_extendOnce_iff (hs : Settled b) (hb : b ≠ "") (hw : Settled w) (hne : w ≠ "") :
    Settled (extendOnce b w) ↔ hasWord b w = true ∨ endsPlain b = true ∧ beginsPlain w = true := by
  by_cases h : hasWord b w = true
  · rw [show extendOnce b w = b from if_pos h]
    exact iff_of_true hs (.inl h)
  · rw [show extendOnce b w = extend b w from if_neg h, settled_extend_iff hb hne]
    simp [hs, hw, h]

/-- The same where there may be no word. -/
theorem settled_extendOnce?_iff {unit : Option String} (hs : Settled b) (hb : b ≠ "")
    (hu : ∀ u ∈ unit, Settled u ∧ u ≠ "") :
    Settled (extendOnce? b unit) ↔
      ∀ u ∈ unit, hasWord b u = true ∨ endsPlain b = true ∧ beginsPlain u = true := by
  cases unit with
  | none => simpa [extendOnce?] using hs
  | some w =>
    obtain ⟨hsw, hw⟩ := hu w rfl
    simpa [extendOnce?] using settled_extendOnce_iff hs hb hsw hw

/-- The name of a counter's samples is settled when the stem is, and the ending of counters can be
joined. -/
theorem settled_counterSampleName_iff (hb : b ≠ "") :
    Settled (counterSampleName b) ↔ Settled b ∧ endsPlain b = true := by
  by_cases h : hasWord b totalWord = true
  · have hsuffix := (List.suffix_cons '_' totalWord.toList).trans (hasWord_iff.mp h)
    have hends : endsPlain b = true :=
      (Name.endsPlain_of_isSuffix joinable_total.ne_empty hsuffix).trans joinable_total.ends
    rw [show counterSampleName b = b from if_pos h, and_iff_left hends]
  · rw [show counterSampleName b = extend b totalWord from if_neg h]
    exact joinable_total.settled_extend_iff hb

end Texts

section BaseNames

variable {d : Dialect} (scope : Scope) (name : String)

/-- There is something of every base name. -/
theorem baseName_ne_empty (d : Dialect) : d.baseName scope name ≠ "" := by
  apply Name.sanitize_ne_empty
  intro h
  simpa using congrArg String.toList h

/-- A base name begins with a digit when the scope does. -/
theorem beginsWithDigit_baseName (hd : d.separator.isDigit = false) :
    beginsWithDigit (d.baseName scope name) = beginsWithDigit scope := by
  rw [Dialect.baseName, Name.beginsWithDigit_sanitize]
  by_cases hscope : scope = ""
  · subst hscope
    simp [beginsWithDigit, hd]
  · exact (Name.beginsWithDigit_of_isPrefix hscope ⟨d.separator :: name.toList, by simp⟩).symm

/-- A base name ends with a letter or a digit when the name does. -/
theorem endsPlain_baseName (hd : d.separator.isAlphanum = false) :
    endsPlain (d.baseName scope name) = endsPlain name := by
  rw [Dialect.baseName, Name.endsPlain_sanitize]
  by_cases hname : name = ""
  · subst hname
    simp [endsPlain, hd]
  · exact Name.endsPlain_of_isSuffix hname ⟨scope.toList ++ [d.separator], by simp⟩

end BaseNames

section Slots

variable {base summary stem : String} {tail : Option String}

/-- The names of rates are settled when the base name can be given an ending. -/
theorem settled_rateSlots_iff (hb : base ≠ "") :
    (∀ s ∈ rateSlots base, Settled s.name) ↔ Settled base ∧ endsPlain base = true := by
  have hiff := settled_endings_iff (by decide) joinable_rate hb
  rw [List.forall_mem_map] at hiff
  rw [rateSlots, List.forall_mem_map]
  exact hiff

/-- The names of a distribution are settled when the summary can be given an ending and the names of
statistics are settled. -/
theorem settled_distributionSlots_iff (hs : summary ≠ "") :
    (∀ s ∈ distributionSlots summary stem tail, Settled s.name) ↔
      (Settled summary ∧ endsPlain summary = true) ∧
        ∀ e ∈ statisticEndings.map Prod.fst, Settled (statisticName stem tail e) := by
  have hsummary := settled_endings_iff (by decide) joinable_summary hs
  rw [List.forall_mem_cons, List.forall_mem_singleton] at hsummary
  simp only [distributionSlots, List.forall_mem_cons, List.forall_mem_append, List.forall_mem_map]
  constructor
  · rintro ⟨hcount, hsum, -, hstatistics⟩
    exact ⟨hsummary.mp ⟨hcount, hsum⟩, hstatistics⟩
  · rintro ⟨hends, hstatistics⟩
    obtain ⟨hcount, hsum⟩ := hsummary.mpr hends
    exact ⟨hcount, hsum, fun _ _ => hends.1, hstatistics⟩

/-- The names of statistics are settled when the stem can be given an ending, and the tail, if there is
one, can follow it. -/
theorem settled_statisticNames_iff (hs : stem ≠ "") (ht : ∀ u ∈ tail, u ≠ "") :
    (∀ e ∈ statisticEndings.map Prod.fst, Settled (statisticName stem tail e)) ↔
      (Settled stem ∧ endsPlain stem = true) ∧ ∀ u ∈ tail, Settled u ∧ beginsPlain u = true := by
  have hstem := settled_endings_iff (by decide) joinable_statistic hs
  cases tail with
  | none => simpa [statisticName] using hstem
  | some u =>
    have hends {e : String} (he : e ∈ statisticEndings.map Prod.fst) :
        Settled (extend (extend stem e) u) ↔
          Settled (extend stem e) ∧ Settled u ∧ beginsPlain u = true := by
      have hw := joinable_statistic e he
      rw [settled_extend_iff (extend_ne_empty stem e) (ht u rfl), endsPlain_extend hw.ne_empty,
        and_iff_left hw.ends]
    have hmin : "min" ∈ statisticEndings.map Prod.fst := by decide
    simp only [statisticName, Option.mem_some_iff, forall_eq', ← hstem]
    constructor
    · intro h
      exact ⟨fun e he => ((hends he).mp (h e he)).1, ((hends hmin).mp (h "min" hmin)).2⟩
    · exact fun h e he => (hends he).mpr ⟨h.1 e he, h.2⟩

end Slots

/-- Whether a base name can be given a unit: it has it already, or an underscore can stand between
them. -/
def TakesUnit (d : Dialect) (scope : Scope) (name unit : String) : Prop :=
  hasWord (d.baseName scope name) (Name.sanitize unit) = true ∨
    endsPlain name = true ∧ beginsPlain unit = true

/-- Whether all joints in the names of a metric are as sanitizing would leave them. What ends with a
letter or a digit can be given an ending; the unit comes before the ending of counters and after the word
of a statistic. -/
def JoinsWell (d : Dialect) (scope : Scope) (metadata : Metadata) : Prop :=
  let unit := MeasureUnit.suffix? metadata.unit
  match metadata.kind with
  | .counter =>
    match unit with
    | none => endsPlain metadata.name = true
    | some u => TakesUnit d scope metadata.name u ∧ endsPlain u = true
  | .gauge => ∀ u ∈ unit, TakesUnit d scope metadata.name u
  | .histogram =>
    endsPlain metadata.name = true ∧ ∀ u ∈ unit, beginsPlain u = true ∧ endsPlain u = true
  | .meter => endsPlain metadata.name = true
  | .timer => endsPlain metadata.name = true

section Metrics

variable {d : Dialect} {scope : Scope} {metadata : Metadata}

/-- There is something of a unit that names end with. -/
theorem suffix?_ne_empty {declared : Option String} {u : String}
    (hu : MeasureUnit.suffix? declared = some u) : u ≠ "" := by
  rintro rfl
  simp only [MeasureUnit.suffix?] at hu
  split at hu
  · contradiction
  · rename_i h
    rw [Option.some.injEq] at hu
    simp [hu] at h

/-- The names of a meter's samples are settled when the base name can be given an ending. -/
theorem settled_meterSlots_iff {base : String} (hs : Settled base) (hb : base ≠ "") :
    (∀ s ∈ ⟨counterSampleName base, none⟩ :: rateSlots base, Settled s.name) ↔
      endsPlain base = true := by
  rw [List.forall_mem_cons, settled_counterSampleName_iff hb, settled_rateSlots_iff hb, and_self,
    and_iff_right hs]

/-- So are those of a timer's samples. -/
theorem settled_timerSlots_iff {base : String} (hs : Settled base) (hb : base ≠ "") :
    (∀ s ∈ distributionSlots (extendOnce base MeasureUnit.secondsWord)
        (extendOnce base MeasureUnit.secondsWord) none ++ rateSlots base, Settled s.name) ↔
      endsPlain base = true := by
  have hseconds := joinable_seconds
  have hne : extendOnce base MeasureUnit.secondsWord ≠ "" :=
    extendOnce_ne_empty hb MeasureUnit.secondsWord
  have hends := (endsPlain_extendOnce hseconds.ne_empty base).trans hseconds.ends
  have hsettled := settled_extendOnce_iff hs hb hseconds.settled hseconds.ne_empty
  rw [List.forall_mem_append, settled_distributionSlots_iff hne,
    settled_statisticNames_iff hne (by simp), settled_rateSlots_iff hb, and_iff_right hs]
  constructor
  · exact fun h => h.2
  · intro h
    have hsummary := hsettled.mpr (.inr ⟨h, hseconds.begins⟩)
    exact ⟨⟨⟨hsummary, hends⟩, ⟨hsummary, hends⟩, nofun⟩, h⟩

/-- The names of a histogram's samples are settled when the base name can be given an ending, and so can
the unit, if there is one, after it was given to a name. -/
theorem settled_histogramSlots_iff {base : String} {unit : Option String} (hs : Settled base)
    (hb : base ≠ "") (hu : ∀ u ∈ unit, Settled u ∧ u ≠ "") :
    (∀ s ∈ distributionSlots (extendOnce? base unit) base unit, Settled s.name) ↔
      endsPlain base = true ∧ ∀ u ∈ unit, beginsPlain u = true ∧ endsPlain u = true := by
  rw [settled_distributionSlots_iff (extendOnce?_ne_empty hb unit),
    settled_statisticNames_iff hb fun u h => (hu u h).2, settled_extendOnce?_iff hs hb hu]
  cases unit with
  | none => simp [extendOnce?, hs]
  | some w =>
    obtain ⟨hsw, hw⟩ := hu w rfl
    simp only [extendOnce?, endsPlain_extendOnce hw, hs, hsw, true_and, Option.mem_some_iff, forall_eq']
    constructor
    · rintro ⟨⟨-, hends⟩, hbase, hbegins⟩
      exact ⟨hbase, hbegins, hends⟩
    · rintro ⟨hbase, hbegins, hends⟩
      exact ⟨⟨.inr ⟨hbase, hbegins⟩, hends⟩, hbase, hbegins⟩

/-- The names of a metric's samples are settled when its joints are. -/
theorem settled_slots_iff (hd : d.separator.isAlphanum = false) :
    (∀ s ∈ slots d scope metadata, Settled s.name) ↔ JoinsWell d scope metadata := by
  have hbase : Settled (d.baseName scope metadata.name) := Name.settled_sanitize _
  have hne := baseName_ne_empty scope metadata.name d
  have hends := endsPlain_baseName scope metadata.name hd
  have hunit : ∀ u ∈ unitWord metadata, Settled u ∧ u ≠ "" := by
    intro u hu
    obtain ⟨word, hword, rfl⟩ := Option.map_eq_some_iff.mp hu
    exact ⟨Name.settled_sanitize word, Name.sanitize_ne_empty (suffix?_ne_empty hword)⟩
  unfold slots JoinsWell TakesUnit
  rw [← hends]
  generalize d.baseName scope metadata.name = base at hbase hne ⊢
  dsimp only
  cases metadata.kind with
  | meter => exact settled_meterSlots_iff hbase hne
  | timer => exact settled_timerSlots_iff hbase hne
  | histogram =>
    rw [settled_histogramSlots_iff hbase hne hunit]
    simp [unitWord, Name.beginsPlain_sanitize, Name.endsPlain_sanitize]
  | gauge =>
    rw [List.forall_mem_singleton, settled_extendOnce?_iff hbase hne hunit]
    simp [unitWord, Name.beginsPlain_sanitize]
  | counter =>
    rw [List.forall_mem_singleton, settled_counterSampleName_iff (extendOnce?_ne_empty hne _),
      settled_extendOnce?_iff hbase hne hunit]
    unfold unitWord at hunit ⊢
    generalize MeasureUnit.suffix? metadata.unit = suffix at hunit ⊢
    cases suffix with
    | none => simp [extendOnce?]
    | some u =>
      have hu := (hunit (Name.sanitize u) rfl).2
      simp [extendOnce?, endsPlain_extendOnce hu, Name.beginsPlain_sanitize, Name.endsPlain_sanitize]

end Metrics

section Families

variable {d : Dialect} {scope : Scope} {g : Group} {f : Family} {base summary stem : String}
  {tail unit : Option String}

/-- A text without an ending is its beginning. -/
theorem isPrefix_dropEnding (s t : String) : (Text.dropEnding s t).toList <+: s.toList := by
  unfold Text.dropEnding
  split
  · rw [String.toList_ofList]
    exact List.take_prefix _ _
  · exact List.prefix_refl _

/-- A character that the ending does not have is not lost with it. -/
theorem mem_dropEnding {s t : String} {c : Char} (hs : c ∈ s.toList) (ht : c ∉ t.toList) :
    c ∈ (Text.dropEnding s t).toList := by
  by_cases h : Text.endsWith s t = true
  · rw [← Text.dropEnding_append h, String.toList_append, List.mem_append] at hs
    exact hs.resolve_right ht
  · rwa [Text.dropEnding, if_neg h]

/-- The name of a counter's family is the beginning of the name of its samples. -/
theorem isPrefix_counterFamilyName (d : Dialect) (stem : String) :
    (d.counterFamilyName stem).toList <+: (counterSampleName stem).toList := by
  have hstem : stem.toList <+: (counterSampleName stem).toList := by
    rw [counterSampleName, extendOnce_eq, String.toList_append]
    exact List.prefix_append _ _
  unfold Dialect.counterFamilyName
  split
  · exact List.prefix_refl _
  · exact (isPrefix_dropEnding _ _).trans hstem

/-- What a name continues is its beginning. -/
theorem Continues.isPrefix (h : Continues base stem) : base.toList <+: stem.toList := by
  obtain rfl | ⟨e, rfl⟩ := h
  · exact List.prefix_refl _
  · exact ⟨'_' :: e.toList, by simp [Exposition.extend]⟩

/-- A colon between scope and name is kept. -/
theorem colon_mem_baseName (scope : Scope) (name : String) :
    ':' ∈ (Dialect.openMetrics.baseName scope name).toList := by
  obtain ⟨written, l, k, hwritten, -⟩ := sanitizeFrom_append false false scope.toList
  rw [Dialect.baseName, Name.sanitize, String.toList_ofList, String.toList_append,
    String.toList_append, List.append_assoc, hwritten]
  exact List.mem_append_right _ List.mem_cons_self

/-- There is something of the names of counters' families in both formats: the one that leaves the ending
of counters out keeps the colon before the name. -/
theorem counterFamilyName_ne_empty (hd : d = .prometheus ∨ d = .openMetrics) {name : String}
    (h : Continues (d.baseName scope name) stem) : d.counterFamilyName stem ≠ "" := by
  obtain rfl | rfl := hd
  · have hstem : stem ≠ "" := by
      rintro rfl
      exact baseName_ne_empty scope name _ (String.toList_eq_nil_iff.mp (List.prefix_nil.mp h.isPrefix))
    exact extendOnce_ne_empty hstem totalWord
  · have hcolon : ':' ∈ (Text.dropEnding stem ("_" ++ totalWord)).toList :=
      mem_dropEnding (h.isPrefix.subset (colon_mem_baseName scope name)) (by decide)
    intro hempty
    rw [show Text.dropEnding stem ("_" ++ totalWord) = "" from hempty] at hcolon
    contradiction

/-- There is something of a family's name, and the name of a slot begins with it. -/
structure NamedBy (l : List Slot) (f : Family) : Prop where
  ne_empty : f.name ≠ ""
  begins : ∃ s ∈ l, f.name.toList <+: s.name.toList

/-- A family is named by more slots as well. -/
theorem NamedBy.mono {l l' : List Slot} (h : NamedBy l f) (hl : l ⊆ l') : NamedBy l' f := by
  obtain ⟨hne, s, hs, hbegins⟩ := h
  exact ⟨hne, s, hl hs, hbegins⟩

/-- Families of rates are named like their samples. -/
theorem namedBy_rateSlots {values : List (Tags × Pace.Rates)} (hf : f ∈ rateFamilies base values) :
    NamedBy (rateSlots base) f := by
  obtain ⟨e, he, rfl⟩ := List.mem_map.mp hf
  exact ⟨extend_ne_empty base e.1, _, List.mem_map_of_mem he, List.prefix_refl _⟩

/-- Families of statistics are named like their samples, and the summary as samples begin. -/
theorem namedBy_distributionSlots {values : List (Tags × Export.Distribution)} (hs : summary ≠ "")
    (hf : f ∈ distributionFamilies summary stem tail unit values) :
    NamedBy (distributionSlots summary stem tail) f := by
  rcases List.mem_cons.mp hf with rfl | hf
  · refine ⟨hs, _, List.mem_cons_self, ?_⟩
    exact ⟨'_' :: "count".toList, by simp [Family.of, extend]⟩
  · obtain ⟨e, he, rfl⟩ := List.mem_map.mp hf
    have hslot : (⟨statisticName stem tail e.1, none⟩ : Slot) ∈ distributionSlots summary stem tail := by
      simp only [distributionSlots, List.mem_cons, List.mem_append, List.mem_map]
      exact .inr (.inr (.inr ⟨e, he, rfl⟩))
    have hne : statisticName stem tail e.1 ≠ "" := by
      cases tail with
      | none => exact extend_ne_empty _ _
      | some u => exact extend_ne_empty _ _
    exact ⟨hne, _, hslot, List.prefix_refl _⟩

/-- All families are named as samples begin. -/
theorem namedBy_slots (hd : d = .prometheus ∨ d = .openMetrics) (hf : f ∈ families d scope g) :
    NamedBy (slots d scope g.metadata) f := by
  have hcounter {stem : String} (h : Continues (d.baseName scope g.metadata.name) stem) :=
    counterFamilyName_ne_empty hd h
  have hne := baseName_ne_empty scope g.metadata.name d
  unfold families at hf
  unfold slots
  generalize d.baseName scope g.metadata.name = base at hf hcounter hne ⊢
  generalize unitWord g.metadata = unit at hf ⊢
  dsimp only at hf ⊢
  cases hk : g.metadata.kind with
  | counter =>
    rw [hk, List.mem_singleton] at hf
    subst hf
    exact ⟨hcounter ((Continues.refl base).extendOnce? unit), _, List.mem_cons_self,
      isPrefix_counterFamilyName d (extendOnce? base unit)⟩
  | gauge =>
    rw [hk, List.mem_singleton] at hf
    subst hf
    exact ⟨extendOnce?_ne_empty hne unit, _, List.mem_cons_self, List.prefix_refl _⟩
  | meter =>
    rw [hk, List.mem_cons] at hf
    obtain rfl | hf := hf
    · exact ⟨hcounter (.refl base), _, List.mem_cons_self, isPrefix_counterFamilyName d base⟩
    · exact (namedBy_rateSlots hf).mono (List.subset_cons_self _ _)
  | histogram =>
    rw [hk] at hf
    exact namedBy_distributionSlots (extendOnce?_ne_empty hne unit) hf
  | timer =>
    rw [hk, List.mem_append] at hf
    obtain hf | hf := hf
    · have hsummary := extendOnce_ne_empty hne MeasureUnit.secondsWord
      exact (namedBy_distributionSlots hsummary hf).mono (List.subset_append_left _ _)
    · exact (namedBy_rateSlots hf).mono (List.subset_append_right _ _)

end Families

section Documents

variable {d : Dialect} {settings : Settings} {selection : Selection} {w : World} {k : RegistryKey}
  {name? : Option String} {globals : List Tag} {scope : Scope} {g : Group} {n : String}

/-- A name of a group is safe and begins the name of a slot. -/
theorem of_mem_groupNames (hd : d = .prometheus ∨ d = .openMetrics)
    (hg : g ∈ (Export.collectGroups k name? globals w).1) (hn : n ∈ groupNames d scope g) :
    SafeText n ∧ n ≠ "" ∧ ∃ s ∈ slots d scope g.metadata, n.toList <+: s.name.toList := by
  have hsafe := safe_of_mem_families d scope g
  rcases List.mem_append.mp hn with hn | hn
  · obtain ⟨f, hf, rfl⟩ := List.mem_map.mp hn
    have hnamed := namedBy_slots hd hf
    exact ⟨(hsafe f hf).name, hnamed.ne_empty, hnamed.begins⟩
  · obtain ⟨t, ht, hname⟩ := List.mem_map.mp ((mem_sampleNames_iff hg scope).mp hn)
    obtain ⟨s, hs, rfl⟩ := List.mem_map.mp hn
    obtain ⟨f, hf, hs⟩ := List.mem_flatMap.mp hs
    refine ⟨(hsafe f hf).samples s hs, ?_, t, ht, hname ▸ List.prefix_refl _⟩
    intro hempty
    have hbase := (continues_of_mem_slots ht).isPrefix
    rw [hname, hempty] at hbase
    exact baseName_ne_empty scope _ d (String.toList_eq_nil_iff.mp (List.prefix_nil.mp hbase))

/-- The names of a group are names unless the scope begins with a digit. -/
theorem isName_of_mem_groupNames (hd : d = .prometheus ∨ d = .openMetrics)
    (hg : g ∈ (Export.collectGroups k name? globals w).1) (hn : n ∈ groupNames d scope g) :
    isName n = true ↔ beginsWithDigit scope = false := by
  have hseparator : d.separator.isDigit = false := by
    obtain rfl | rfl := hd <;> rfl
  obtain ⟨hsafe, hne, s, hs, hbegins⟩ := of_mem_groupNames hd hg hn
  have hbase := (continues_of_mem_slots hs).isPrefix
  rw [isName_iff hsafe hne, Name.beginsWithDigit_of_isPrefix hne hbegins,
    ← Name.beginsWithDigit_of_isPrefix (baseName_ne_empty scope _ d) hbase,
    beginsWithDigit_baseName scope _ hseparator]

/-- Sanitizing leaves the names of a group alone when its joints are as it would leave them. -/
theorem sanitize_groupNames_iff (hd : d = .prometheus ∨ d = .openMetrics)
    (hg : g ∈ (Export.collectGroups k name? globals w).1) :
    (∀ n ∈ groupNames d scope g, Name.sanitize n = n) ↔ JoinsWell d scope g.metadata := by
  have hseparator : d.separator.isAlphanum = false := by
    obtain rfl | rfl := hd <;> rfl
  rw [← settled_slots_iff hseparator]
  constructor
  · intro h s hs
    have hn := (mem_sampleNames_iff hg scope).mpr (List.mem_map_of_mem hs)
    exact Name.sanitize_eq_self_iff.mp (h s.name (List.mem_append_right _ hn))
  · intro h n hn
    obtain ⟨-, -, s, hs, hbegins⟩ := of_mem_groupNames hd hg hn
    exact Name.sanitize_eq_self_iff.mpr ((h s hs).of_isPrefix hbegins)

/-- The names in a document, of either format, are those of the families of the exported groups and of
their samples. Whatever the names, kinds and units of metrics are, each of them is a name of the text
formats exactly if the scope does not begin with a digit. Sanitizing leaves all names of a group alone
exactly if its joints are as sanitizing would leave them, which the end of the metric's name and the ends
of its unit decide. -/
theorem names_well_formed (hd : d = .prometheus ∨ d = .openMetrics) {lines : List Line}
    (hl : (documentLines? d settings selection w).1 = some lines) :
    ∃ groups, exportedGroups? settings.globalTags selection w = some groups ∧
      (∀ n, n ∈ lines.filterMap Line.name? ↔ ∃ e ∈ groups, n ∈ groupNames d e.1 e.2) ∧
      ∀ e ∈ groups,
        (∀ n ∈ groupNames d e.1 e.2, isName n = true ↔ beginsWithDigit e.1 = false) ∧
        ((∀ n ∈ groupNames d e.1 e.2, Name.sanitize n = n) ↔ JoinsWell d e.1 e.2.metadata) := by
  obtain ⟨groups, hgroups⟩ := exists_exportedGroups hl
  refine ⟨groups, hgroups, fun n => mem_names_iff hgroups hl, fun e he => ?_⟩
  obtain ⟨k, v, -, -, hg⟩ := collected_of_mem_exportedGroups hgroups he
  exact ⟨fun n hn => isName_of_mem_groupNames hd hg hn, sanitize_groupNames_iff hd hg⟩

/-- A counter in a scope without digits has names that are as sanitizing would leave them. -/
theorem names_well_formed_counter :
    ∃ lines, (documentLines? .openMetrics .default .all (worldOfCounters ["a"])).1 = some lines ∧
      ∀ n ∈ lines.filterMap Line.name?, isName n = true ∧ Name.sanitize n = n := by
  obtain ⟨lines, hl⟩ : ∃ lines,
      (documentLines? .openMetrics .default .all (worldOfCounters ["a"])).1 = some lines := ⟨_, rfl⟩
  obtain ⟨groups, hgroups, hnames, hgroup⟩ := names_well_formed (.inr rfl) hl
  have hshown : (exportedGroups? [] .all (worldOfCounters ["a"])).map
      (·.map fun e => (e.1, e.2.metadata)) = some [("s", .ofKind "a" .counter)] := by decide +kernel
  have hgroups : exportedGroups? [] .all (worldOfCounters ["a"]) = some groups := hgroups
  rw [hgroups, Option.map_some, Option.some.injEq] at hshown
  refine ⟨lines, hl, fun n hn => ?_⟩
  obtain ⟨e, he, hn⟩ := (hnames n).mp hn
  obtain ⟨hscope, hmetadata⟩ : e.1 = "s" ∧ e.2.metadata = .ofKind "a" .counter := by
    have hmem := List.mem_map_of_mem (f := fun e : Scope × Group => (e.1, e.2.metadata)) he
    rw [hshown, List.mem_singleton] at hmem
    exact Prod.mk.inj hmem
  obtain ⟨hname, hsettled⟩ := hgroup e he
  have hjoins : JoinsWell .openMetrics e.1 e.2.metadata := by
    rw [hscope, hmetadata]
    change endsPlain "a" = true
    decide
  exact ⟨(hname n hn).mpr (hscope ▸ by decide), hsettled.mpr hjoins n hn⟩

/-- Documents have names that begin with a digit, and names that sanitizing would change. -/
theorem names_ill_formed :
    (∃ lines, (documentLines? .prometheus .default .all
        (withCounters ((World.start 1).init "1s").2 ["a"])).1 = some lines ∧
      ∃ n ∈ lines.filterMap Line.name?, isName n = false) ∧
    ∃ lines, (documentLines? .openMetrics .default .all (worldOfCounters ["a."])).1 = some lines ∧
      ∃ n ∈ lines.filterMap Line.name?, Name.sanitize n ≠ n := by
  refine ⟨⟨_, rfl, ?_⟩, ⟨_, rfl, ?_⟩⟩
  · decide +kernel
  · decide +kernel

end Documents

end Telemetry.Exposition
