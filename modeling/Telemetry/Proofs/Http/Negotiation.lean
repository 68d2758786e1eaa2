import Telemetry.Http.Negotiation
import Telemetry.Proofs.Text.Blank
import Telemetry.Proofs.Text.Reading

/-!
# What an `Accept` value asks for

An `Accept` value is written from media ranges: each a media type with blank characters around it, and then
its parameters. However it is written, the first range decides whose type is known; letter case, parameters,
blank characters and ranges of other types make no difference. Only a value of nothing but blank characters
asks for nothing.
-/

namespace Telemetry.Http

/-- A media range as it is written. Its type ends before the first semicolon, and the range before the first
comma. -/
structure MediaRange where
  left : List Char
  type : String
  right : List Char
  /-- What follows each semicolon, blank characters included. -/
  parameters : List (List Char)
  left_blank : ∀ c ∈ left, Text.isBlank c = true
  right_blank : ∀ c ∈ right, Text.isBlank c = true
  /-- The type has no blank characters at its ends. -/
  type_trimmed : Text.Trimmed type.toList type.toList
  type_plain : ',' ∉ type.toList ∧ ';' ∉ type.toList
  parameters_plain : ∀ p ∈ parameters, ',' ∉ p

/-- The text of a range. -/
def MediaRange.chars (r : MediaRange) : List Char :=
  r.left ++ r.type.toList ++ r.right ++ r.parameters.flatMap fun p => ';' :: p

/-- The `Accept` value that ranges are written as. -/
def acceptOf (ranges : List MediaRange) : String :=
  Text.join "," (ranges.map fun r => String.ofList r.chars)

/-- A text of nothing but blank characters. -/
def Blank (s : String) : Prop := ∀ c ∈ s.toList, Text.isBlank c = true

/-- The formats that media types ask for, in any letter case. -/
inductive Asks (type : String) : Format → Prop
  | openMetrics (h : Text.sameLetters type "application/openmetrics-text" = true) :
      Asks type .openMetrics
  | json (h : Text.sameLetters type "application/json" = true) : Asks type .json
  | plainText (h : Text.sameLetters type "text/plain" = true) : Asks type .prometheus
  | anyText (h : Text.sameLetters type "text/*" = true) : Asks type .prometheus
  | anything (h : Text.sameLetters type "*/*" = true) : Asks type .prometheus

/-- Ranges written differently: types in other letter case, with other blank characters around them and
other parameters, and ranges of unknown types put in or left out. -/
inductive Reworded : List MediaRange → List MediaRange → Prop
  | nil : Reworded [] []
  | respelled {r r' : MediaRange} {rest rest' : List MediaRange}
      (h : Text.sameLetters r.type r'.type = true) (hrest : Reworded rest rest') :
      Reworded (r :: rest) (r' :: rest')
  | inserted {r : MediaRange} {ranges rest : List MediaRange} (h : ∀ f, ¬ Asks r.type f)
      (hrest : Reworded ranges rest) : Reworded ranges (r :: rest)
  | omitted {r : MediaRange} {ranges rest : List MediaRange} (h : ∀ f, ¬ Asks r.type f)
      (hrest : Reworded rest ranges) : Reworded (r :: rest) ranges

variable {f : Format} {r : MediaRange} {ranges ranges' : List MediaRange} {value : String}

section Types

variable {left right : List Char}

/-- Blank characters around a range do not change its type. -/
theorem mediaType_surround (hleft : ∀ c ∈ left, Text.isBlank c = true)
    (hright : ∀ c ∈ right, Text.isBlank c = true) (cs : List Char) :
    Format.mediaType (left ++ cs ++ right) = Format.mediaType cs := by
  have hl : ';' ∉ left := Text.not_mem_of_blank (by decide) hleft
  have hr : ';' ∉ right := Text.not_mem_of_blank (by decide) hright
  have htrim : Text.trim (Text.before ';' (left ++ cs ++ right)) = Text.trim (Text.before ';' cs) := by
    by_cases h : ';' ∈ cs
    · obtain ⟨type, parameters, rfl, ht⟩ := List.eq_append_cons_of_mem h
      have hbefore : Text.before ';' (left ++ type ++ ';' :: (parameters ++ right)) = left ++ type :=
        Text.before_append (by simp [hl, ht]) _
      have htype := Text.trim_surround hleft (List.forall_mem_nil _) type
      rw [List.append_nil] at htype
      rw [Text.before_append ht, ← htype, ← hbefore]
      simp
    · rw [Text.before_of_not_mem h, Text.before_of_not_mem (by simp [hl, h, hr]),
        Text.trim_surround hleft hright]
  rw [Format.mediaType, htrim, Format.mediaType]

/-- The type of a range is read from its text, in lower case. -/
theorem mediaType_chars (r : MediaRange) : Format.mediaType r.chars = Text.lower r.type := by
  have hl : ';' ∉ r.left := Text.not_mem_of_blank (by decide) r.left_blank
  have hr : ';' ∉ r.right := Text.not_mem_of_blank (by decide) r.right_blank
  have hsemicolon : ';' ∉ r.left ++ r.type.toList ++ r.right := by
    simp [hl, hr, r.type_plain]
  have hbefore : Text.before ';' r.chars = r.left ++ r.type.toList ++ r.right := by
    rw [MediaRange.chars]
    cases r.parameters with
    | nil => simpa using Text.before_of_not_mem hsemicolon
    | cons p rest => exact Text.before_append hsemicolon _
  rw [Format.mediaType, hbefore, Text.trim_surround r.left_blank r.right_blank,
    r.type_trimmed.trim_eq, String.ofList_toList]

/-- The text of a range has no comma. -/
theorem comma_not_mem_chars (r : MediaRange) : ',' ∉ r.chars := by
  have hl : ',' ∉ r.left := Text.not_mem_of_blank (by decide) r.left_blank
  have hr : ',' ∉ r.right := Text.not_mem_of_blank (by decide) r.right_blank
  have hp : ',' ∉ r.parameters.flatMap fun p => ';' :: p := by
    simpa using r.parameters_plain
  simp [MediaRange.chars, hl, hr, hp, r.type_plain]

/-- A word in lower case is spelled by the texts that are this word in lower case. -/
theorem sameLetters_iff {s word : String} (hword : Text.lower word = word) :
    Text.sameLetters s word = true ↔ Text.lower s = word := by
  rw [Text.sameLetters, hword, beq_iff_eq]

/-- A type is looked up among the known ones. -/
theorem asks_iff {type : String} : Asks type f ↔ Format.ranges.lookup (Text.lower type) = some f := by
  have hlower : ∀ e ∈ Format.ranges, Text.lower e.1 = e.1 := by decide
  simp only [Format.ranges, List.forall_mem_cons] at hlower
  obtain ⟨hopenMetrics, hjson, hplainText, hanyText, hanything, -⟩ := hlower
  constructor
  · intro h
    cases h with
    | openMetrics h => rw [(sameLetters_iff hopenMetrics).mp h]; decide
    | json h => rw [(sameLetters_iff hjson).mp h]; decide
    | plainText h => rw [(sameLetters_iff hplainText).mp h]; decide
    | anyText h => rw [(sameLetters_iff hanyText).mp h]; decide
    | anything h => rw [(sameLetters_iff hanything).mp h]; decide
  · intro h
    obtain ⟨before, after, hranges, -⟩ := List.lookup_eq_some_iff.mp h
    have hmem : (Text.lower type, f) ∈ Format.ranges := by
      rw [hranges]
      exact List.mem_append_right before List.mem_cons_self
    simp only [Format.ranges, List.mem_cons, Prod.mk.injEq, List.not_mem_nil, or_false] at hmem
    obtain ⟨hword, rfl⟩ | ⟨hword, rfl⟩ | ⟨hword, rfl⟩ | ⟨hword, rfl⟩ | ⟨hword, rfl⟩ := hmem
    · exact .openMetrics ((sameLetters_iff hopenMetrics).mpr hword)
    · exact .json ((sameLetters_iff hjson).mpr hword)
    · exact .plainText ((sameLetters_iff hplainText).mpr hword)
    · exact .anyText ((sameLetters_iff hanyText).mpr hword)
    · exact .anything ((sameLetters_iff hanything).mpr hword)

end Types

section Values

/-- Trimming a value changes none of its types. -/
theorem mediaTypes_trim (cs : List Char) :
    (Text.pieces ',' (Text.trim cs)).map Format.mediaType =
      (Text.pieces ',' cs).map Format.mediaType := by
  obtain ⟨left, right, hcs, hleft, hright⟩ := (Text.trimmed_trim cs).between
  have hl (p : List Char) : Format.mediaType (left ++ p) = Format.mediaType p := by
    simpa using mediaType_surround hleft (List.forall_mem_nil _) p
  have hr (p : List Char) : Format.mediaType (p ++ right) = Format.mediaType p :=
    mediaType_surround (List.forall_mem_nil _) hright p
  conv_rhs => rw [hcs]
  rw [Text.map_pieces_append_right (Text.not_mem_of_blank (by decide) hright) hr,
    Text.map_pieces_append_left (Text.not_mem_of_blank (by decide) hleft) hl]

/-- Pieces are searched by their types. -/
theorem findSome?_ofRange? (ranges : List (List Char)) :
    ranges.findSome? Format.ofRange? =
      (ranges.map Format.mediaType).findSome? fun type => Format.ranges.lookup type := by
  rw [List.findSome?_map]
  rfl

/-- A value that is not blank is read piece by piece. -/
theorem negotiate_of_not_blank (h : ¬ Blank value) :
    Format.negotiate (some value) = (Text.pieces ',' value.toList).findSome? Format.ofRange? := by
  have hne : (Text.trim value.toList).isEmpty = false := by
    rw [List.isEmpty_eq_false_iff]
    exact mt (fun hnil => Text.trimmed_nil_iff.mp (Text.trim_eq_iff.mp hnil)) h
  rw [findSome?_ofRange?, ← mediaTypes_trim, ← findSome?_ofRange?, Format.negotiate]
  exact if_neg (Bool.eq_false_iff.mp hne)

/-- A value that is blank asks for nothing. -/
theorem negotiate_of_blank (h : Blank value) : Format.negotiate (some value) = some .prometheus := by
  have hnil : Text.trim value.toList = [] := Text.trim_eq_iff.mpr (Text.trimmed_nil_iff.mpr h)
  rw [Format.negotiate, Option.getD_some, hnil]
  exact if_pos rfl

/-- A value is cut into the ranges that it is written from. -/
theorem pieces_acceptOf (hne : ranges ≠ []) :
    Text.pieces ',' (acceptOf ranges).toList = ranges.map MediaRange.chars := by
  have hpieces : Text.pieces ',' (acceptOf ranges).toList =
      (ranges.map fun r => String.ofList r.chars).map String.toList := by
    apply Text.pieces_join (by decide) (by simpa using hne)
    simpa using fun r _ => comma_not_mem_chars r
  simpa [Function.comp_def] using hpieces

/-- A value that is not blank is read range by range. -/
theorem negotiate_acceptOf (h : ¬ Blank (acceptOf ranges)) :
    Format.negotiate (some (acceptOf ranges)) = ranges.findSome? fun r => Format.ofRange? r.chars := by
  have hne : ranges ≠ [] := by
    rintro rfl
    exact h (by simp [Blank, acceptOf, Text.join])
  simp only [negotiate_of_not_blank h, pieces_acceptOf hne, List.findSome?_map, Function.comp_def]

/-- A range is known by its type. -/
theorem ofRange?_chars_eq_some_iff : Format.ofRange? r.chars = some f ↔ Asks r.type f := by
  rw [Format.ofRange?, mediaType_chars, asks_iff]

/-- A range is unknown when its type asks for nothing. -/
theorem ofRange?_chars_eq_none_iff : Format.ofRange? r.chars = none ↔ ∀ f, ¬ Asks r.type f := by
  rw [Option.eq_none_iff_forall_ne_some]
  exact forall_congr' fun f => not_congr ofRange?_chars_eq_some_iff

/-- A value is not blank when one of its types is not empty. -/
theorem not_blank_acceptOf (hr : r ∈ ranges) (ht : r.type ≠ "") : ¬ Blank (acceptOf ranges) := by
  intro hblank
  -- A blank value has no comma, so it is written from this range alone.
  have hcomma : ',' ∉ (acceptOf ranges).toList := Text.not_mem_of_blank (by decide) hblank
  have hpieces := pieces_acceptOf (List.ne_nil_of_mem hr)
  rw [Text.pieces_of_not_mem hcomma] at hpieces
  have hchars : r.chars = (acceptOf ranges).toList := by
    have hmem : r.chars ∈ ranges.map MediaRange.chars := List.mem_map_of_mem hr
    rwa [← hpieces, List.mem_singleton] at hmem
  cases htype : r.type.toList with
  | nil => exact ht (String.toList_eq_nil_iff.mp htype)
  | cons c rest =>
    have hfirst : Text.isBlank c = false := r.type_trimmed.first c (by simp [htype])
    have hmem : c ∈ r.chars := by simp [MediaRange.chars, htype]
    rw [hblank c (hchars ▸ hmem)] at hfirst
    contradiction

/-- Ranges written differently ask for the same. -/
theorem Reworded.findSome?_eq (h : Reworded ranges ranges') :
    ranges'.findSome? (fun r => Format.ofRange? r.chars) =
      ranges.findSome? fun r => Format.ofRange? r.chars := by
  induction h with
  | nil => rfl
  | respelled h _ ih =>
    rw [List.findSome?_cons, List.findSome?_cons, Format.ofRange?, Format.ofRange?, mediaType_chars,
      mediaType_chars, beq_iff_eq.mp h, ih]
  | inserted h _ ih => rw [List.findSome?_cons, ofRange?_chars_eq_none_iff.mpr h]; exact ih
  | omitted h _ ih => rw [List.findSome?_cons, ofRange?_chars_eq_none_iff.mpr h]; exact ih

/-- The first range of a known type decides what an `Accept` value asks for, and there is no format when no
type is known. This holds of every value that is not blank, and a value is not blank when one of its types
is not empty; a blank value is served the Prometheus format. Letter case, parameters and blank characters
make no difference, nor do ranges of unknown types. -/
theorem negotiate_first_known (ranges : List MediaRange) :
    (Blank (acceptOf ranges) → Format.negotiate (some (acceptOf ranges)) = some .prometheus) ∧
    (¬ Blank (acceptOf ranges) →
      (∀ f, Format.negotiate (some (acceptOf ranges)) = some f ↔
        ∃ before r after, ranges = before ++ r :: after ∧ Asks r.type f ∧
          ∀ x ∈ before, ∀ f', ¬ Asks x.type f') ∧
      (Format.negotiate (some (acceptOf ranges)) = none ↔ ∀ r ∈ ranges, ∀ f, ¬ Asks r.type f)) ∧
    (∀ r ∈ ranges, r.type ≠ "" → ¬ Blank (acceptOf ranges)) ∧
    ∀ ranges', Reworded ranges ranges' → ¬ Blank (acceptOf ranges) → ¬ Blank (acceptOf ranges') →
      Format.negotiate (some (acceptOf ranges')) = Format.negotiate (some (acceptOf ranges)) := by
  refine ⟨negotiate_of_blank, fun h => ?_, fun r hr ht => not_blank_acceptOf hr ht,
    fun ranges' hreworded h h' => ?_⟩
  · rw [negotiate_acceptOf h]
    constructor
    · intro f
      simp only [List.findSome?_eq_some_iff, ofRange?_chars_eq_some_iff, ofRange?_chars_eq_none_iff]
    · simp only [List.findSome?_eq_none_iff, ofRange?_chars_eq_none_iff]
  · rw [negotiate_acceptOf h, negotiate_acceptOf h', hreworded.findSome?_eq]

/-- A range of a type that is not known. -/
def pageRange : MediaRange where
  left := []
  type := "text/html"
  right := ['\t']
  parameters := ["level=1".toList, "q=0.9".toList]
  left_blank := nofun
  right_blank := List.forall_mem_singleton.mpr rfl
  type_trimmed := Text.trim_eq_iff.mp (by decide)
  type_plain := by decide
  parameters_plain := by decide

/-- A range of a known type in other letter case. -/
def objectRange : MediaRange where
  left := [' ', ' ']
  type := "Application/JSON"
  right := []
  parameters := [" q=0.1 ".toList]
  left_blank := List.forall_mem_cons.mpr ⟨rfl, List.forall_mem_singleton.mpr rfl⟩
  right_blank := nofun
  type_trimmed := Text.trim_eq_iff.mp (by decide)
  type_plain := by decide
  parameters_plain := by decide

/-- The first known type is asked for, also behind an unknown one that is preferred. -/
theorem negotiate_first_known_json :
    acceptOf [pageRange, objectRange] = "text/html\t;level=1;q=0.9,  Application/JSON; q=0.1 " ∧
      Format.negotiate (some "text/html\t;level=1;q=0.9,  Application/JSON; q=0.1 ") = some .json := by
  have hwritten : acceptOf [pageRange, objectRange] =
      "text/html\t;level=1;q=0.9,  Application/JSON; q=0.1 " := by decide
  obtain ⟨-, hknown, hblank, -⟩ := negotiate_first_known [pageRange, objectRange]
  have hsome : ¬ Blank (acceptOf [pageRange, objectRange]) :=
    hblank objectRange (List.mem_cons_of_mem _ List.mem_cons_self) (by decide)
  have hunknown : ∀ x ∈ [pageRange], ∀ f, ¬ Asks x.type f := by
    rw [List.forall_mem_singleton]
    intro f hasks
    have hlookup : Format.ranges.lookup (Text.lower pageRange.type) = none := by decide
    rw [asks_iff, hlookup] at hasks
    contradiction
  refine ⟨hwritten, ?_⟩
  rw [← hwritten]
  exact ((hknown hsome).1 .json).mpr ⟨[pageRange], objectRange, [], rfl, .json (by decide), hunknown⟩

end Values

end Telemetry.Http
