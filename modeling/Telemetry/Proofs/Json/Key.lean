import Telemetry.Json.Document
import Telemetry.Proofs.Text.Reading
import Mathlib.Data.List.Basic

/-!
# Keys of instruments

A key is the sanitized name and the tags, each after a semicolon, in which no semicolon of a value is
left. Where no tag key has a semicolon or an equals sign, a key says all about the sanitized name, the
tag keys and the values as they are written there, and nothing else. A reader that cuts a key apart gets
these back exactly there.
-/

namespace Telemetry.Json

/-- A tag whose key is told from its value and from other tags in the key of an instrument. -/
def SeparableTag (t : Tag) : Prop := ';' ∉ t.key.toList ∧ '=' ∉ t.key.toList

/-- A value as it is written in the key of an instrument. -/
def keyValue (value : String) : List Char := value.toList.map fun c => if c = ';' then '_' else c

/-- What the key of an instrument says about a tag. -/
def keyTag (t : Tag) : Tag := ⟨t.key, String.ofList (keyValue t.value)⟩

/-- The text of a tag in the key of an instrument. -/
def tagChars (t : Tag) : List Char := t.key.toList ++ '=' :: keyValue t.value

/-- Read the text of a tag. -/
def readTag? (cs : List Char) : Option Tag :=
  (Text.cut? '=' cs).map fun p => ⟨String.ofList p.1, String.ofList p.2⟩

/-- Read the key of an instrument: the name stands before the first semicolon, and a tag in each piece
after it. -/
def readKey? (key : String) : Option (String × List Tag) :=
  match Text.pieces ';' key.toList with
  | [] => none
  | name :: tags => (tags.mapM readTag?).map fun ts => (String.ofList name, ts)

variable {n m : String} {t : Tag} {ts us : List Tag}

/-- No semicolon is left in a value. -/
theorem semicolon_not_mem_keyValue (value : String) : ';' ∉ keyValue value := by
  intro h
  obtain ⟨c, -, hc⟩ := List.mem_map.mp h
  split at hc
  · exact absurd hc (by decide)
  · contradiction

/-- The text of a separable tag has no semicolon. -/
theorem SeparableTag.semicolon_not_mem (ht : SeparableTag t) : ';' ∉ tagChars t := by
  simp [tagChars, ht.1, semicolon_not_mem_keyValue]

/-- The text of a separable tag is read back. -/
theorem SeparableTag.readTag?_tagChars (ht : SeparableTag t) :
    readTag? (tagChars t) = some (keyTag t) := by
  rw [readTag?, tagChars, Text.cut?_append ht.2, Option.map_some, String.ofList_toList]
  rfl

/-- A text of a tag that is read back is that of a tag whose key has no equals sign. -/
theorem equals_not_mem_of_readTag? (h : readTag? (tagChars t) = some (keyTag t)) :
    '=' ∉ t.key.toList := by
  obtain ⟨p, hp, htag⟩ := Option.map_eq_some_iff.mp h
  obtain ⟨hkey, -⟩ := Tag.mk.inj htag
  rw [← hkey, String.toList_ofList]
  exact Text.not_mem_of_cut? hp

/-- No semicolon is left in a sanitized name. -/
theorem semicolon_not_mem_sanitize (n : String) : ';' ∉ (Name.sanitize n).toList := by
  intro h
  rw [Name.sanitize, String.toList_ofList] at h
  have hsafe := Name.isSafe_of_mem_sanitizeFrom h
  contradiction

/-- The pieces of a key are the name and the pieces of the tags. -/
theorem pieces_key_eq (n : String) (ts : List Tag) :
    Text.pieces ';' (key n ts).toList =
      (Name.sanitize n).toList :: ts.flatMap fun t => Text.pieces ';' (tagChars t) := by
  have hparts : ts.flatMap tagPart = (ts.map tagChars).flatMap fun p => ';' :: p := by
    rw [List.flatMap_map]
    rfl
  rw [key, String.toList_ofList, hparts, Text.pieces_append_flatMap,
    Text.pieces_of_not_mem (semicolon_not_mem_sanitize n), List.flatMap_map, List.singleton_append]

/-- Tags without a semicolon are one piece each. -/
theorem flatMap_pieces_tagChars (h : ∀ t ∈ ts, ';' ∉ tagChars t) :
    (ts.flatMap fun t => Text.pieces ';' (tagChars t)) = ts.map tagChars := by
  have hpieces : ∀ t ∈ ts, Text.pieces ';' (tagChars t) = [tagChars t] :=
    fun t ht => Text.pieces_of_not_mem (h t ht)
  rw [List.flatMap_congr hpieces, ← List.map_eq_flatMap]

/-- A key is taken apart at its semicolons. -/
theorem pieces_key (n : String) (hts : ∀ t ∈ ts, SeparableTag t) :
    Text.pieces ';' (key n ts).toList = (Name.sanitize n).toList :: ts.map tagChars := by
  rw [pieces_key_eq, flatMap_pieces_tagChars fun t ht => (hts t ht).semicolon_not_mem]

/-- Separable tags are read back one by one. -/
theorem map_readTag?_tagChars (hts : ∀ t ∈ ts, SeparableTag t) :
    (ts.map tagChars).map readTag? = (ts.map keyTag).map some := by
  rw [List.map_map, List.map_map]
  exact List.map_congr_left fun t ht => (hts t ht).readTag?_tagChars

/-- The tags of a key have one piece each, and one more for each semicolon. -/
theorem length_pieces_tags (ts : List Tag) :
    (ts.flatMap fun t => Text.pieces ';' (tagChars t)).length =
      (ts.flatMap tagChars).count ';' + ts.length := by
  induction ts with
  | nil => rfl
  | cons t rest ih =>
    rw [List.flatMap_cons, List.length_append, Text.length_pieces, ih, List.flatMap_cons,
      List.count_append, List.length_cons]
    omega

/-- The name and the tags of an instrument are read back from its key exactly where no tag key has a
semicolon or an equals sign. -/
theorem readKey?_key_iff (n : String) (ts : List Tag) :
    readKey? (key n ts) = some (Name.sanitize n, ts.map keyTag) ↔ ∀ t ∈ ts, SeparableTag t := by
  have hread : readKey? (key n ts) = some (Name.sanitize n, ts.map keyTag) ↔
      (ts.flatMap fun t => Text.pieces ';' (tagChars t)).map readTag? = (ts.map keyTag).map some := by
    rw [← Text.mapM_eq_some_iff, readKey?, pieces_key_eq]
    simp [String.ofList_toList]
  rw [hread]
  constructor
  · intro h
    -- One piece is read for each tag, so there is no semicolon to make more pieces of a tag.
    have hlength := congrArg List.length h
    rw [List.length_map, List.length_map, List.length_map, length_pieces_tags] at hlength
    have hnone : ';' ∉ ts.flatMap tagChars := List.count_eq_zero.mp (by omega)
    have hsemicolon : ∀ t ∈ ts, ';' ∉ tagChars t := fun t ht hmem =>
      hnone (List.mem_flatMap.mpr ⟨t, ht, hmem⟩)
    rw [flatMap_pieces_tagChars hsemicolon, List.map_map, List.map_map] at h
    intro t ht
    have htag : readTag? (tagChars t) = some (keyTag t) := List.map_inj_left.mp h t ht
    have hkey : ';' ∉ t.key.toList := fun hmem =>
      hsemicolon t ht (List.mem_append_left _ hmem)
    exact ⟨hkey, equals_not_mem_of_readTag? htag⟩
  · intro hts
    rw [flatMap_pieces_tagChars fun t ht => (hts t ht).semicolon_not_mem]
    exact map_readTag?_tagChars hts

/-- Tag keys with a semicolon or an equals sign: other tags are read, or none, and different tags have
one key. -/
theorem readKey?_key_fails :
    readKey? (key "n" [⟨"a;b", "c"⟩]) = none ∧
      readKey? (key "n" [⟨"a=b", "c"⟩]) = some ("n", [⟨"a", "b=c"⟩]) ∧
      key "n" [⟨"a=x;b", "y"⟩] = key "n" [⟨"a", "x"⟩, ⟨"b", "y"⟩] := by
  decide +kernel

/-- Two instruments have the same key exactly when their sanitized names are the same, and their tags
as they are written there. -/
theorem key_eq_iff (hts : ∀ t ∈ ts, SeparableTag t) (hus : ∀ t ∈ us, SeparableTag t) :
    key n ts = key m us ↔ Name.sanitize n = Name.sanitize m ∧ ts.map keyTag = us.map keyTag := by
  constructor
  · intro h
    have hpieces := pieces_key n hts
    rw [h, pieces_key m hus] at hpieces
    obtain ⟨hname, htags⟩ := List.cons.inj hpieces
    refine ⟨String.toList_inj.mp hname.symm, ?_⟩
    have hsome := congrArg (List.map readTag?) htags
    rw [map_readTag?_tagChars hus, map_readTag?_tagChars hts] at hsome
    exact (List.map_injective_iff.mpr (fun _ _ => Option.some.inj) hsome).symm
  · rintro ⟨hname, htags⟩
    have hparts (ts : List Tag) : ts.flatMap tagPart =
        (ts.map keyTag).flatMap fun t => ';' :: (t.key.toList ++ '=' :: t.value.toList) := by
      rw [List.flatMap_map]
      refine List.flatMap_congr fun t _ => ?_
      simp [tagPart, keyTag, keyValue]
    rw [key, key, hname, hparts, hparts, htags]

end Telemetry.Json
