import Telemetry.Exposition.Family

/-!
# The names in documents

Names are glued together from a sanitized base, a sanitized unit and fixed endings. All characters
of the result are safe ones, whatever the scope, the name and the unit are: none of them begins a
comment, opens a label block or ends a name.
-/

namespace Telemetry.Exposition

open Export (Distribution Group)

/-- A text of safe characters. -/
def SafeText (s : String) : Prop := ∀ c ∈ s.toList, Name.isSafe c = true

instance (s : String) : Decidable (SafeText s) :=
  decidable_of_iff (s.toList.all Name.isSafe = true) List.all_eq_true

section Text

variable {s t : String} {d : Dialect} {unit : Option String}

/-- Sanitized names are safe. -/
theorem safeText_sanitize (s : String) : SafeText (Name.sanitize s) := by
  intro c hc
  rw [Name.sanitize, String.toList_ofList] at hc
  exact Name.isSafe_of_mem_sanitizeFrom hc

/-- Safe texts make safe texts. -/
theorem SafeText.append (hs : SafeText s) (ht : SafeText t) : SafeText (s ++ t) := by
  intro c hc
  rw [String.toList_append] at hc
  exact (List.mem_append.mp hc).elim (hs c) (ht c)

/-- A safe name with a safe ending is safe. -/
theorem SafeText.extend (hs : SafeText s) (ht : SafeText t) : SafeText (extend s t) :=
  (hs.append (by decide)).append ht

/-- A safe name with a safe ending is safe, also where it has the ending already. -/
theorem SafeText.extendOnce (hs : SafeText s) (ht : SafeText t) : SafeText (extendOnce s t) := by
  unfold Exposition.extendOnce
  split
  · exact hs
  · exact hs.extend ht

/-- A safe name with a safe ending, if there is one, is safe. -/
theorem SafeText.extendOnce? (hs : SafeText s) (hu : ∀ u ∈ unit, SafeText u) :
    SafeText (extendOnce? s unit) := by
  cases unit with
  | none => exact hs
  | some u => exact hs.extendOnce (hu u rfl)

/-- A safe name without an ending is safe. -/
theorem SafeText.dropEnding (hs : SafeText s) (t : String) : SafeText (Text.dropEnding s t) := by
  unfold Text.dropEnding
  split
  · intro c hc
    rw [String.toList_ofList] at hc
    exact hs c (List.mem_of_mem_take hc)
  · exact hs

/-- Base names are safe. -/
theorem safeText_baseName (d : Dialect) (scope : Scope) (name : String) :
    SafeText (d.baseName scope name) := safeText_sanitize _

/-- Names of counter samples are safe. -/
theorem SafeText.counterSampleName (hs : SafeText s) : SafeText (counterSampleName s) :=
  hs.extendOnce (by decide)

/-- Names of counter families are safe. -/
theorem SafeText.counterFamilyName (hs : SafeText s) (d : Dialect) :
    SafeText (d.counterFamilyName s) := by
  unfold Dialect.counterFamilyName
  split
  · exact hs.counterSampleName
  · exact hs.dropEnding _

/-- The unit in names is safe. -/
theorem safeText_of_mem_unitWord {m : Metadata} {u : String} (hu : u ∈ unitWord m) : SafeText u := by
  obtain ⟨word, -, rfl⟩ := Option.map_eq_some_iff.mp hu
  exact safeText_sanitize word

end Text

/-- Without a unit there is nothing to check. -/
theorem safeText_of_mem_none : ∀ u ∈ (none : Option String), SafeText u := by simp

/-- A family whose names and unit are safe. -/
structure Family.Safe (f : Family) : Prop where
  name : SafeText f.name
  unit : ∀ u ∈ f.unit, SafeText u
  samples : ∀ s ∈ f.samples, SafeText s.name

section Family

variable {name base ending : String} {unit : Option String}

/-- A family of a safe name, unit and samples is safe. -/
theorem Family.safe_of {type : FamilyType} {samples : List Sample} (hn : SafeText name)
    (hu : ∀ u ∈ unit, SafeText u) (hs : ∀ s ∈ samples, SafeText s.name) :
    (Family.of name type unit samples).Safe where
  name := hn
  unit u h := hu u (Option.filter_eq_some_iff.mp h).1
  samples := hs

/-- Families of gauges are safe. -/
theorem safe_gaugeFamily (hn : SafeText name) (hu : ∀ u ∈ unit, SafeText u)
    (values : List (Tags × Float)) : (gaugeFamily name unit values).Safe :=
  Family.safe_of hn hu fun s hs => by
    obtain ⟨v, -, rfl⟩ := List.mem_map.mp hs
    exact hn

/-- Families of counters are safe. -/
theorem safe_counterFamily (d : Dialect) (hn : SafeText name) (hu : ∀ u ∈ unit, SafeText u)
    (values : List (Tags × Float)) : (counterFamily d name unit values).Safe :=
  Family.safe_of (hn.counterFamilyName d) hu fun s hs => by
    obtain ⟨v, -, rfl⟩ := List.mem_map.mp hs
    exact hn.counterSampleName

/-- The endings of rates are safe. -/
theorem safeText_rateEndings : ∀ e ∈ rateEndings, SafeText e.1 := by
  simp only [rateEndings, List.forall_mem_cons]
  exact ⟨by decide, by decide, by decide, by decide, nofun⟩

/-- The endings of statistics are safe. -/
theorem safeText_statisticEndings : ∀ e ∈ statisticEndings, SafeText e.1 := by
  simp only [statisticEndings, List.forall_mem_cons]
  exact ⟨by decide, by decide, by decide, by decide, nofun⟩

/-- Families of rates are safe. -/
theorem safe_of_mem_rateFamilies (hb : SafeText base) (values : List (Tags × Pace.Rates)) :
    ∀ f ∈ rateFamilies base values, f.Safe := by
  intro f hf
  obtain ⟨e, he, rfl⟩ := List.mem_map.mp hf
  exact safe_gaugeFamily (hb.extend (safeText_rateEndings e he)) safeText_of_mem_none _

/-- The samples of a summary are safe. -/
theorem safeText_of_mem_summarySamples (hn : SafeText name) (tags : Tags) (x : Distribution) :
    ∀ s ∈ summarySamples name tags x, SafeText s.name := by
  simp only [summarySamples, List.forall_mem_cons, List.forall_mem_map]
  exact ⟨hn.extend (by decide), hn.extend (by decide), fun _ _ => hn⟩

/-- Families of distributions are safe. -/
theorem safe_of_mem_distributionFamilies {summary stem : String} {tail : Option String}
    (hsummary : SafeText summary) (hstem : SafeText stem) (ht : ∀ u ∈ tail, SafeText u)
    (hu : ∀ u ∈ unit, SafeText u) (values : List (Tags × Distribution)) :
    ∀ f ∈ distributionFamilies summary stem tail unit values, f.Safe := by
  rw [distributionFamilies, List.forall_mem_cons]
  constructor
  · refine Family.safe_of hsummary hu fun s hs => ?_
    obtain ⟨v, -, hs⟩ := List.mem_flatMap.mp hs
    exact safeText_of_mem_summarySamples hsummary v.1 v.2 s hs
  · intro f hf
    obtain ⟨e, he, rfl⟩ := List.mem_map.mp hf
    have hstatistic : SafeText (extend stem e.1) := hstem.extend (safeText_statisticEndings e he)
    refine safe_gaugeFamily ?_ hu _
    cases tail with
    | none => exact hstatistic
    | some tail => exact hstatistic.extend (ht tail rfl)

/-- All families of a group are safe. -/
theorem safe_of_mem_families (d : Dialect) (scope : Scope) (g : Group) :
    ∀ f ∈ families d scope g, f.Safe := by
  have hbase := safeText_baseName d scope g.metadata.name
  have hunit : ∀ u ∈ unitWord g.metadata, SafeText u := fun u hu => safeText_of_mem_unitWord hu
  have hstem := hbase.extendOnce? hunit
  unfold families
  dsimp only
  split
  · rw [List.forall_mem_singleton]
    exact safe_counterFamily d hstem hunit _
  · rw [List.forall_mem_singleton]
    exact safe_gaugeFamily hstem hunit _
  · rw [List.forall_mem_cons]
    exact ⟨safe_counterFamily d hbase safeText_of_mem_none _, safe_of_mem_rateFamilies hbase _⟩
  · exact safe_of_mem_distributionFamilies hstem hbase hunit hunit _
  · have hseconds : SafeText MeasureUnit.secondsWord := by decide
    have hsummary := hbase.extendOnce hseconds
    rw [List.forall_mem_append]
    refine ⟨safe_of_mem_distributionFamilies hsummary hsummary safeText_of_mem_none ?_ _,
      safe_of_mem_rateFamilies hbase _⟩
    intro u hu
    obtain rfl := Option.some.inj hu
    exact hseconds

end Family

end Telemetry.Exposition
