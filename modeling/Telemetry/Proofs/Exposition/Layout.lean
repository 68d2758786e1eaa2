import Telemetry.Proofs.Export.Figures
import Telemetry.Proofs.Exposition.Decoding
import Telemetry.Proofs.Exposition.Dialects

/-!
# How a group is laid out

A group is written family after family, under names that are all different. A family is its header and then
all its samples: the header has one line for the type, at most one for a unit that the name ends with, and
the description in the first family only. The samples of a family have its name or one that goes on from
it: a summary has a count and a sum, and the samples of counters have the ending of counters also where
their family is declared without it. So it is in both text formats, whatever the name and the unit are.
-/

namespace Telemetry.Exposition

open Export (Distribution Group Settings memberSamples)

/-- The names that samples of a family can have. -/
inductive NamedAfter (d : Dialect) (f : Family) : String → Prop
  | name : NamedAfter d f f.name
  | count (ht : f.type = .summary) : NamedAfter d f (extend f.name "count")
  | sum (ht : f.type = .summary) : NamedAfter d f (extend f.name "sum")
  | total (ht : f.type = .counter) (hd : d.declaresTotal = false) :
      NamedAfter d f (extend f.name "total")

/-- A header of a family, in some order: the description if there is one, the type, and a unit if the name
ends with one. -/
def IsHeader (f : Family) (help : Option String) (header : List Line) : Prop :=
  ∃ unit : Option String, (∀ u ∈ unit, hasWord f.name u = true) ∧
    header.Perm ((help.map (Line.help f.name)).toList ++
      .type f.name f.type :: (unit.map (Line.unit f.name)).toList)

/-- A family whose unit and whose samples go with its name. -/
structure Family.Fits (d : Dialect) (f : Family) : Prop where
  unit : ∀ u ∈ f.unit, hasWord f.name u = true
  samples : ∀ s ∈ f.samples, NamedAfter d f s.name

variable {d : Dialect} {f : Family} {base summary stem : String} {unit tail : Option String}

section Headers

/-- Every family is written with a header of its own. -/
theorem isHeader_headerLines (hf : ∀ u ∈ f.unit, hasWord f.name u = true) (d : Dialect)
    (help : Option String) : IsHeader f help (headerLines d help f) := by
  refine ⟨if d.declaresUnits then f.unit else none, fun u hu => ?_, ?_⟩
  · split at hu
    · exact hf u hu
    · contradiction
  · have hunit : (if d.declaresUnits then (f.unit.map (Line.unit f.name)).toList else []) =
        ((if d.declaresUnits then f.unit else none).map (Line.unit f.name)).toList := by
      split <;> rfl
    rw [headerLines, hunit]
    split
    · rw [List.append_assoc]
      exact .refl _
    · exact List.perm_append_comm

end Headers

section Samples

/-- The samples of counters have the ending of counters, also where families are declared without it. -/
theorem counterSampleName_eq (hd : d.declaresTotal = false) (stem : String) :
    counterSampleName stem = extend (d.counterFamilyName stem) totalWord := by
  rw [Dialect.counterFamilyName, hd, if_neg Bool.false_ne_true, counterSampleName, extendOnce]
  split
  · rename_i h
    rw [extend, String.append_assoc, Text.dropEnding_append h]
  · rename_i h
    rw [Text.dropEnding, if_neg h]

/-- A family of gauges has samples of its name. -/
theorem fits_gaugeFamily (d : Dialect) (name : String) (unit : Option String)
    (values : List (Tags × Float)) : (gaugeFamily name unit values).Fits d where
  unit u hu := endsWith_of_unit hu
  samples s hs := by
    obtain ⟨v, -, rfl⟩ := List.mem_map.mp hs
    exact .name

/-- A family of counters has samples of its name, or of the name with the ending of counters. -/
theorem fits_counterFamily (d : Dialect) (stem : String) (unit : Option String)
    (values : List (Tags × Float)) : (counterFamily d stem unit values).Fits d where
  unit u hu := endsWith_of_unit hu
  samples s hs := by
    obtain ⟨v, -, rfl⟩ := List.mem_map.mp hs
    dsimp only
    cases hd : d.declaresTotal with
    | true =>
      have hname : (counterFamily d stem unit values).name = counterSampleName stem := if_pos hd
      rw [← hname]
      exact .name
    | false =>
      rw [counterSampleName_eq hd]
      exact .total rfl hd

/-- Families of rates have samples of their names. -/
theorem fits_of_mem_rateFamilies {values : List (Tags × Pace.Rates)} (hf : f ∈ rateFamilies base values) :
    f.Fits d := by
  obtain ⟨e, -, rfl⟩ := List.mem_map.mp hf
  exact fits_gaugeFamily d _ _ _

/-- A summary has samples of its name, a count and a sum, and statistics have samples of their names. -/
theorem fits_of_mem_distributionFamilies {values : List (Tags × Distribution)}
    (hf : f ∈ distributionFamilies summary stem tail unit values) : f.Fits d := by
  rcases List.mem_cons.mp hf with rfl | hf
  · refine ⟨fun u hu => endsWith_of_unit hu, fun s hs => ?_⟩
    obtain ⟨v, -, hs⟩ := List.mem_flatMap.mp hs
    simp only [summarySamples, List.mem_cons, List.mem_map] at hs
    obtain rfl | rfl | ⟨q, -, rfl⟩ := hs
    · exact .count rfl
    · exact .sum rfl
    · exact .name
  · obtain ⟨e, -, rfl⟩ := List.mem_map.mp hf
    exact fits_gaugeFamily d _ _ _

/-- All families of a group have samples that go with their names. -/
theorem fits_of_mem_families {scope : Scope} {g : Group} (hf : f ∈ families d scope g) : f.Fits d := by
  unfold families at hf
  dsimp only at hf
  split at hf
  · rw [List.mem_singleton.mp hf]
    exact fits_counterFamily d _ _ _
  · rw [List.mem_singleton.mp hf]
    exact fits_gaugeFamily d _ _ _
  · rcases List.mem_cons.mp hf with rfl | hf
    · exact fits_counterFamily d _ _ _
    · exact fits_of_mem_rateFamilies hf
  · exact fits_of_mem_distributionFamilies hf
  · rcases List.mem_append.mp hf with hf | hf
    · exact fits_of_mem_distributionFamilies hf
    · exact fits_of_mem_rateFamilies hf

end Samples

section Names

/-- Slots that are apart, one of them without a quantile, have different names. -/
theorem Slot.Apart.name_ne {a b : Slot} (h : a.Apart b) (hb : b.quantile = none) : a.name ≠ b.name := by
  obtain hne | ⟨p, q, -, hq, -⟩ := h
  · exact hne
  · rw [hb] at hq
    contradiction

/-- The names of families of a distribution are among those of its slots. -/
theorem exists_slot_of_mem_names {n : String}
    (hn : n ∈ summary :: statisticEndings.map fun e => statisticName stem tail e.1) :
    ∃ s ∈ distributionSlots summary stem tail, s.name = n := by
  simp only [distributionSlots, List.mem_cons, List.mem_append, List.mem_map]
  rcases List.mem_cons.mp hn with rfl | hn
  · exact ⟨_, .inr (.inr (.inl ⟨0.5, List.mem_cons_self, rfl⟩)), rfl⟩
  · obtain ⟨e, he, rfl⟩ := List.mem_map.mp hn
    exact ⟨_, .inr (.inr (.inr ⟨e, he, rfl⟩)), rfl⟩

/-- The names of families of a distribution are all different where its slots are apart. -/
theorem nodup_distributionNames (h : (distributionSlots summary stem tail).Pairwise Slot.Apart) :
    (summary :: statisticEndings.map fun e => statisticName stem tail e.1).Nodup := by
  simp only [distributionSlots, List.pairwise_cons, List.pairwise_append, List.forall_mem_map,
    List.pairwise_map] at h
  obtain ⟨-, -, -, hstatistics, hsummary⟩ := h
  rw [List.nodup_cons]
  constructor
  · intro hmem
    obtain ⟨e, he, hname⟩ := List.mem_map.mp hmem
    exact (hsummary 0.5 List.mem_cons_self e he).name_ne rfl hname.symm
  · exact List.pairwise_map.mpr (hstatistics.imp fun h => h.name_ne rfl)

/-- The names of families of rates are all different. -/
theorem nodup_rateNames (base : String) : (rateEndings.map fun e => extend base e.1).Nodup :=
  List.pairwise_map.mpr ((List.pairwise_map.mp (rateSlots_apart base)).imp fun h => h.name_ne rfl)

/-- A family of counts is not named like a rate. -/
theorem counterFamilyName_ne_rate (d : Dialect) (base : String) :
    d.counterFamilyName base ∉ rateEndings.map fun e => extend base e.1 := by
  intro h
  obtain ⟨e, he, hname⟩ := List.mem_map.mp h
  cases hd : d.declaresTotal with
  | true =>
    rw [Dialect.counterFamilyName, if_pos hd] at hname
    exact counterSampleName_ne_rate base (List.mem_map_of_mem he) hname.symm
  | false =>
    have hsample := counterSampleName_eq hd base
    rw [← hname, extend_extend, counterSampleName, extendOnce] at hsample
    split at hsample
    · exact extend_ne_self base _ hsample.symm
    · exact extend_ne_ending _ _ (extend_right_inj.mp hsample).symm

/-- No two families of a group have the same name. -/
theorem nodup_names_families (d : Dialect) (scope : Scope) (g : Group) :
    ((families d scope g).map (·.name)).Nodup := by
  unfold families
  generalize d.baseName scope g.metadata.name = base
  generalize unitWord g.metadata = unit
  dsimp only
  cases g.metadata.kind with
  | counter => exact List.pairwise_singleton _ _
  | gauge => exact List.pairwise_singleton _ _
  | meter => exact List.nodup_cons.mpr ⟨counterFamilyName_ne_rate d base, nodup_rateNames base⟩
  | histogram =>
    rw [names_distributionFamilies]
    exact nodup_distributionNames (histogramSlots_apart base unit)
  | timer =>
    rw [List.map_append, names_distributionFamilies, names_rateFamilies, List.nodup_append]
    refine ⟨nodup_distributionNames (timerSlots_apart _), nodup_rateNames base, ?_⟩
    intro n hn m hm
    obtain ⟨s, hs, rfl⟩ := exists_slot_of_mem_names hn
    obtain ⟨e, he, rfl⟩ := List.mem_map.mp hm
    exact timerSlots_apart_rateSlots base hs (List.mem_map_of_mem he)

end Names

section Groups

/-- A group has a family. -/
theorem exists_families_eq_cons (d : Dialect) (scope : Scope) (g : Group) :
    ∃ first rest, families d scope g = first :: rest := by
  unfold families
  dsimp only
  split <;> exact ⟨_, _, rfl⟩

/-- A group is written family after family, under names that are all different, and its text is read line by
line as its lines are written. The description stands in the first family, if there is one and it is to be
shown. Each family is its header and then all its samples, and the header is made of one line for the type
and at most one for a unit that the name ends with, besides the description. The samples have the name of
the family, or go on from it as those of a summary and of counters do, and all families together have the
samples of the group's members. -/
theorem families_laid_out (d : Dialect) (settings : Settings) (scope : Scope) (g : Group) :
    let help := if settings.help then g.metadata.description else none
    let lines := groupLines d settings scope g
    Reader.document? (render d lines) = some (lines.map Line.entry) ∧
      ∃ first rest, families d scope g = first :: rest ∧
        ((first :: rest).map (·.name)).Nodup ∧
        lines = familyLines d help first ++ rest.flatMap (familyLines d none) ∧
        ((first :: rest).flatMap (·.samples)).Perm
          ((g.members.filter fun x => x.reading.kind == g.metadata.kind).flatMap
            (memberSamples d scope g.metadata)) ∧
        ∀ f ∈ first :: rest, (∀ s ∈ f.samples, NamedAfter d f s.name) ∧
          ∀ help, ∃ header, IsHeader f help header ∧
            familyLines d help f = header ++ f.samples.map Line.sample := by
  intro help lines
  obtain ⟨first, rest, hfamilies⟩ := exists_families_eq_cons d scope g
  refine ⟨document?_render (safe_of_mem_groupLines d settings scope g), first, rest, hfamilies, ?_, ?_,
    ?_, fun f hf => ?_⟩
  · rw [← hfamilies]
    exact nodup_names_families d scope g
  · simp only [lines, groupLines, hfamilies, familiesLines, help]
  · rw [← hfamilies]
    exact Export.groupSamples_perm_members d scope g
  · rw [← hfamilies] at hf
    have hfits : f.Fits d := fits_of_mem_families hf
    exact ⟨hfits.samples, fun help => ⟨_, isHeader_headerLines hfits.unit d help, rfl⟩⟩

end Groups

end Telemetry.Exposition
