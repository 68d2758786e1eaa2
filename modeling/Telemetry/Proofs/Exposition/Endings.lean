import Telemetry.Proofs.Exposition.Dialects
import Telemetry.Proofs.Exposition.Series

/-!
# The endings of counters

A counter is named with its unit and then with the ending of counters, and a name that ends with one of
the two does not get it again. Each is looked for at the very end, where the ending of counters hides the
unit: a name that has got both is given both once more, unless the unit itself ends as counters do.
-/

namespace Telemetry.Exposition

open Export (Group)

/-- The name of a counter's samples: the base name with the unit, if there is one, and then with the
ending of counters. -/
def counterName (unit : Option String) (base : String) : String :=
  counterSampleName (extendOnce? base unit)

/-- Words that are the ending of counters, or end with it. -/
def EndsInTotal (w : String) : Prop := w = totalWord ∨ hasWord w totalWord = true

instance (w : String) : Decidable (EndsInTotal w) :=
  inferInstanceAs (Decidable (w = totalWord ∨ hasWord w totalWord = true))

section Words

variable {n u w : String} {unit : Option String}

/-- The names that do not get a word are those that end with it. -/
theorem extendOnce_eq_self_iff : extendOnce n w = n ↔ hasWord n w = true := by
  constructor
  · intro h
    rw [← h]
    exact hasWord_extendOnce n w
  · exact fun h => if_pos h

/-- A name that ends with the unit as well as with the ending of counters has a unit that ends so. -/
theorem endsInTotal_of_hasWord (hu : hasWord n u = true) (ht : hasWord n totalWord = true) :
    EndsInTotal u := by
  rw [hasWord_iff] at hu ht
  obtain h | h := List.suffix_or_suffix_of_suffix hu ht
  · obtain heq | h := List.suffix_cons_iff.mp h
    · exact .inl (String.ext_iff.mpr (List.cons.inj heq).2)
    · exact absurd (h.subset List.mem_cons_self) (by decide)
  · obtain heq | h := List.suffix_cons_iff.mp h
    · exact .inl (String.ext_iff.mpr (List.cons.inj heq).2.symm)
    · exact .inr (hasWord_iff.mpr h)

/-- A name that ends with a unit ends as the unit does. -/
theorem EndsInTotal.hasWord (h : EndsInTotal u) (hu : Exposition.hasWord n u = true) :
    Exposition.hasWord n totalWord = true := by
  obtain rfl | h := h
  · exact hu
  · rw [hasWord_iff] at h hu ⊢
    exact (h.trans (List.suffix_cons '_' u.toList)).trans hu

/-- Every counter's name has the ending of counters. -/
theorem hasWord_counterName (unit : Option String) (base : String) :
    hasWord (counterName unit base) totalWord = true := hasWord_extendOnce _ _

/-- The names that stay as they are have the ending of counters, and the unit as well. -/
theorem counterName_eq_self_iff :
    counterName unit n = n ↔ hasWord n totalWord = true ∧ ∀ u ∈ unit, hasWord n u = true := by
  constructor
  · intro h
    refine ⟨h ▸ hasWord_counterName unit n, fun u hu => ?_⟩
    rw [Option.mem_def] at hu
    rw [hu, counterName, counterSampleName, extendOnce_eq, extendOnce?, extendOnce_eq] at h
    by_contra hmissing
    simp [ending, hmissing, String.ext_iff] at h
  · rintro ⟨htotal, hunit⟩
    have hstem : extendOnce? n unit = n := by
      cases unit with
      | none => rfl
      | some u => exact extendOnce_eq_self_iff.mpr (hunit u rfl)
    rw [counterName, hstem]
    exact extendOnce_eq_self_iff.mpr htotal

/-- A name keeps its unit at its end if the unit ends as counters do. -/
theorem EndsInTotal.counterName_eq (h : EndsInTotal u) (base : String) :
    counterName (some u) base = extendOnce base u :=
  extendOnce_eq_self_iff.mpr (h.hasWord (hasWord_extendOnce base u))

/-- A counter's name is given nothing once more exactly if its unit, where it has one, ends as counters
do. -/
theorem counterName_counterName_iff (unit : Option String) (base : String) :
    counterName unit (counterName unit base) = counterName unit base ↔ ∀ u ∈ unit, EndsInTotal u := by
  have htotal := hasWord_counterName unit base
  rw [counterName_eq_self_iff]
  constructor
  · exact fun h u hu => endsInTotal_of_hasWord (h.2 u hu) htotal
  · refine fun h => ⟨htotal, fun u hu => ?_⟩
    rw [Option.mem_def] at hu
    subst hu
    rw [(h u rfl).counterName_eq]
    exact hasWord_extendOnce base u

/-- A name that has both endings is given both once more, unless the unit ends as counters do. -/
theorem counterName_of_not_endsInTotal (hu : ¬ EndsInTotal u) (base : String) :
    counterName (some u) (extend (extend base u) totalWord) =
      extend (extend (extend (extend base u) totalWord) u) totalWord := by
  have hunit : ¬ hasWord (extend (extend base u) totalWord) u = true :=
    fun h => hu (endsInTotal_of_hasWord h (hasWord_extend _ _))
  have htotal : ¬ hasWord (extend (extend (extend base u) totalWord) u) totalWord = true :=
    fun h => hu (endsInTotal_of_hasWord (hasWord_extend _ _) h)
  have hstem : extendOnce (extend (extend base u) totalWord) u =
      extend (extend (extend base u) totalWord) u := if_neg hunit
  rw [counterName, extendOnce?, hstem]
  exact if_neg htotal

end Words

/-- The samples of a group of counters are named so. -/
theorem name_of_mem_counterSamples {d : Dialect} {scope : Scope} {g : Group}
    (hk : g.metadata.kind = .counter) {s : Sample} (hs : s ∈ groupSamples d scope g) :
    s.name = counterName (unitWord g.metadata) (d.baseName scope g.metadata.name) := by
  rw [groupSamples, families, hk, List.flatMap_singleton, counterFamily, Family.of, List.mem_map] at hs
  obtain ⟨v, -, hv⟩ := hs
  rw [← hv, counterName]

/-- A counter's name is given its endings once more, unless there is no unit or the unit ends as counters
do; in particular a name that ends with a unit and then as counters do is given both a second time. The
names that stay as they are end as counters do and with the unit, if there is one. In both text formats
the samples of a group of counters are named so. -/
theorem endings_once_more (unit : Option String) (base : String) :
    (counterName unit (counterName unit base) = counterName unit base ↔ ∀ u ∈ unit, EndsInTotal u) ∧
    (∀ u ∈ unit, ¬ EndsInTotal u → counterName unit (extend (extend base u) totalWord) =
      extend (extend (extend (extend base u) totalWord) u) totalWord) ∧
    (counterName unit base = base ↔
      hasWord base totalWord = true ∧ ∀ u ∈ unit, hasWord base u = true) ∧
    ∀ d scope g, g.metadata.kind = .counter → unitWord g.metadata = unit →
      d.baseName scope g.metadata.name = base →
      ∀ s ∈ groupSamples d scope g, s.name = counterName unit base := by
  refine ⟨counterName_counterName_iff unit base, fun u hu hends => ?_, counterName_eq_self_iff, ?_⟩
  · rw [Option.mem_def] at hu
    rw [hu]
    exact counterName_of_not_endsInTotal hends base
  · rintro d scope g hk rfl rfl s hs
    exact name_of_mem_counterSamples hk hs

/-- A counter of bytes whose name has both endings. -/
def counterOfBytes : Group :=
  ⟨{ Metadata.ofKind "sent_bytes_total" .counter with unit := some "bytes" },
    [⟨Tags.ofList [], .counter 0⟩]⟩

/-- Bytes do not end as counters do. -/
theorem endings_once_more_bytes :
    counterName (some "bytes") (counterName (some "bytes") "s_sent") ≠
        counterName (some "bytes") "s_sent" ∧
      ∀ s ∈ groupSamples .prometheus "s" counterOfBytes,
        s.name = counterName (some "bytes") "s_sent_bytes_total" := by
  obtain ⟨htwice, -, -, -⟩ := endings_once_more (some "bytes") "s_sent"
  obtain ⟨-, -, -, hnames⟩ := endings_once_more (some "bytes") "s_sent_bytes_total"
  have hbytes : ¬ EndsInTotal "bytes" := by decide
  refine ⟨fun h => hbytes (htwice.mp h "bytes" rfl), ?_⟩
  exact hnames .prometheus "s" counterOfBytes rfl (by decide) (by decide)

/-- The name of a counter of bytes is given endings that it has, in both formats. -/
theorem endings_doubled :
    (families .prometheus "s" counterOfBytes).map Family.sampleNames =
        [["s_sent_bytes_total_bytes_total"]] ∧
      (families .openMetrics "s" counterOfBytes).map Family.sampleNames =
        [["s:sent_bytes_total_bytes_total"]] := by
  exact ⟨by decide, by decide⟩

end Telemetry.Exposition
