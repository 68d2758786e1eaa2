import Telemetry.Proofs.Export.Parallel
import Telemetry.Proofs.World.Alike

/-!
# Exports are not seen

Where gauges remove nothing, an export and a request read registries and instruments and bring meters
and timers up to date, and that is all. Worlds that are like a calm one are therefore carried along by
exports.
-/

namespace Telemetry

open World (Along Carries Unseen)

namespace World

variable {α : Type} {f : World → α × World}

/-- Two worlds that are like a calm one. -/
def Beside (u w v : World) : Prop := u.Calm ∧ u.Alike w ∧ u.Alike v

/-- An unseen step has one answer in all worlds that are like a calm one. -/
theorem Unseen.along (hf : Unseen f) (u : World) : Along u.Beside Eq f f := by
  rintro w v ⟨hc, hw, hv⟩
  obtain ⟨hanswer, hlater⟩ := hf hc hw
  obtain ⟨hanswer', hlater'⟩ := hf hc hv
  exact ⟨hanswer.trans hanswer'.symm, hc, hlater, hlater'⟩

/-- A step that has one answer in all worlds like a calm one, and leads to such worlds, is unseen. -/
theorem Unseen.of_along (h : ∀ u : World, Along u.Beside Eq f f) : Unseen f := by
  intro w v hc hv
  obtain ⟨hanswer, -, -, hlater⟩ := h w ⟨hc, .refl w, hv⟩
  exact ⟨hanswer.symm, hlater⟩

end World

namespace Export

/-- Reading an instrument for a document is not seen. -/
theorem unseen_readInstrument (unit : Option String) (h : Handle) :
    Unseen (readInstrument · unit h) := by
  cases h with
  | counter n => exact .look fun _ _ h => by rw [Store.counter, Store.counter, h.counters]
  | gauge n =>
    exact (World.unseen_readGauge n).map fun x => Reading.gauge (MeasureUnit.toBase unit x)
  | histogram n => exact .look fun _ _ h => by rw [Store.histogram, Store.histogram, h.histograms]
  | meter n =>
    exact (World.unseen_meterRates n).bind fun rates =>
      .look (q := fun w => Reading.meter (w.store.meter n).count rates) fun _ _ h => by
        rw [h.count_meter]
  | timer n =>
    let distribution (t : Timer) : Distribution :=
      .of t.count t.elapsed.toFloat t.snapshot durationUnit
    have hlook : Unseen fun w => (distribution (w.store.timer n), w) := .look fun _ _ h => by
      obtain ⟨hdurations, helapsed, -⟩ := h.timers n
      simp only [distribution, Timer.count, Timer.snapshot, hdurations, helapsed]
    exact hlook.bind fun d => (World.unseen_timerRates n).map (Reading.timer d)

/-- Exports carry along what is like a calm world. -/
theorem carries_beside (u : World) : Carries u.Beside Eq Eq fun _ => True where
  scopes _ _ h := h.2.2.scopes.trans h.2.1.scopes.symm
  live _ _ _ _ _ _ := trivial
  metadata _ _ h k _ _ := Related.rel_eq_iff.mpr (by rw [h.2.1.registry_eq, h.2.2.registry_eq])
  instruments _ _ h k _ _ := Related.rel_eq_iff.mpr (by rw [h.2.1.registry_eq, h.2.2.registry_eq])
  kind_metadata _ _ h := congrArg Metadata.kind h.symm
  kind_handle _ _ h := congrArg Handle.kind h.symm
  read m _ h _ hm hh := by
    subst hm hh
    exact (unseen_readInstrument m.unit h).along u

/-- Nor is reading a group, as far as it is not left out. -/
theorem unseen_readGroup (k : RegistryKey) (name : String) (globals : List Tag)
    (entries : List (Identity × Handle)) :
    Unseen fun w =>
      ((readGroup k name globals entries w).1.toOption.toList, (readGroup k name globals entries w).2) := by
  apply Unseen.of_along
  intro u
  have hsame : List.Forall₂ (SameEntry Eq) entries entries :=
    List.forall₂_same.mpr fun _ _ => ⟨rfl, rfl⟩
  intro w v h
  obtain ⟨hrel, hlater⟩ := along_readGroup (carries_beside u) trivial name globals hsame h
  refine ⟨?_, hlater⟩
  obtain ⟨hw, hv⟩ | ⟨g, g', hw, hv, hg⟩ := Related.cases_of_rel hrel
  · simp only [hw, hv]
  · simp only [hw, hv, hg.eq]

/-- Nor is collecting the groups of a registry. -/
theorem unseen_collectGroups (k : RegistryKey) (name? : Option String) (globals : List Tag) :
    Unseen (collectGroups k name? globals) :=
  .of_along fun u => along_sameGroups (carries_beside u) trivial name? globals

end Export

namespace Exposition

open Export (Settings Selection carries_beside)

/-- A text document is made without being seen. -/
theorem unseen_document? (d : Dialect) (settings : Settings) (selection : Selection) :
    Unseen (document? d settings selection) :=
  .of_along fun u => along_document? (carries_beside u)
    (fun scope _ _ h => congrArg (groupLines d settings scope) h.eq) selection

end Exposition

namespace Json

open Export (Settings Selection carries_beside)

variable {contribution : Contribution}

/-- The object of a selection is put together without being seen. -/
theorem unseen_object? (hc : ∀ name? k, Unseen (contribution name? k)) (selection : Selection) :
    Unseen (object? contribution selection) :=
  .of_along fun u =>
    along_object? (carries_beside u) (fun name? k _ => (hc name? k).along u) selection

/-- So is a document. -/
theorem unseen_write? (hc : ∀ name? k, Unseen (contribution name? k)) (selection : Selection) :
    Unseen (write? contribution selection) :=
  (unseen_object? hc selection).map (Option.map fun t => (Json.ofTable t).write)

/-- The values of a registry are read without being seen. -/
theorem unseen_scopeValues (settings : Settings) (name? : Option String) (k : RegistryKey) :
    Unseen (scopeValues settings name? k) :=
  .of_along fun u => along_scopeValues (carries_beside u) settings name? k trivial

/-- So is the metadata of a registry. -/
theorem unseen_scopeMetadata (name? : Option String) (k : RegistryKey) :
    Unseen (scopeMetadata name? k) :=
  .of_along fun u => along_scopeMetadata (carries_beside u) name? k trivial

end Json

end Telemetry
