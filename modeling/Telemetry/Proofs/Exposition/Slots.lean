import Telemetry.Exposition.Document
import Mathlib.Data.List.Perm.Basic

/-!
# The names of samples

Which samples an instrument has is known without reading it: a list of names, some with a quantile,
that depends on the scope and the metadata only. All of them continue the base name of the metric, and
no two of them can be taken for one another, whatever the name and the unit are.
-/

namespace Telemetry.Exposition

section Names

variable {a b c e f : String}

/-- Endings are added one after the other. -/
theorem extend_extend (b e f : String) : extend (extend b e) f = extend b (extend e f) := by
  simp [extend, String.append_assoc]

/-- Names with the same beginning are told apart by their endings. -/
@[simp] theorem extend_right_inj : extend b e = extend b f ↔ e = f := by
  simp [extend, String.ext_iff]

/-- An ending makes another name. -/
@[simp] theorem extend_ne_self (b e : String) : extend b e ≠ b := by
  simp [extend, String.ext_iff]

/-- The name is the beginning of another, up to an underscore or to its end. -/
def Continues (b n : String) : Prop := n = b ∨ ∃ e, n = extend b e

/-- A name continues itself. -/
theorem Continues.refl (b : String) : Continues b b := .inl rfl

/-- A name with an ending continues it. -/
theorem Continues.extend (h : Continues a b) (e : String) : Continues a (extend b e) := by
  obtain rfl | ⟨f, rfl⟩ := h
  · exact .inr ⟨e, rfl⟩
  · exact .inr ⟨_, extend_extend _ _ _⟩

/-- A name with an ending continues it, also where it has the ending already. -/
theorem Continues.extendOnce (h : Continues a b) (e : String) : Continues a (extendOnce b e) := by
  unfold Exposition.extendOnce
  split
  · exact h
  · exact h.extend e

/-- The name of a counter's samples continues its stem. -/
theorem Continues.counterSampleName (h : Continues a b) : Continues a (counterSampleName b) :=
  h.extendOnce totalWord

/-- The same where there may be no ending. -/
theorem Continues.extendOnce? (h : Continues a b) (u : Option String) :
    Continues a (extendOnce? b u) := by
  cases u with
  | none => exact h
  | some u => exact h.extendOnce u

/-- Of two names that continue to the same name one continues the other. -/
theorem Continues.total (ha : Continues a c) (hb : Continues b c) :
    Continues a b ∨ Continues b a := by
  obtain rfl | ⟨e, rfl⟩ := ha
  · exact .inr hb
  obtain hb | ⟨f, hb⟩ := hb
  · exact .inl (.inr ⟨e, hb.symm⟩)
  have hlist : a.toList ++ '_' :: e.toList = b.toList ++ '_' :: f.toList := by
    simpa [Exposition.extend, String.ext_iff] using hb
  have hcontinues {a b : String} {more rest later : List Char} (hb : b.toList = a.toList ++ more)
      (hrest : '_' :: later = more ++ '_' :: rest) : Continues a b := by
    cases more with
    | nil => exact .inl (by simpa [String.ext_iff] using hb)
    | cons x more =>
      obtain ⟨rfl, -⟩ := List.cons.inj hrest
      exact .inr ⟨String.ofList more, by simp [Exposition.extend, String.ext_iff, hb]⟩
  obtain ⟨more, hb, hrest⟩ | ⟨more, ha, hrest⟩ := List.append_eq_append_iff.mp hlist
  · exact .inl (hcontinues hb hrest)
  · exact .inr (hcontinues ha hrest)

/-- Names with the same ending are told apart by what stands before it. -/
theorem extend_left_inj {e f u : String} : extend e u = extend f u ↔ e = f := by
  simp [extend, String.ext_iff]

/-- A text without an underscore does not end so. -/
theorem extend_ne_word {w : String} (hw : '_' ∉ w.toList) (e u : String) : extend e u ≠ w := by
  rintro rfl
  exact hw (by simp [extend])

/-- A text before and after an underscore is not the ending alone. -/
theorem extend_ne_ending (e u : String) : extend e u ≠ u := by
  intro h
  have hlength := congrArg (fun s : String => s.toList.length) h
  simp [extend] at hlength
  omega

/-- Texts that a third one can stand behind and before have the same characters. -/
theorem perm_of_extend_eq {e f u : String} (h : extend e u = extend u f) :
    e.toList.Perm f.toList := by
  have hlist : e.toList ++ '_' :: u.toList = u.toList ++ '_' :: f.toList := by
    simpa [extend, String.ext_iff] using h
  have hperm : (u.toList ++ '_' :: e.toList).Perm (u.toList ++ '_' :: f.toList) := by
    rw [← hlist]
    exact (List.perm_middle.trans (List.perm_append_comm.cons _)).trans List.perm_middle.symm
  exact (List.perm_cons _).mp ((List.perm_append_left_iff _).mp hperm)

end Names

/-- The name that a statistic of a distribution is shown under. -/
def statisticName (stem : String) (tail : Option String) (ending : String) : String :=
  match tail with
  | some tail => extend (extend stem ending) tail
  | none => extend stem ending

/-- The names of families of distributions. -/
theorem names_distributionFamilies (summary stem : String) (tail unit : Option String)
    (values : List (Tags × Export.Distribution)) :
    (distributionFamilies summary stem tail unit values).map (·.name) =
      summary :: statisticEndings.map fun e => statisticName stem tail e.1 := rfl

/-- The names of families of rates. -/
theorem names_rateFamilies (base : String) (values : List (Tags × Pace.Rates)) :
    (rateFamilies base values).map (·.name) = rateEndings.map fun e => extend base e.1 := rfl

/-- A name that an instrument has samples of, with a quantile if they are values at it. -/
structure Slot where
  name : String
  quantile : Option Float

/-- The slots of rates. -/
def rateSlots (base : String) : List Slot := rateEndings.map fun e => ⟨extend base e.1, none⟩

/-- The slots of a distribution. -/
def distributionSlots (summary stem : String) (tail : Option String) : List Slot :=
  ⟨extend summary "count", none⟩ :: ⟨extend summary "sum", none⟩ ::
  ((Sampling.Quantile.defaults.map fun q => ⟨summary, some (Sampling.Quantile.of q).value⟩) ++
    statisticEndings.map fun e => ⟨statisticName stem tail e.1, none⟩)

/-- The slots of an instrument of a name. -/
def slots (d : Dialect) (scope : Scope) (metadata : Metadata) : List Slot :=
  let base := d.baseName scope metadata.name
  let unit := unitWord metadata
  match metadata.kind with
  | .counter => [⟨counterSampleName (extendOnce? base unit), none⟩]
  | .gauge => [⟨extendOnce? base unit, none⟩]
  | .meter => ⟨counterSampleName base, none⟩ :: rateSlots base
  | .histogram => distributionSlots (extendOnce? base unit) base unit
  | .timer =>
    let summary := extendOnce base MeasureUnit.secondsWord
    distributionSlots summary summary none ++ rateSlots base

/-- Two slots that are different series whatever the tags are. -/
def Slot.Apart (a b : Slot) : Prop :=
  a.name ≠ b.name ∨
    ∃ p q, a.quantile = some p ∧ b.quantile = some q ∧ valueText p ≠ valueText q

section Slots

variable {base summary stem : String} {tail : Option String} {d : Dialect} {scope : Scope}
  {metadata : Metadata}

/-- The slots of rates are apart. -/
theorem rateSlots_apart (base : String) : (rateSlots base).Pairwise Slot.Apart := by
  have hendings : rateEndings.Pairwise fun a b => a.1 ≠ b.1 :=
    List.pairwise_map.mp (show (rateEndings.map Prod.fst).Nodup by decide)
  rw [rateSlots, List.pairwise_map]
  exact hendings.imp fun hne => .inl (mt extend_right_inj.mp hne)

/-- Statistics have different names. -/
theorem statisticName_injective (stem : String) (tail : Option String) {e f : String}
    (h : statisticName stem tail e = statisticName stem tail f) : e = f := by
  cases tail with
  | none => exact extend_right_inj.mp h
  | some u => exact extend_right_inj.mp (extend_left_inj.mp h)

/-- The slots of a distribution are apart where no statistic has a name of the summary. -/
theorem distributionSlots_apart (hs : ∀ e ∈ statisticEndings.map Prod.fst,
      statisticName stem tail e ≠ summary ∧
        ∀ f ∈ ["count", "sum"], statisticName stem tail e ≠ extend summary f) :
    (distributionSlots summary stem tail).Pairwise Slot.Apart := by
  have hquantiles : Sampling.Quantile.defaults.Pairwise fun p q =>
      valueText (Sampling.Quantile.of p).value ≠ valueText (Sampling.Quantile.of q).value := by
    decide +kernel
  have hendings : statisticEndings.Pairwise fun a b => a.1 ≠ b.1 :=
    List.pairwise_map.mp (show (statisticEndings.map Prod.fst).Nodup by decide)
  have hname {e : String × (Export.Distribution → Float)} (he : e ∈ statisticEndings) :=
    hs e.1 (List.mem_map_of_mem he)
  have hstatistics : (statisticEndings.map fun e =>
      (⟨statisticName stem tail e.1, none⟩ : Slot)).Pairwise Slot.Apart :=
    List.pairwise_map.mpr (hendings.imp fun hne => .inl (mt (statisticName_injective _ _) hne))
  have htexts : (Sampling.Quantile.defaults.map fun q =>
      (⟨summary, some (Sampling.Quantile.of q).value⟩ : Slot)).Pairwise Slot.Apart :=
    List.pairwise_map.mpr (hquantiles.imp fun hne => .inr ⟨_, _, rfl, rfl, hne⟩)
  simp only [distributionSlots, List.pairwise_cons, List.pairwise_append, List.forall_mem_cons,
    List.forall_mem_append, List.forall_mem_map]
  refine ⟨⟨.inl ?_, fun q _ => .inl ?_, fun e he => .inl ?_⟩, ⟨fun q _ => .inl ?_, fun e he => .inl ?_⟩,
    htexts, hstatistics, fun q _ e he => .inl ?_⟩
  · simp
  · simp
  · exact ((hname he).2 "count" (by simp)).symm
  · simp
  · exact ((hname he).2 "sum" (by simp)).symm
  · exact (hname he).1.symm

/-- The slots of a histogram are apart. -/
theorem histogramSlots_apart (base : String) (unit : Option String) :
    (distributionSlots (extendOnce? base unit) base unit).Pairwise Slot.Apart := by
  have hletters : ∀ e ∈ statisticEndings.map Prod.fst, ∀ f ∈ ["count", "sum"],
      ¬ e.toList.Perm f.toList := by decide
  refine distributionSlots_apart fun e he => ?_
  cases unit with
  | none =>
    refine ⟨extend_ne_self _ _, fun f hf => mt extend_right_inj.mp ?_⟩
    revert e f
    decide
  | some u =>
    simp only [statisticName, extendOnce?, extendOnce]
    split
    · rw [extend_extend]
      refine ⟨extend_ne_self _ _, fun f hf => mt extend_right_inj.mp (extend_ne_word ?_ _ _)⟩
      revert f
      decide
    · simp only [extend_extend, ne_eq, extend_right_inj]
      exact ⟨extend_ne_ending _ _, fun f hf h => hletters e he f hf (perm_of_extend_eq h)⟩

/-- The slots of a distribution of durations are apart. -/
theorem timerSlots_apart (summary : String) :
    (distributionSlots summary summary none).Pairwise Slot.Apart :=
  histogramSlots_apart summary none

/-- The names of a distribution of durations. -/
theorem name_of_mem_timerSlots {s : Slot} (hs : s ∈ distributionSlots summary summary none) :
    s.name = summary ∨
      ∃ e ∈ "count" :: "sum" :: statisticEndings.map Prod.fst, s.name = extend summary e := by
  simp only [distributionSlots, List.mem_cons, List.mem_append, List.mem_map] at hs
  obtain rfl | rfl | ⟨q, -, rfl⟩ | ⟨e, he, rfl⟩ := hs
  · exact .inr ⟨"count", by simp, rfl⟩
  · exact .inr ⟨"sum", by simp, rfl⟩
  · exact .inl rfl
  · exact .inr ⟨e.1, by simp [List.mem_map_of_mem he], rfl⟩

/-- No rate is named like a duration. -/
theorem timerSlots_apart_rateSlots (base : String) {s r : Slot}
    (hs : s ∈ distributionSlots (extendOnce base MeasureUnit.secondsWord)
      (extendOnce base MeasureUnit.secondsWord) none) (hr : r ∈ rateSlots base) :
    s.name ≠ r.name := by
  obtain ⟨x, hx, rfl⟩ := List.mem_map.mp hr
  have hx' : x.1 ∈ rateEndings.map Prod.fst := List.mem_map_of_mem hx
  have hseconds : ∀ x ∈ rateEndings.map Prod.fst, MeasureUnit.secondsWord ≠ x := by decide
  have hendings : ∀ e ∈ "count" :: "sum" :: statisticEndings.map Prod.fst,
      ∀ x ∈ rateEndings.map Prod.fst, e ≠ x ∧ extend MeasureUnit.secondsWord e ≠ x := by decide
  unfold extendOnce at hs
  split at hs
  · obtain hname | ⟨e, he, hname⟩ := name_of_mem_timerSlots hs
    · rw [hname]
      exact (extend_ne_self _ _).symm
    · rw [hname]
      exact mt extend_right_inj.mp (hendings e he x.1 hx').1
  · obtain hname | ⟨e, he, hname⟩ := name_of_mem_timerSlots hs
    · rw [hname]
      exact mt extend_right_inj.mp (hseconds x.1 hx')
    · rw [hname, extend_extend]
      exact mt extend_right_inj.mp (hendings e he x.1 hx').2

/-- No rate is named like a count of events. -/
theorem counterSampleName_ne_rate (base : String) {r : Slot} (hr : r ∈ rateSlots base) :
    counterSampleName base ≠ r.name := by
  obtain ⟨x, hx, rfl⟩ := List.mem_map.mp hr
  have hx' : x.1 ∈ rateEndings.map Prod.fst := List.mem_map_of_mem hx
  have htotal : ∀ x ∈ rateEndings.map Prod.fst, totalWord ≠ x := by decide
  unfold counterSampleName extendOnce
  split
  · exact (extend_ne_self _ _).symm
  · exact mt extend_right_inj.mp (htotal x.1 hx')

/-- The slots of an instrument are apart. -/
theorem slots_apart (d : Dialect) (scope : Scope) (metadata : Metadata) :
    (slots d scope metadata).Pairwise Slot.Apart := by
  unfold slots
  generalize d.baseName scope metadata.name = base
  dsimp only
  split
  · exact List.pairwise_singleton _ _
  · exact List.pairwise_singleton _ _
  · exact List.pairwise_cons.mpr
      ⟨fun r hr => .inl (counterSampleName_ne_rate base hr), rateSlots_apart base⟩
  · exact histogramSlots_apart base _
  · exact List.pairwise_append.mpr ⟨timerSlots_apart _, rateSlots_apart base,
      fun s hs r hr => .inl (timerSlots_apart_rateSlots base hs hr)⟩

/-- The names of rates continue the base name. -/
theorem continues_of_mem_rateSlots {s : Slot} (hs : s ∈ rateSlots base) : Continues base s.name := by
  obtain ⟨e, -, rfl⟩ := List.mem_map.mp hs
  exact (Continues.refl base).extend e.1

/-- The names of a distribution continue a name that its parts continue. -/
theorem continues_of_mem_distributionSlots (hsummary : Continues base summary)
    (hstem : Continues base stem) {s : Slot} (hs : s ∈ distributionSlots summary stem tail) :
    Continues base s.name := by
  simp only [distributionSlots, List.mem_cons, List.mem_append, List.mem_map] at hs
  obtain rfl | rfl | ⟨q, -, rfl⟩ | ⟨e, -, rfl⟩ := hs
  · exact hsummary.extend _
  · exact hsummary.extend _
  · exact hsummary
  · cases tail with
    | none => exact hstem.extend _
    | some tail => exact (hstem.extend _).extend _

/-- All names of an instrument continue its base name. -/
theorem continues_of_mem_slots {s : Slot} (hs : s ∈ slots d scope metadata) :
    Continues (d.baseName scope metadata.name) s.name := by
  unfold slots at hs
  generalize d.baseName scope metadata.name = base at hs ⊢
  have hbase := Continues.refl base
  dsimp only at hs
  split at hs
  · obtain rfl := List.mem_singleton.mp hs
    dsimp only
    exact (hbase.extendOnce? _).counterSampleName
  · obtain rfl := List.mem_singleton.mp hs
    exact hbase.extendOnce? _
  · rcases List.mem_cons.mp hs with rfl | hs
    · dsimp only
      exact hbase.counterSampleName
    · exact continues_of_mem_rateSlots hs
  · exact continues_of_mem_distributionSlots (hbase.extendOnce? _) hbase hs
  · have hseconds := hbase.extendOnce MeasureUnit.secondsWord
    rcases List.mem_append.mp hs with hs | hs
    · exact continues_of_mem_distributionSlots hseconds hseconds hs
    · exact continues_of_mem_rateSlots hs

end Slots

end Telemetry.Exposition
