import Telemetry.Json.Document
import Telemetry.Proofs.Export.Group
import Telemetry.Proofs.Exposition.Series

/-!
# Every format shows the same figures

A reading is a handful of numbers. The text formats give each of them a sample, found by its name and
its quantile, and JSON an entry, found by its key. Both are told here from one list of the numbers of a
reading, so what one format shows of an instrument the others show as well, number for number.
-/

namespace Telemetry.Export

open Exposition (Dialect Sample counterSampleName extend extendOnce extendOnce? groupSamples
  statisticName unitWord)
open Sampling (Quantile)

/-- What a number of a reading stands for. -/
inductive Figure where
  /-- The one number of a counter or a gauge. -/
  | value
  | count
  | sum
  | quantile (q : Quantile)
  | min
  | max
  | mean
  | stddev
  | meanRate
  | oneMinuteRate
  | fiveMinuteRate
  | fifteenMinuteRate

/-- A number of a reading. -/
inductive Number where
  /-- A count of recorded events or values. -/
  | count (n : UInt64)
  /-- A count that was converted to base units. -/
  | converted (x : Float)
  /-- Any other number. -/
  | measured (x : Float)

/-- The number as text documents have it. -/
def Number.float : Number → Float
  | .count n => n.toFloat
  | .converted x => x
  | .measured x => x

/-- The number as JSON documents have it. -/
def Number.json : Number → Json
  | .count n => .natural n.toNat
  | .converted x => .ofCount x
  | .measured x => .ofFloat x

/-- A JSON value says a number: an integer converts to it, and null stands for what is not finite. -/
def Says (x : Float) : Json → Prop
  | .null => x.isFinite = false
  | .decimal y => y = x ∧ x.isFinite = true
  | .natural n => ∃ c : UInt64, n = c.toNat ∧ (x = c.toFloat ∨ (c.toFloat == x) = true)
  | _ => False

/-- The numbers of a distribution. -/
def distributionFigures (d : Distribution) : List (Figure × Number) :=
  (.count, .count d.count) :: (.sum, .measured d.sum) ::
    (d.quantiles.map fun q => (.quantile q.1, .measured q.2)) ++
    [(.min, .measured d.min), (.max, .measured d.max), (.mean, .measured d.mean),
     (.stddev, .measured d.stddev)]

/-- The numbers of rates. -/
def rateFigures (r : Pace.Rates) : List (Figure × Number) :=
  [(.meanRate, .measured r.mean), (.oneMinuteRate, .measured r.oneMinute),
   (.fiveMinuteRate, .measured r.fiveMinutes), (.fifteenMinuteRate, .measured r.fifteenMinutes)]

/-- The numbers of a reading. -/
def Reading.figures : Reading → List (Figure × Number)
  | .counter x => [(.value, .converted x)]
  | .gauge x => [(.value, .measured x)]
  | .meter count rates => (.count, .count count) :: rateFigures rates
  | .histogram d => distributionFigures d
  | .timer d rates => distributionFigures d ++ rateFigures rates

/-- What the numbers of a distribution stand for. -/
def figuresOfDistribution : List Figure :=
  .count :: .sum :: (Quantile.defaults.map fun q => .quantile (.of q)) ++ [.min, .max, .mean, .stddev]

/-- What rates stand for. -/
def figuresOfRates : List Figure := [.meanRate, .oneMinuteRate, .fiveMinuteRate, .fifteenMinuteRate]

/-- What the numbers of a kind of instrument stand for. -/
def figuresOf : Kind → List Figure
  | .counter => [.value]
  | .gauge => [.value]
  | .meter => .count :: figuresOfRates
  | .histogram => figuresOfDistribution
  | .timer => figuresOfDistribution ++ figuresOfRates

/-- How many numbers a kind of instrument shows. -/
def shownBy : Kind → Nat
  | .counter => 1
  | .gauge => 1
  | .meter => 5
  | .histogram => 12
  | .timer => 16

section Text

/-- The name that the summary of a distribution has. -/
def summaryName (base : String) (metadata : Metadata) : String :=
  match metadata.kind with
  | .timer => extendOnce base MeasureUnit.secondsWord
  | _ => extendOnce? base (unitWord metadata)

/-- The name that a statistic of a distribution has: the unit comes last, unless it is a timer's. -/
def nameOfStatistic (base : String) (metadata : Metadata) (ending : String) : String :=
  match metadata.kind with
  | .timer => statisticName (summaryName base metadata) none ending
  | _ => statisticName base (unitWord metadata) ending

/-- The name of the sample that shows a figure. -/
def Figure.name (base : String) (metadata : Metadata) : Figure → String
  | .value =>
    match metadata.kind with
    | .counter => counterSampleName (extendOnce? base (unitWord metadata))
    | _ => extendOnce? base (unitWord metadata)
  | .count =>
    match metadata.kind with
    | .meter => counterSampleName base
    | _ => extend (summaryName base metadata) "count"
  | .sum => extend (summaryName base metadata) "sum"
  | .quantile _ => summaryName base metadata
  | .min => nameOfStatistic base metadata "min"
  | .max => nameOfStatistic base metadata "max"
  | .mean => nameOfStatistic base metadata "mean"
  | .stddev => nameOfStatistic base metadata "stddev"
  | .meanRate => extend base "rate_per_second"
  | .oneMinuteRate => extend base "one_min_rate_per_second"
  | .fiveMinuteRate => extend base "five_min_rate_per_second"
  | .fifteenMinuteRate => extend base "fifteen_min_rate_per_second"

/-- The quantile that is a label of the sample. -/
def Figure.quantile? : Figure → Option Float
  | .quantile q => some q.value
  | _ => none

/-- The sample of a number. -/
def sampleOf (d : Dialect) (scope : Scope) (metadata : Metadata) (tags : Tags)
    (e : Figure × Number) : Sample :=
  ⟨e.1.name (d.baseName scope metadata.name) metadata, tags, e.1.quantile?, e.2.float⟩

/-- The samples of a member of a group. -/
def memberSamples (d : Dialect) (scope : Scope) (metadata : Metadata) (x : Member) : List Sample :=
  x.reading.figures.map (sampleOf d scope metadata x.tags)

variable {metadata : Metadata} {x : Member}

/-- One distribution has a sample for each of its numbers. -/
theorem samples_distributionFamilies (summary stem : String) (tail unit : Option String) (tags : Tags)
    (d : Distribution) :
    (Exposition.distributionFamilies summary stem tail unit [(tags, d)]).flatMap (·.samples) =
      ⟨extend summary "count", tags, none, d.count.toFloat⟩ ::
        ⟨extend summary "sum", tags, none, d.sum⟩ ::
        (d.quantiles.map fun q => ⟨summary, tags, some q.1.value, q.2⟩) ++
        [⟨statisticName stem tail "min", tags, none, d.min⟩,
         ⟨statisticName stem tail "max", tags, none, d.max⟩,
         ⟨statisticName stem tail "mean", tags, none, d.mean⟩,
         ⟨statisticName stem tail "stddev", tags, none, d.stddev⟩] := by
  simp only [Exposition.distributionFamilies, Exposition.statisticEndings, List.flatMap_cons,
    List.flatMap_nil, List.append_nil, List.map_cons, List.map_nil, Exposition.gaugeFamily,
    Exposition.Family.of, Exposition.summarySamples]
  rfl

/-- The only member of a group has a sample for each of its numbers. -/
theorem groupSamples_singleton (d : Dialect) (scope : Scope)
    (hk : x.reading.kind = metadata.kind) :
    groupSamples d scope ⟨metadata, [x]⟩ = memberSamples d scope metadata x := by
  obtain ⟨tags, reading⟩ := x
  have hkind : metadata.kind = reading.kind := hk.symm
  simp only [groupSamples, memberSamples, Exposition.families, hkind]
  cases reading with
  | counter _ =>
    simp only [Reading.kind, Reading.figures, List.map_cons, sampleOf, Figure.name, hkind]
    rfl
  | gauge _ =>
    simp only [Reading.kind, Reading.figures, List.map_cons, sampleOf, Figure.name, hkind]
    rfl
  | meter _ _ =>
    simp only [Reading.kind, Reading.figures, rateFigures, List.map_cons, sampleOf, Figure.name, hkind]
    rfl
  | histogram d =>
    apply (samples_distributionFamilies _ _ _ _ _ _).trans
    simp [Reading.figures, distributionFigures, sampleOf, Figure.name, summaryName, nameOfStatistic,
      hkind, Reading.kind, Figure.quantile?, Number.float]
  | timer d rates =>
    have hrates (base : String) :
        (Exposition.rateFamilies base [(tags, rates)]).flatMap (·.samples) =
          (rateFigures rates).map fun e => ⟨e.1.name base metadata, tags, e.1.quantile?, e.2.float⟩ :=
      rfl
    apply List.flatMap_append.trans
    apply (congr (congrArg _ (samples_distributionFamilies _ _ _ _ _ _)) (hrates _)).trans
    simp [Reading.figures, distributionFigures, rateFigures, sampleOf, Figure.name, summaryName,
      nameOfStatistic, hkind, Reading.kind, Figure.quantile?, Number.float, Function.comp_def]

/-- A member of another kind than its group has no samples. -/
theorem groupSamples_singleton_of_ne (d : Dialect) (scope : Scope)
    (hk : x.reading.kind ≠ metadata.kind) : groupSamples d scope ⟨metadata, [x]⟩ = [] := by
  obtain ⟨tags, reading⟩ := x
  unfold groupSamples Exposition.families
  dsimp only at hk ⊢
  split
  all_goals
    rename_i hkind
    rw [hkind] at hk
    cases reading <;> trivial

/-- The samples of a group are those of its members, but for members of another kind. -/
theorem groupSamples_perm_members (d : Dialect) (scope : Scope) (g : Group) :
    (groupSamples d scope g).Perm
      ((g.members.filter fun x => x.reading.kind == g.metadata.kind).flatMap
        (memberSamples d scope g.metadata)) := by
  apply ((Exposition.additive_families d scope g.metadata).perm_flatMap g.members).trans
  apply List.Perm.of_eq
  change g.members.flatMap (fun x => groupSamples d scope ⟨g.metadata, [x]⟩) = _
  induction g.members with
  | nil => rfl
  | cons x rest ih =>
    rw [List.flatMap_cons, ih]
    by_cases hk : x.reading.kind = g.metadata.kind
    · have hkept : (x.reading.kind == g.metadata.kind) = true := beq_iff_eq.mpr hk
      rw [groupSamples_singleton d scope hk, List.filter_cons, if_pos hkept, List.flatMap_cons]
    · have hleft : ¬ (x.reading.kind == g.metadata.kind) = true := mt beq_iff_eq.mp hk
      rw [groupSamples_singleton_of_ne d scope hk, List.filter_cons, if_neg hleft, List.nil_append]

end Text

section Objects

/-- The key of the entry that shows a figure; a lone value stands without one. -/
def Figure.key (kind : Kind) : Figure → String
  | .value => ""
  | .count => "count"
  | .sum => if kind = .timer then "elapsedTime" else "sum"
  | .quantile q => q.label
  | .min => "min"
  | .max => "max"
  | .mean => "mean"
  | .stddev => "stddev"
  | .meanRate => "meanRate"
  | .oneMinuteRate => "oneMinRate"
  | .fiveMinuteRate => "fiveMinRate"
  | .fifteenMinuteRate => "fifteenMinRate"

/-- The entry that shows a number. -/
def entryOf (kind : Kind) (e : Figure × Number) : String × Json := (e.1.key kind, e.2.json)

/-- A JSON value shows the numbers of a reading: it is the lone value, or an object with an entry for
each number and no other. -/
def Renders (kind : Kind) (figures : List (Figure × Number)) (j : Json) : Prop :=
  (∃ n, figures = [(.value, n)] ∧ j = n.json) ∨
    ∃ t : Table String Json, j = .ofTable t ∧ t.size = figures.length ∧
      ∀ e ∈ figures, t.get? (e.1.key kind) = some e.2.json

/-- What stands for a number in JSON documents says the number of text documents. -/
theorem says_json (n : Number) : Says n.float n.json := by
  have hfloat (x : Float) : Says x (.ofFloat x) := by
    cases hx : x.isFinite <;> simp [Json.ofFloat, hx, Says]
  cases n with
  | count n => exact ⟨n, rfl, .inl rfl⟩
  | converted x =>
    dsimp only [Number.json, Number.float, Json.ofCount]
    split
    · rename_i hx
      simp only [Bool.and_eq_true] at hx
      exact ⟨x.toUInt64, rfl, .inr hx.1.1⟩
    · exact hfloat x
  | measured x => exact hfloat x

/-- A distribution is shown at the default quantiles. -/
def Distribution.Standard (d : Distribution) : Prop :=
  d.quantiles.map Prod.fst = Quantile.defaults.map Quantile.of

/-- The distribution of a reading, if it has one, is shown at the default quantiles. -/
def Reading.Standard : Reading → Prop
  | .histogram d => d.Standard
  | .timer d _ => d.Standard
  | _ => True

/-- Instruments are read at the default quantiles. -/
theorem standard_readInstrument (w : World) (unit : Option String) (h : Handle) :
    (readInstrument w unit h).1.Standard := by
  cases h <;> trivial

/-- What is made of the quantiles is made of the default ones. -/
theorem Distribution.Standard.map_quantiles {α : Type} {d : Distribution} (hd : d.Standard)
    (f : Quantile → α) :
    (d.quantiles.map fun q => f q.1) = Quantile.defaults.map fun q => f (.of q) := by
  have hmap := congrArg (List.map f) hd
  rw [List.map_map, List.map_map] at hmap
  exact hmap

/-- The numbers of a distribution stand for what is expected. -/
theorem Distribution.Standard.figures {d : Distribution} (hd : d.Standard) :
    (distributionFigures d).map Prod.fst = figuresOfDistribution := by
  simp [distributionFigures, figuresOfDistribution, ← hd.map_quantiles, Function.comp_def]

/-- The numbers of a reading stand for what is expected of its kind. -/
theorem Reading.Standard.figures {x : Reading} (hx : x.Standard) :
    x.figures.map Prod.fst = figuresOf x.kind := by
  cases x with
  | counter _ => rfl
  | gauge _ => rfl
  | meter _ _ => rfl
  | histogram _ => exact Distribution.Standard.figures hx
  | timer _ _ =>
    apply List.map_append.trans
    rw [Distribution.Standard.figures hx]
    rfl

/-- A kind of instrument shows so many numbers. -/
theorem length_figuresOf (kind : Kind) : (figuresOf kind).length = shownBy kind := by
  cases kind <;> rfl

/-- The keys of a distribution. -/
theorem keys_figuresOfDistribution (kind : Kind) :
    figuresOfDistribution.map (Figure.key kind) =
      ["count", Figure.sum.key kind, "p50", "p75", "p95", "p98", "p99", "p999", "min", "max", "mean",
        "stddev"] := by
  have hquantiles : (Quantile.defaults.map fun q => Figure.quantile (.of q)).map (Figure.key kind) =
      ["p50", "p75", "p95", "p98", "p99", "p999"] := by
    rw [← Quantile.label_defaults, List.map_map]
    rfl
  rw [figuresOfDistribution, List.map_append, List.map_cons, List.map_cons, hquantiles]
  rfl

/-- The keys of a kind of instrument are all different. -/
theorem nodup_keys (kind : Kind) : ((figuresOf kind).map (Figure.key kind)).Nodup := by
  cases kind with
  | counter => decide
  | gauge => decide
  | meter => decide
  | histogram =>
    rw [figuresOf, keys_figuresOfDistribution]
    decide
  | timer =>
    rw [figuresOf, List.map_append, keys_figuresOfDistribution]
    decide

/-- The entries of a distribution are those of its numbers. -/
theorem distributionEntries_perm (kind : Kind) (d : Distribution) :
    (Json.distributionEntries (Figure.sum.key kind) d).Perm
      ((distributionFigures d).map (entryOf kind)) := by
  have hquantiles : (d.quantiles.map fun q => (q.1.label, Json.ofFloat q.2)) =
      (d.quantiles.map fun q => (Figure.quantile q.1, Number.measured q.2)).map (entryOf kind) := by
    rw [List.map_map]
    rfl
  rw [distributionFigures, List.map_append, List.map_cons, List.map_cons, ← hquantiles]
  exact (List.perm_append_comm.cons _).cons _

/-- Different keys with an entry for each number show a reading. -/
theorem renders_ofList {kind : Kind} {figures : List (Figure × Number)}
    {entries : List (String × Json)} (hkeys : (figures.map fun e => e.1.key kind).Nodup)
    (hentries : entries.Perm (figures.map (entryOf kind))) :
    Renders kind figures (.ofTable (.ofList entries)) := by
  have hkeys' : (entries.map Prod.fst).Nodup := by
    apply (hentries.map Prod.fst).nodup_iff.mpr
    rw [List.map_map]
    exact hkeys
  have hlength : entries.length = figures.length := by simpa using hentries.length_eq
  refine .inr ⟨_, rfl, (Table.nodup_iff_size_ofList.mp hkeys').trans hlength, fun e he => ?_⟩
  have hmem : entryOf kind e ∈ entries := hentries.mem_iff.mpr (List.mem_map_of_mem he)
  exact Table.get?_ofList_of_mem hkeys' hmem

/-- The JSON value of a reading shows its numbers. -/
theorem renders_ofReading {x : Reading} (hx : x.Standard) :
    Renders x.kind x.figures (Json.ofReading x) := by
  have hkeys : (x.figures.map fun e => e.1.key x.kind).Nodup := by
    have hnodup := nodup_keys x.kind
    rwa [← hx.figures, List.map_map] at hnodup
  cases x with
  | counter x => exact .inl ⟨_, rfl, rfl⟩
  | gauge x => exact .inl ⟨_, rfl, rfl⟩
  | meter _ _ => exact renders_ofList hkeys (.refl _)
  | histogram d => exact renders_ofList hkeys (distributionEntries_perm .histogram d)
  | timer d rates =>
    apply renders_ofList hkeys
    rw [Reading.figures, List.map_append]
    exact (distributionEntries_perm .timer d).append (.refl _)

end Objects

section Groups

variable {w : World} {k : RegistryKey} {name? : Option String} {globals : List Tag} {g : Group}

/-- Whatever gauges remove, a group shows the instruments that a name had when the export began. -/
theorem exists_name_of_mem_collectGroups (hg : g ∈ (collectGroups k name? globals w).1) :
    ∃ name, List.Forall₂
      (fun e x => e.2.kind = g.metadata.kind ∧ ∃ v, Member.Shows x g.metadata globals e v)
      ((w.registry k).instrumentsNamed name).toList g.members := by
  obtain ⟨name, -, -, -, hmembers⟩ :=
    name_of_mem_collectGroups (P := fun _ => True) (fun _ _ _ => id) trivial hg
  exact ⟨name, hmembers.imp fun e x hx => ⟨hx.1, hx.2.imp fun v hv => hv.2⟩⟩

/-- The members of a group are of its kind, and distributions are shown at the default quantiles. -/
theorem kind_and_standard_of_mem (hg : g ∈ (collectGroups k name? globals w).1) {x : Member}
    (hx : x ∈ g.members) : x.reading.kind = g.metadata.kind ∧ x.reading.Standard := by
  obtain ⟨name, hmembers⟩ := exists_name_of_mem_collectGroups hg
  obtain ⟨e, -, hkind, v, hshows⟩ := Related.exists_of_mem_right hmembers hx
  rw [hshows.reading, kind_readInstrument]
  exact ⟨hkind, standard_readInstrument v g.metadata.unit e.2⟩

/-- The samples of a group are those of its members. -/
theorem groupSamples_of_mem (hg : g ∈ (collectGroups k name? globals w).1) (d : Dialect)
    (scope : Scope) :
    (groupSamples d scope g).Perm (g.members.flatMap (memberSamples d scope g.metadata)) := by
  have hkinds : g.members.filter (fun x => x.reading.kind == g.metadata.kind) = g.members :=
    List.filter_eq_self.mpr fun x hx => beq_iff_eq.mpr (kind_and_standard_of_mem hg hx).1
  have hperm := groupSamples_perm_members d scope g
  rwa [hkinds] at hperm

/-- All formats show the same numbers. A group has a member for each live instrument of a name, with the
tags of its identity and the global ones, and a JSON value for each member. In a text document, of
either format, the samples of the group are those of its members: one for a counter or gauge, five for
a meter, twelve for a histogram and sixteen for a timer, all with the tags of the member. The JSON value
of a member shows the same numbers, one by one: it is the number of a counter or gauge, or an object
with one entry for each number and no other. Counts are integers there, whose conversion is in the
sample; another number is the same double, or null if it is not finite, or an integer that converts to
it. -/
theorem formats_agree (hg : g ∈ (collectGroups k name? globals w).1) :
    (∃ name, List.Forall₂
      (fun e x => e.2.kind = g.metadata.kind ∧ x.tags = e.1.tags.withDefaults globals)
      ((w.registry k).instrumentsNamed name).toList g.members) ∧
    (∀ d scope,
      (groupSamples d scope g).Perm (g.members.flatMap (memberSamples d scope g.metadata)) ∧
      ∀ x ∈ g.members,
        (memberSamples d scope g.metadata x).length = shownBy g.metadata.kind ∧
        ∀ s ∈ memberSamples d scope g.metadata x, s.tags = x.tags) ∧
    List.Forall₂
      (fun x e => x.reading.figures.map Prod.fst = figuresOf g.metadata.kind ∧
        Renders g.metadata.kind x.reading.figures e.2)
      g.members (Json.groupEntries g) ∧
    ∀ x ∈ g.members, ∀ e ∈ x.reading.figures, Says e.2.float e.2.json := by
  have hfigures : ∀ x ∈ g.members, x.reading.figures.map Prod.fst = figuresOf g.metadata.kind := by
    intro x hx
    obtain ⟨hkind, hstandard⟩ := kind_and_standard_of_mem hg hx
    rw [← hkind]
    exact hstandard.figures
  have hobjects : ∀ x ∈ g.members,
      Renders g.metadata.kind x.reading.figures (Json.ofReading x.reading) := by
    intro x hx
    obtain ⟨hkind, hstandard⟩ := kind_and_standard_of_mem hg hx
    rw [← hkind]
    exact renders_ofReading hstandard
  have hlength : ∀ x ∈ g.members, x.reading.figures.length = shownBy g.metadata.kind := by
    intro x hx
    rw [← length_figuresOf, ← hfigures x hx, List.length_map]
  obtain ⟨name, hmembers⟩ := exists_name_of_mem_collectGroups hg
  refine ⟨⟨name, hmembers.imp ?_⟩, fun d scope => ⟨groupSamples_of_mem hg d scope, ?_⟩, ?_, ?_⟩
  · rintro e x ⟨hkind, v, hshows⟩
    exact ⟨hkind, hshows.tags⟩
  · intro x hx
    refine ⟨(List.length_map _).trans (hlength x hx), fun s hs => ?_⟩
    obtain ⟨e, -, rfl⟩ := List.mem_map.mp hs
    rfl
  · apply List.forall₂_map_right_iff.mpr
    exact List.forall₂_same.mpr fun x hx => ⟨hfigures x hx, hobjects x hx⟩
  · intro x _ e _
    exact says_json e.2

/-- The registration of a timer that is made for it. -/
def timerOf (w : World) (name : String) (tags : List Tag) : Registry.Registration Store :=
  .instrument .timer (.name name) tags ⟨w.factory .timer, fun _ => rfl⟩

/-- A timer has sixteen samples and sixteen entries. -/
theorem formats_agree_timer :
    let w := ((World.start 1).init "s").2
    let v := (w.registering ⟨0⟩ (timerOf w "jobs" [⟨"queue", "high"⟩]).run).2
    ∃ g x, (collectGroups ⟨0⟩ none [⟨"host", "a"⟩] v).1 = [g] ∧ g.members = [x] ∧
      x.tags.list = [⟨"host", "a"⟩, ⟨"queue", "high"⟩] ∧
      (groupSamples .prometheus "s" g).length = 16 ∧
      ∃ t : Table String Json, Json.groupEntries g = [("jobs;host=a;queue=high", .ofTable t)] ∧
        t.size = 16 := by
  intro w v
  have hgroups : (collectGroups ⟨0⟩ none [⟨"host", "a"⟩] v).1.map (fun g =>
      (g.metadata.name, g.metadata.kind, g.members.map (·.tags.list))) =
        [("jobs", .timer, [[⟨"host", "a"⟩, ⟨"queue", "high"⟩]])] := by decide +kernel
  obtain ⟨g, hg, hshown⟩ := List.map_eq_singleton_iff.mp hgroups
  obtain ⟨hname, hkind, htags⟩ : g.metadata.name = "jobs" ∧ g.metadata.kind = .timer ∧
      g.members.map (·.tags.list) = [[⟨"host", "a"⟩, ⟨"queue", "high"⟩]] := by simpa using hshown
  obtain ⟨x, hx, hxtags⟩ := List.map_eq_singleton_iff.mp htags
  have hmem : g ∈ (collectGroups ⟨0⟩ none [⟨"host", "a"⟩] v).1 := hg ▸ List.mem_singleton_self g
  have hxmem : x ∈ g.members := hx ▸ List.mem_singleton_self x
  obtain ⟨-, hsamples, hentries, -⟩ := formats_agree hmem
  obtain ⟨hperm, hlength⟩ := hsamples .prometheus "s"
  obtain ⟨hfigures, hobject⟩ :=
    List.forall₂_same.mp (List.forall₂_map_right_iff.mp hentries) x hxmem
  have hcount : x.reading.figures.length = 16 := by
    rw [← List.length_map Prod.fst, hfigures, length_figuresOf, hkind]
    rfl
  refine ⟨g, x, hg, hx, hxtags, ?_, ?_⟩
  · rw [hperm.length_eq, hx, List.flatMap_singleton, (hlength x hxmem).1, hkind]
    rfl
  · obtain ⟨n, hn, -⟩ | ⟨t, ht, hsize, -⟩ := hobject
    · simp [hn] at hcount
    · refine ⟨t, ?_, hsize.trans hcount⟩
      have hkey : Json.key "jobs" [⟨"host", "a"⟩, ⟨"queue", "high"⟩] = "jobs;host=a;queue=high" := by
        decide
      rw [← ht, Json.groupEntries, hx, List.map_singleton, hname, hxtags, hkey]

end Groups

end Telemetry.Export
