import Telemetry.Export.Reading
import Telemetry.Proofs.Pace.Meter
import Telemetry.Proofs.Table

/-!
# What reading leaves alone

Reading an instrument for a document brings the rates of a meter or timer up to date, and a gauge
may remove a name. All else stays as it is: with gauges that remove nothing every registry and every
recorded value does, and whatever names gauges remove, a registry can only lose entries, as no gauge
registers anything when it is read.
-/

namespace Telemetry

/-- What an instrument holds. -/
inductive Content where
  | counter (count : UInt64)
  | gauge (gauge : Gauge)
  | histogram (histogram : Sampling.Histogram)
  | meter (meter : Pace.Meter)
  | timer (timer : Timer)

namespace Content

/-- The kind of instrument that holds it. -/
def kind : Content → Kind
  | .counter _ => .counter
  | .gauge _ => .gauge
  | .histogram _ => .histogram
  | .meter _ => .meter
  | .timer _ => .timer

/-- It once it is brought up to date. -/
def settled (now : UInt64) : Content → Content
  | .meter m => .meter (m.catchUp now)
  | .timer t => .timer { t with meter := t.meter.catchUp now }
  | c => c

/-- What is removed before it is read. -/
def removal? : Content → Option Removal
  | .gauge g => g.removes
  | _ => none

/-- What is read of it, if it is up to date. -/
def reading (unit : Option String) (now : UInt64) : Content → Export.Reading
  | .counter count => .counter (MeasureUnit.toBase unit count.toFloat)
  | .gauge g => .gauge (MeasureUnit.toBase unit g.value)
  | .histogram h => .histogram (.of h.count h.sum h.snapshot unit)
  | .meter m => .meter m.count (m.currentRates now)
  | .timer t =>
    .timer (.of t.count t.elapsed.toFloat t.snapshot Export.durationUnit) (t.meter.currentRates now)

/-- Bringing it up to date does not change its kind. -/
@[simp] theorem kind_settled (now : UInt64) (c : Content) : (c.settled now).kind = c.kind := by
  cases c <;> rfl

/-- Nor what it removes. -/
@[simp] theorem removal?_settled (now : UInt64) (c : Content) :
    (c.settled now).removal? = c.removal? := by
  cases c <;> rfl

end Content

/-- What the instrument of a handle holds. -/
def Store.content (s : Store) : Handle → Content
  | .counter n => .counter (s.counter n)
  | .gauge n => .gauge (s.gauge n)
  | .histogram n => .histogram (s.histogram n)
  | .meter n => .meter (s.meter n)
  | .timer n => .timer (s.timer n)

/-- It is of the kind of the handle. -/
@[simp] theorem Store.kind_content (s : Store) (h : Handle) : (s.content h).kind = h.kind := by
  cases h <;> rfl

/-- A registry all of whose entries are entries of another. -/
structure Registry.PartOf (s r : Registry) : Prop where
  instruments : ∀ {id h}, s.instrument? id = some h → r.instrument? id = some h
  metadata : ∀ {name m}, s.metadataFor? name = some m → r.metadataFor? name = some m

namespace World

/-- A later world with the same registries and the same recorded values: meters and timers may have
been brought up to date, but no more than that. -/
structure Undisturbed (w v : World) : Prop where
  now : v.now = w.now
  registries : v.registries = w.registries
  scopes : v.scopes = w.scopes
  counters : v.store.counters = w.store.counters
  gauges : v.store.gauges = w.store.gauges
  histograms : v.store.histograms = w.store.histograms
  meters : ∀ n, (v.store.meter n).catchUp w.now = (w.store.meter n).catchUp w.now
  timers : ∀ n, (v.store.timer n).durations = (w.store.timer n).durations ∧
    (v.store.timer n).elapsed = (w.store.timer n).elapsed ∧
    (v.store.timer n).meter.catchUp w.now = (w.store.timer n).meter.catchUp w.now

/-- A later world whose registries have lost entries, if anything. -/
def Shrunk (w v : World) : Prop := ∀ k, (v.registry k).PartOf (w.registry k)

/-- A handle that reading removes nothing for. -/
def Harmless (w : World) (h : Handle) : Prop :=
  ∀ serial, h = .gauge serial → (w.store.gauge serial).removes = none

/-- Look-up after a replacement in an array. -/
theorem getD_setIfInBounds {α : Type} (a : Array α) (n i : Nat) (x d : α) :
    (a.setIfInBounds n x).getD i d = if i = n ∧ n < a.size then x else a.getD i d := by
  simp only [Array.getD_eq_getD_getElem?, Array.getElem?_setIfInBounds]
  by_cases hi : n = i
  · subst hi
    by_cases hn : n < a.size
    · simp [hn]
    · simp [hn]
  · simp [hi, Ne.symm hi]

/-- A replacement shows in no part of an element that it keeps. -/
theorem part_getD_setIfInBounds {α β : Type} (part : α → β) {a : Array α} {n : Nat} {x d : α}
    (hx : part x = part (a.getD n d)) (i : Nat) :
    part ((a.setIfInBounds n x).getD i d) = part (a.getD i d) := by
  rw [getD_setIfInBounds]
  split
  · rename_i hi
    rw [hx, hi.1]
  · rfl

variable {w v u : World} {h : Handle}

/-- A world is undisturbed by nothing. -/
theorem Undisturbed.refl (w : World) : w.Undisturbed w :=
  ⟨rfl, rfl, rfl, rfl, rfl, rfl, fun _ => rfl, fun _ => ⟨rfl, rfl, rfl⟩⟩

/-- What leaves values alone step by step leaves them alone. -/
theorem Undisturbed.trans (hwv : w.Undisturbed v) (hvu : v.Undisturbed u) : w.Undisturbed u where
  now := hvu.now.trans hwv.now
  registries := hvu.registries.trans hwv.registries
  scopes := hvu.scopes.trans hwv.scopes
  counters := hvu.counters.trans hwv.counters
  gauges := hvu.gauges.trans hwv.gauges
  histograms := hvu.histograms.trans hwv.histograms
  meters n := (hwv.now ▸ hvu.meters n).trans (hwv.meters n)
  timers n := by
    obtain ⟨hdurations, helapsed, hmeter⟩ := hvu.timers n
    obtain ⟨hdurations', helapsed', hmeter'⟩ := hwv.timers n
    rw [hwv.now] at hmeter
    exact ⟨hdurations.trans hdurations', helapsed.trans helapsed', hmeter.trans hmeter'⟩

/-- An undisturbed world has the same registries. -/
theorem Undisturbed.registry_eq (hwv : w.Undisturbed v) (k : RegistryKey) :
    v.registry k = w.registry k := by
  rw [registry, hwv.registries]
  rfl

/-- A handle that is harmless stays so while worlds are undisturbed. -/
theorem Harmless.of_undisturbed (hh : w.Harmless h) (hwv : w.Undisturbed v) : v.Harmless h := by
  intro serial hs
  rw [Store.gauge, hwv.gauges]
  exact hh serial hs

/-- Reading the rates of a meter disturbs nothing. -/
theorem undisturbed_meterRates (w : World) (serial : Nat) :
    w.Undisturbed (w.meterRates serial).2 where
  now := rfl
  registries := rfl
  scopes := rfl
  counters := rfl
  gauges := rfl
  histograms := rfl
  meters := part_getD_setIfInBounds (Pace.Meter.catchUp · w.now) (Pace.Meter.catchUp_catchUp _ _)
  timers _ := ⟨rfl, rfl, rfl⟩

/-- Reading the rates of a timer disturbs nothing. -/
theorem undisturbed_timerRates (w : World) (serial : Nat) :
    w.Undisturbed (w.timerRates serial).2 where
  now := rfl
  registries := rfl
  scopes := rfl
  counters := rfl
  gauges := rfl
  histograms := rfl
  meters _ := rfl
  timers n := by
    have hpart {β : Type} (part : Timer → β)
        (h : part ((w.store.timer serial).rates w.now).2 = part (w.store.timer serial)) :
        part ((w.timerRates serial).2.store.timer n) = part (w.store.timer n) :=
      part_getD_setIfInBounds part h n
    exact ⟨hpart Timer.durations rfl, hpart Timer.elapsed rfl,
      hpart (·.meter.catchUp w.now) (Pace.Meter.catchUp_catchUp _ _)⟩

/-- Reading a harmless instrument disturbs nothing. -/
theorem undisturbed_readInstrument (hh : w.Harmless h) (unit : Option String) :
    w.Undisturbed (Export.readInstrument w unit h).2 := by
  cases h with
  | counter n => exact .refl w
  | gauge n =>
    simp only [Export.readInstrument, readGauge_of_pure (hh n rfl)]
    exact .refl w
  | histogram n => exact .refl w
  | meter n => exact undisturbed_meterRates w n
  | timer n => exact undisturbed_timerRates w n

/-- Meters keep their counts. -/
theorem Undisturbed.count_meter (hwv : w.Undisturbed v) (n : Nat) :
    (v.store.meter n).count = (w.store.meter n).count := by
  rw [← Pace.Meter.count_catchUp _ w.now, hwv.meters n, Pace.Meter.count_catchUp]

/-- In an undisturbed world every instrument holds the same, once it is brought up to date. -/
theorem Undisturbed.settled_eq (hwv : w.Undisturbed v) (h : Handle) :
    (v.store.content h).settled w.now = (w.store.content h).settled w.now := by
  cases h with
  | counter n => simp only [Store.content, Store.counter, hwv.counters]
  | gauge n => simp only [Store.content, Store.gauge, hwv.gauges]
  | histogram n => simp only [Store.content, Store.histogram, hwv.histograms]
  | meter n => exact congrArg Content.meter (hwv.meters n)
  | timer n =>
    obtain ⟨hdurations, helapsed, hmeter⟩ := hwv.timers n
    simp only [Store.content, Content.settled, hdurations, helapsed, hmeter]

/-- What is read of an instrument is what it holds, once it is brought up to date. -/
theorem reading_content (w : World) (unit : Option String) (h : Handle) :
    (Export.readInstrument w unit h).1 =
      ((w.store.content h).settled w.now).reading unit w.now := by
  cases h with
  | meter n =>
    -- The count is looked up after the rates were read.
    have hcount := (undisturbed_meterRates w n).count_meter n
    simp only [Export.readInstrument, hcount, Store.content, Content.settled, Content.reading,
      Pace.Meter.count_catchUp]
    rfl
  | _ => rfl

/-- In an undisturbed world every instrument reads as before. -/
theorem Undisturbed.readInstrument_eq (hwv : w.Undisturbed v) (unit : Option String) (h : Handle) :
    (Export.readInstrument v unit h).1 = (Export.readInstrument w unit h).1 := by
  rw [reading_content, reading_content, hwv.now, hwv.settled_eq]

/-- A world that lost nothing has shrunk. -/
theorem Shrunk.refl (w : World) : w.Shrunk w := fun _ => ⟨id, id⟩

/-- Worlds that shrink step by step shrink. -/
theorem Shrunk.trans (hwv : w.Shrunk v) (hvu : v.Shrunk u) : w.Shrunk u := fun k =>
  ⟨fun hl => (hwv k).instruments ((hvu k).instruments hl),
    fun hm => (hwv k).metadata ((hvu k).metadata hm)⟩

/-- An undisturbed world has shrunk by nothing. -/
theorem Undisturbed.shrunk (hwv : w.Undisturbed v) : w.Shrunk v := fun k => by
  rw [hwv.registry_eq k]
  exact ⟨id, id⟩

/-- What is left after the removal of a name was there before. -/
theorem partOf_removeByName (r : Registry) (name : String) : (r.removeByName name).2.PartOf r where
  instruments := Table.get?_of_get?_filter
  metadata := Table.get?_of_get?_filter

/-- What is left after the removal of an identity was there before. -/
theorem partOf_remove (r : Registry) (id : Identity) : (r.remove id).2.PartOf r := by
  unfold Registry.remove
  split
  · dsimp only
    split
    · exact ⟨Table.get?_of_get?_filter, fun hm => hm⟩
    · exact ⟨Table.get?_of_get?_filter, Table.get?_of_get?_filter⟩
  · exact ⟨fun hl => hl, fun hm => hm⟩

/-- What is left after the removal of several identities was there before. -/
theorem partOf_removeAll (r : Registry) (ids : List Identity) : (r.removeAll ids).2.PartOf r := by
  induction ids generalizing r with
  | nil => exact ⟨fun hl => hl, fun hm => hm⟩
  | cons id rest ih =>
    have hfirst := partOf_remove r id
    have hlater := ih (r.remove id).2
    exact ⟨fun hl => hfirst.instruments (hlater.instruments hl),
      fun hm => hfirst.metadata (hlater.metadata hm)⟩

/-- The registries after one of them was replaced. -/
theorem registry_setRegistry (w : World) (k i : RegistryKey) (r : Registry) :
    (w.setRegistry k r).registry i =
      if i.index = k.index ∧ k.index < w.registries.size then r else w.registry i :=
  getD_setIfInBounds _ _ _ _ _

/-- A registry after one was replaced is the old one, or the new one where that was put. -/
theorem setRegistry_cases {P : Registry → Prop} {k i : RegistryKey} {r : Registry}
    (hold : P (w.registry i)) (hnew : i = k → P r) : P ((w.setRegistry k r).registry i) := by
  rw [registry_setRegistry]
  split
  · rename_i hi
    exact hnew (congrArg RegistryKey.mk hi.1)
  · exact hold

/-- Replacing a registry by a part of it shrinks the world. -/
theorem shrunk_setRegistry {k : RegistryKey} {r : Registry} (hr : r.PartOf (w.registry k)) :
    w.Shrunk (w.setRegistry k r) := fun i =>
  setRegistry_cases (P := fun s => s.PartOf (w.registry i)) ⟨id, id⟩ fun hi => hi ▸ hr

/-- A removal that a gauge brings about shrinks the world. -/
theorem shrunk_carryOut (w : World) (removal : Removal) : w.Shrunk (w.carryOut removal) :=
  shrunk_setRegistry (partOf_removeByName _ _)

/-- Reading an instrument carries out the removal that it brings about, or disturbs nothing. -/
theorem readInstrument_cases (w : World) (unit : Option String) (h : Handle) :
    (∃ r, (w.store.content h).removal? = some r ∧
        (Export.readInstrument w unit h).2 = w.carryOut r) ∨
      ((w.store.content h).removal? = none ∧ w.Undisturbed (Export.readInstrument w unit h).2) := by
  cases hr : (w.store.content h).removal? with
  | none =>
    have hharmless : w.Harmless h := by
      rintro serial rfl
      exact hr
    exact .inr ⟨rfl, undisturbed_readInstrument hharmless unit⟩
  | some r =>
    cases h with
    | gauge n =>
      change (w.store.gauge n).removes = some r at hr
      exact .inl ⟨r, rfl, by simp only [Export.readInstrument, readGauge, hr]⟩
    | counter _ | histogram _ | meter _ | timer _ => contradiction

/-- Reading an instrument shrinks the world, if it changes any registry. -/
theorem shrunk_readInstrument (w : World) (unit : Option String) (h : Handle) :
    w.Shrunk (Export.readInstrument w unit h).2 := by
  obtain ⟨r, -, hread⟩ | ⟨-, hread⟩ := readInstrument_cases w unit h
  · rw [hread]
    exact shrunk_carryOut w r
  · exact hread.shrunk

end World

end Telemetry
