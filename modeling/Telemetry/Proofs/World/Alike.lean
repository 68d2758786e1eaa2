import Telemetry.Proofs.Export.Reading

/-!
# Worlds that nobody can tell apart

Two worlds are alike when they differ only in how far their meters and timers have been brought up to
date, and would be the same if all of them were brought up to date now. What is done in alike worlds has
the same answers and leads to alike worlds, as long as the clock does not go back.

Reading leads to a world that is alike to the one before, where gauges remove nothing. Such steps
compose, and exports are made of them.
-/

namespace Telemetry.World

/-- Worlds that are the same once their meters and timers are brought up to date. -/
structure Alike (w v : World) : Prop extends Undisturbed w v where
  capacity : v.capacity = w.capacity
  draws : v.draws = w.draws
  meters_size : v.store.meters.size = w.store.meters.size
  timers_size : v.store.timers.size = w.store.timers.size

/-- A world whose gauges remove nothing when they are read. -/
def Calm (w : World) : Prop := ∀ serial, (w.store.gauge serial).removes = none

/-- A step with the same answer in all alike worlds, that leads to a world alike to the one before. -/
def Unseen {α : Type} (f : World → α × World) : Prop :=
  ∀ ⦃w v⦄, w.Calm → w.Alike v → (f v).1 = (f w).1 ∧ w.Alike (f v).2

/-- A step with the same answer in alike worlds, that leads to alike worlds which are calm again. -/
def Blind {α : Type} (f : World → α × World) : Prop :=
  ∀ ⦃w v⦄, w.Calm → w.Alike v → (f v).1 = (f w).1 ∧ (f w).2.Alike (f v).2 ∧ (f w).2.Calm

variable {w v u : World} {α β : Type}

/-- A world is like itself. -/
theorem Alike.refl (w : World) : w.Alike w := ⟨.refl w, rfl, rfl, rfl, rfl⟩

/-- It does not matter which of two worlds is the first. -/
theorem Alike.symm (h : w.Alike v) : v.Alike w where
  now := h.now.symm
  registries := h.registries.symm
  scopes := h.scopes.symm
  counters := h.counters.symm
  gauges := h.gauges.symm
  histograms := h.histograms.symm
  meters n := h.now ▸ (h.meters n).symm
  timers n := by
    obtain ⟨hdurations, helapsed, hmeter⟩ := h.timers n
    exact ⟨hdurations.symm, helapsed.symm, h.now ▸ hmeter.symm⟩
  capacity := h.capacity.symm
  draws := h.draws.symm
  meters_size := h.meters_size.symm
  timers_size := h.timers_size.symm

/-- Worlds that are like a third one are alike. -/
theorem Alike.trans (h : w.Alike v) (h' : v.Alike u) : w.Alike u :=
  ⟨h.toUndisturbed.trans h'.toUndisturbed, h'.capacity.trans h.capacity, h'.draws.trans h.draws,
    h'.meters_size.trans h.meters_size, h'.timers_size.trans h.timers_size⟩

/-- A world like a calm one is calm. -/
theorem Calm.of_alike (hc : w.Calm) (h : w.Alike v) : v.Calm := fun serial => by
  rw [Store.gauge, h.gauges]
  exact hc serial

/-- Look-up after an element was added to an array. -/
theorem getD_push (a : Array α) (i : Nat) (x d : α) :
    (a.push x).getD i d = if i = a.size then x else a.getD i d := by
  simp only [Array.getD_eq_getD_getElem?, Array.getElem?_push]
  split <;> rfl

section Writing

/-- Time passes in alike worlds alike. -/
theorem Alike.withNow (h : w.Alike v) {later : UInt64} (hlater : w.now ≤ later) :
    Alike { w with now := later } { v with now := later } := by
  -- What is brought up to date now is so on the way to what is later.
  have hnow {x y : Pace.Meter} (hxy : y.catchUp w.now = x.catchUp w.now) :
      y.catchUp later = x.catchUp later := by
    rw [← Pace.Meter.catchUp_catchUp_of_le hlater, hxy, Pace.Meter.catchUp_catchUp_of_le hlater]
  exact { h with
    now := rfl
    meters := fun n => hnow (h.meters n)
    timers := fun n => ⟨(h.timers n).1, (h.timers n).2.1, hnow (h.timers n).2.2⟩ }

/-- A meter is replaced by one that is the same once it is brought up to date. -/
theorem Alike.setMeter (h : w.Alike v) (serial : Nat) {x y : Pace.Meter}
    (hxy : y.catchUp w.now = x.catchUp w.now) :
    Alike { w with store := w.store.setMeter serial x }
      { v with store := v.store.setMeter serial y } :=
  { h with
    meters := fun n => by
      simp only [Store.setMeter, Store.meter, getD_setIfInBounds, h.meters_size]
      split
      · exact hxy
      · exact h.meters n
    meters_size := by simp [Store.setMeter, h.meters_size] }

/-- A timer is replaced by one that is the same once it is brought up to date. -/
theorem Alike.setTimer (h : w.Alike v) (serial : Nat) {x y : Timer}
    (hdurations : y.durations = x.durations) (helapsed : y.elapsed = x.elapsed)
    (hmeter : y.meter.catchUp w.now = x.meter.catchUp w.now) :
    Alike { w with store := w.store.setTimer serial x }
      { v with store := v.store.setTimer serial y } :=
  { h with
    timers := fun n => by
      simp only [Store.setTimer, Store.timer, getD_setIfInBounds, h.timers_size]
      split
      · exact ⟨hdurations, helapsed, hmeter⟩
      · exact h.timers n
    timers_size := by simp [Store.setTimer, h.timers_size] }

/-- A registry is replaced by the same one. -/
theorem Alike.setRegistry (h : w.Alike v) (k : RegistryKey) (r : Registry) :
    (w.setRegistry k r).Alike (v.setRegistry k r) :=
  { h with registries := by simp only [World.setRegistry, h.registries] }

/-- The same instrument is made. -/
theorem Alike.create (h : w.Alike v) (b : Blueprint) :
    (v.create b).1 = (w.create b).1 ∧ (w.create b).2.Alike (v.create b).2 := by
  cases b with
  | counter start =>
    have hcounters := h.counters
    exact ⟨by simp only [World.create, Store.add, hcounters],
      { h with counters := by simp only [World.create, Store.add, hcounters] }⟩
  | gauge gauge =>
    have hgauges := h.gauges
    exact ⟨by simp only [World.create, Store.add, hgauges],
      { h with gauges := by simp only [World.create, Store.add, hgauges] }⟩
  | histogram =>
    have hhistograms := h.histograms
    exact ⟨by simp only [World.create, Store.add, hhistograms],
      { h with histograms := by simp only [World.create, Store.add, hhistograms, h.capacity] }⟩
  | meter =>
    exact ⟨by simp only [World.create, Store.add, h.meters_size],
      { h with
        meters := fun n => by
          simp only [World.create, Store.add, Store.meter, getD_push, h.meters_size, h.now]
          split
          · rfl
          · exact h.meters n
        meters_size := by simp [World.create, Store.add, h.meters_size] }⟩
  | timer =>
    exact ⟨by simp only [World.create, Store.add, h.timers_size],
      { h with
        timers := fun n => by
          simp only [World.create, Store.add, Store.timer, getD_push, h.timers_size, h.now,
            h.capacity]
          split
          · exact ⟨rfl, rfl, rfl⟩
          · exact h.timers n
        timers_size := by simp [World.create, Store.add, h.timers_size] }⟩

end Writing

section Steps

variable {f : World → α × World} {g : α → World → β × World}

/-- What can be seen of a world is the same in alike worlds, and looking changes nothing. -/
theorem Unseen.look {q : World → α} (hq : ∀ ⦃w v⦄, w.Alike v → q v = q w) :
    Unseen fun w => (q w, w) := fun _ _ _ h => ⟨hq h, h⟩

/-- An answer that hangs on nothing. -/
theorem Unseen.pure (a : α) : Unseen fun w => (a, w) := .look fun _ _ _ => rfl

/-- One unseen step after the other. -/
theorem Unseen.bind (hf : Unseen f) (hg : ∀ a, Unseen (g a)) :
    Unseen fun w => g (f w).1 (f w).2 := by
  intro w v hc h
  obtain ⟨hanswer, hv⟩ := hf hc h
  obtain ⟨-, hw⟩ := hf hc (.refl w)
  obtain ⟨hnext, hlast⟩ := hg (f w).1 hc hv
  obtain ⟨hnext', -⟩ := hg (f w).1 hc hw
  dsimp only
  rw [hanswer, hnext, hnext']
  exact ⟨rfl, hlast⟩

/-- What an unseen step answers may be put differently. -/
theorem Unseen.map (hf : Unseen f) (F : α → β) : Unseen fun w => (F (f w).1, (f w).2) :=
  hf.bind fun a => .pure (F a)

/-- What unseen steps answer one after the other is what each answers at the beginning. -/
theorem Unseen.flatMap {γ : Type} {f : γ → World → List β × World}
    {g : List γ → World → List β × World} (hf : ∀ c, Unseen (f c)) (hnil : ∀ w, (g [] w).1 = [])
    (hcons : ∀ c rest w, (g (c :: rest) w).1 = (f c w).1 ++ (g rest (f c w).2).1)
    (hc : w.Calm) (h : w.Alike v) (l : List γ) : (g l v).1 = l.flatMap fun c => (f c w).1 := by
  induction l generalizing v with
  | nil => exact hnil v
  | cons c rest ih =>
    obtain ⟨hanswer, hlater⟩ := hf c hc h
    rw [hcons, hanswer, ih hlater, List.flatMap_cons]

/-- An unseen step leads from alike worlds to alike worlds. -/
theorem Unseen.blind (hf : Unseen f) : Blind f := by
  intro w v hc h
  obtain ⟨hanswer, hv⟩ := hf hc h
  obtain ⟨-, hw⟩ := hf hc (.refl w)
  exact ⟨hanswer, hw.symm.trans hv, hc.of_alike hw⟩

/-- Reading the rates of a meter only brings it up to date. -/
theorem unseen_meterRates (serial : Nat) : Unseen (meterRates · serial) := by
  intro w v _ h
  have hread : v.Alike (v.meterRates serial).2 :=
    ⟨undisturbed_meterRates v serial, rfl, rfl, Array.size_setIfInBounds, rfl⟩
  refine ⟨?_, h.trans hread⟩
  simp only [meterRates, Pace.Meter.rates, h.now, h.meters serial]

/-- Reading the rates of a timer only brings it up to date. -/
theorem unseen_timerRates (serial : Nat) : Unseen (timerRates · serial) := by
  intro w v _ h
  have hread : v.Alike (v.timerRates serial).2 :=
    ⟨undisturbed_timerRates v serial, rfl, rfl, rfl, Array.size_setIfInBounds⟩
  refine ⟨?_, h.trans hread⟩
  simp only [timerRates, Timer.rates, Pace.Meter.rates, h.now, (h.timers serial).2.2]

/-- Reading a gauge that removes nothing changes nothing. -/
theorem unseen_readGauge (serial : Nat) : Unseen (readGauge · serial) := by
  intro w v hc h
  simp only [readGauge_of_pure (hc serial), readGauge_of_pure (hc.of_alike h serial), Store.gauge,
    h.gauges]
  exact ⟨trivial, h⟩

/-- Reading current values changes nothing. -/
theorem unseen_observe (h : Handle) : Unseen (observe · h) := by
  cases h with
  | counter n => exact .look fun _ _ h => by rw [Store.counter, Store.counter, h.counters]
  | gauge n => exact (unseen_readGauge n).map Observation.gauge
  | histogram n => exact .look fun _ _ h => by rw [Store.histogram, Store.histogram, h.histograms]
  | meter n => exact .look fun _ _ h => by rw [h.count_meter]
  | timer n =>
    refine .look fun _ _ h => ?_
    obtain ⟨hdurations, helapsed, -⟩ := h.timers n
    simp only [Timer.count, Timer.snapshot, hdurations, helapsed]

end Steps

end Telemetry.World
