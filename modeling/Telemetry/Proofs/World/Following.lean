import Telemetry.Proofs.World.Act
import Telemetry.Proofs.World.Target

/-!
# What follows a world

Everything that is done leads to a world that follows the one before: no registry and no instrument is
lost, a scope becomes live with a registry that was not there before, and what is registered was made.
So a live scope always has a registry of its own, and a registry that no scope has stays without one.
-/

namespace Telemetry

namespace Store

/-- A handle that the store gave out. -/
def Gave (s : Store) : Handle → Prop
  | .counter n => n < s.counters.size
  | .gauge n => n < s.gauges.size
  | .histogram n => n < s.histograms.size
  | .meter n => n < s.meters.size
  | .timer n => n < s.timers.size

variable (s : Store) (n : Nat) (h : Handle)

/-- Replacing a count gives out nothing. -/
@[simp] theorem gave_setCounter (x : UInt64) : (s.setCounter n x).Gave h ↔ s.Gave h := by
  cases h <;> simp [Gave, setCounter]

/-- Nor does replacing a gauge. -/
@[simp] theorem gave_setGauge (x : Gauge) : (s.setGauge n x).Gave h ↔ s.Gave h := by
  cases h <;> simp [Gave, setGauge]

/-- Nor does replacing a histogram. -/
@[simp] theorem gave_setHistogram (x : Sampling.Histogram) :
    (s.setHistogram n x).Gave h ↔ s.Gave h := by
  cases h <;> simp [Gave, setHistogram]

/-- Nor does replacing a meter. -/
@[simp] theorem gave_setMeter (x : Pace.Meter) : (s.setMeter n x).Gave h ↔ s.Gave h := by
  cases h <;> simp [Gave, setMeter]

/-- Nor does replacing a timer. -/
@[simp] theorem gave_setTimer (x : Timer) : (s.setTimer n x).Gave h ↔ s.Gave h := by
  cases h <;> simp [Gave, setTimer]

variable {s h} (now : UInt64) (capacity : Nat) (b : Blueprint)

/-- A handle that was given out stays so when another instrument is made. -/
theorem Gave.add (hs : s.Gave h) : (s.add now capacity b).2.Gave h := by
  cases b <;> cases h <;> simp only [Gave, Store.add, Array.size_push] at hs ⊢ <;> omega

/-- A store gives out what it makes. -/
theorem gave_add (s : Store) : (s.add now capacity b).2.Gave (s.add now capacity b).1 := by
  cases b <;> simp [Gave, Store.add]

/-- The instruments that were there hold the same when another is made. -/
theorem content_add (hs : s.Gave h) : (s.add now capacity b).2.content h = s.content h := by
  cases b <;> cases h <;>
    simp only [content, Store.add, counter, gauge, histogram, meter, timer, World.getD_push,
      if_neg (Nat.ne_of_lt hs)]

end Store

namespace World

open Registry (Registration)

/-- A world that another leads to: nothing was lost, and what is new was not there before. -/
structure Follows (w v : World) : Prop where
  size : w.registries.size ≤ v.registries.size
  gave : ∀ h, w.store.Gave h → v.store.Gave h
  instruments : ∀ k id h, (v.registry k).instrument? id = some h →
    (w.registry k).instrument? id = some h ∨ v.store.Gave h
  scopes : ∀ s k, v.scope? s = some k →
    w.scope? s = some k ∨
      w.registries.size ≤ k.index ∧ k.index < v.registries.size ∧
        ∀ s', v.scope? s' = some k → s' = s

/-- A world in which each live scope has a registry of its own, and what is registered was made. -/
structure Tidy (w : World) : Prop where
  made : ∀ s k, w.scope? s = some k → k.index < w.registries.size
  apart : ∀ s s' k, w.scope? s = some k → w.scope? s' = some k → s' = s
  gave : ∀ k id h, (w.registry k).instrument? id = some h → w.store.Gave h

/-- A registry that was made and that no live scope has. -/
def Retired (w : World) (k : RegistryKey) : Prop :=
  k.index < w.registries.size ∧ ∀ s, w.scope? s ≠ some k

variable {w v u : World} {k : RegistryKey}

section Follows

/-- A world follows itself. -/
theorem Follows.refl (w : World) : w.Follows w :=
  ⟨Nat.le_refl _, fun _ => id, fun _ _ _ => .inl, fun _ _ => .inl⟩

/-- What follows a world that follows is what follows. -/
theorem Follows.trans (hwv : w.Follows v) (hvu : v.Follows u) : w.Follows u where
  size := hwv.size.trans hvu.size
  gave h hw := hvu.gave h (hwv.gave h hw)
  instruments k id h hl := by
    obtain hv | hu := hvu.instruments k id h hl
    · exact (hwv.instruments k id h hv).imp_right (hvu.gave h)
    · exact .inr hu
  scopes s k hs := by
    obtain hv | ⟨hnew, hmade, hone⟩ := hvu.scopes s k hs
    · obtain hw | ⟨hnew, hmade, hone⟩ := hwv.scopes s k hv
      · exact .inl hw
      · refine .inr ⟨hnew, hmade.trans_le hvu.size, fun s' hs' => ?_⟩
        obtain hv' | ⟨hlater, -⟩ := hvu.scopes s' k hs'
        · exact hone s' hv'
        · omega
    · exact .inr ⟨hwv.size.trans hnew, hmade, hone⟩

/-- What follows a tidy world is tidy. -/
theorem Tidy.follows (ht : w.Tidy) (h : w.Follows v) : v.Tidy where
  made s k hs := by
    obtain hw | ⟨-, hmade, -⟩ := h.scopes s k hs
    · exact (ht.made s k hw).trans_le h.size
    · exact hmade
  apart s s' k hs hs' := by
    obtain hw | ⟨-, -, hone⟩ := h.scopes s k hs
    · obtain hw' | ⟨-, -, hone⟩ := h.scopes s' k hs'
      · exact ht.apart s s' k hw hw'
      · exact (hone s hs).symm
    · exact hone s' hs'
  gave k id x hl := by
    obtain hw | hv := h.instruments k id x hl
    · exact h.gave x (ht.gave k id x hw)
    · exact hv

/-- A retired registry stays retired. -/
theorem Retired.follows (hk : w.Retired k) (h : w.Follows v) : v.Retired k := by
  refine ⟨hk.1.trans_le h.size, fun s hs => ?_⟩
  obtain hw | ⟨hnew, -⟩ := h.scopes s k hs
  · exact hk.2 s hw
  · exact absurd hk.1 hnew.not_gt

/-- With the same registries, no more live scopes and all instruments, a world follows. -/
theorem Follows.of_same (hregistries : v.registries = w.registries)
    (hscopes : ∀ s k, v.scope? s = some k → w.scope? s = some k)
    (hgave : ∀ h, w.store.Gave h → v.store.Gave h) : w.Follows v where
  size := by rw [hregistries]
  gave := hgave
  instruments k id h hl := by
    rw [registry, hregistries] at hl
    exact .inl hl
  scopes s k hs := .inl (hscopes s k hs)

/-- A world follows when only instruments were written to. -/
theorem Follows.of_store {s : Store} (hgave : ∀ h, w.store.Gave h → s.Gave h) (now : UInt64)
    (draws : Sampling.Draw) : w.Follows { w with store := s, now, draws } :=
  .of_same rfl (fun _ _ => id) hgave

/-- A world follows when no more scopes are live. -/
theorem follows_withScopes {scopes : Table Scope RegistryKey}
    (hscopes : ∀ s k, scopes.get? s = some k → w.scope? s = some k) :
    w.Follows { w with scopes } := .of_same rfl hscopes fun _ => id

/-- A world follows when what is new in a registry is there in the store. -/
theorem follows_replace {s : Store} {r : Registry} (hgave : ∀ h, w.store.Gave h → s.Gave h)
    (hnew : ∀ id h, r.instrument? id = some h →
      (w.registry k).instrument? id = some h ∨ s.Gave h) :
    w.Follows ({ w with store := s }.setRegistry k r) where
  size := by simp only [setRegistry, Array.size_setIfInBounds, Nat.le_refl]
  gave := hgave
  instruments i id h hl := by
    rw [registry_setRegistry] at hl
    split at hl
    · rename_i hi
      obtain rfl : i = k := congrArg RegistryKey.mk hi.1
      exact hnew id h hl
    · exact .inl hl
  scopes _ _ := .inl

/-- A world follows when entries were taken out of a registry. -/
theorem follows_setRegistry {r : Registry} (hr : r.PartOf (w.registry k)) :
    w.Follows (w.setRegistry k r) :=
  follows_replace (fun _ => id) fun _ _ hl => .inl (hr.instruments hl)

/-- A world follows when a registry was emptied. -/
theorem follows_clearRegistry (w : World) (k : RegistryKey) : w.Follows (w.clearRegistry k) :=
  follows_setRegistry ⟨nofun, nofun⟩

/-- A world follows when registries were emptied one after the other. -/
theorem follows_clearRegistries (w : World) (ks : List RegistryKey) :
    w.Follows (ks.foldl World.clearRegistry w) := by
  induction ks generalizing w with
  | nil => exact .refl w
  | cons k rest ih => exact (follows_clearRegistry w k).trans (ih _)

/-- A new registry shows where nothing was found before. -/
theorem registry_push (w : World) (k : RegistryKey) :
    (w.registries.push Registry.empty).getD k.index .empty = w.registry k := by
  rw [getD_push]
  split
  · rename_i hk
    rw [registry, hk, Array.getD_eq_getD_getElem?, Array.getElem?_size]
    rfl
  · rfl

/-- A world follows when a registry was made. -/
theorem follows_newRegistry (w : World) : w.Follows w.newRegistry.2 where
  size := by simp only [newRegistry, Array.size_push, Nat.le_add_right]
  gave _ := id
  instruments k _ _ hl := .inl (registry_push w k ▸ hl)
  scopes _ _ := .inl

/-- The live scopes after one was asked for that was not live. -/
theorem scope?_init_of_not_live {s : Scope} (hs : w.scope? s = none) (s' : Scope) :
    (w.init s).2.scope? s' = if s' = s then some ⟨w.registries.size⟩ else w.scope? s' := by
  rw [init_of_not_live hs]
  exact Table.get?_insert _ _ _ _

/-- No live scope has the registry that is made next. -/
theorem Tidy.ne_next (ht : w.Tidy) (s : Scope) : w.scope? s ≠ some ⟨w.registries.size⟩ :=
  fun hs => Nat.lt_irrefl _ (ht.made s _ hs)

/-- A world follows when a scope was asked for. -/
theorem Tidy.follows_init (ht : w.Tidy) (s : Scope) : w.Follows (w.init s).2 := by
  cases hs : w.scope? s with
  | some k =>
    rw [init_of_live hs]
    exact .refl w
  | none =>
    have hscope := scope?_init_of_not_live hs
    have hmade := w.follows_newRegistry
    rw [init_of_not_live hs] at hscope ⊢
    refine ⟨hmade.size, hmade.gave, hmade.instruments, fun s' k hk => ?_⟩
    rw [hscope] at hk
    split at hk
    · rename_i he
      obtain rfl := Option.some.inj hk
      refine .inr ⟨Nat.le_refl _, ?_, fun s'' hs'' => ?_⟩
      · simp only [Array.size_push, Nat.lt_add_one]
      · rw [hscope] at hs''
        split at hs''
        · rename_i he'
          exact he'.trans he.symm
        · exact absurd hs'' (ht.ne_next s'')
    · exact .inl hk

/-- A world follows when a scope was dropped. -/
theorem follows_dropScope (w : World) (s : Scope) : w.Follows (w.dropScope s).2 := by
  unfold dropScope
  cases w.scope? s with
  | none => exact .refl w
  | some k =>
    have hfewer : w.Follows { w with scopes := w.scopes.erase s } :=
      follows_withScopes fun _ _ => Table.get?_of_get?_filter
    exact hfewer.trans (follows_clearRegistry _ k)

/-- A world follows when all scopes were dropped. -/
theorem follows_dropAll (w : World) : w.Follows w.dropAll := by
  have hfewer : w.Follows { w with scopes := .empty } := follows_withScopes nofun
  exact hfewer.trans (follows_clearRegistries _ _)

end Follows

section Scrapes

/-- What reading instruments keeps is carried along by exports. -/
theorem carries_kept {P : World → Prop}
    (hP : ∀ w unit h, P w → P (Export.readInstrument w unit h).2) :
    Carries (fun w v => w = v ∧ P w) Eq Eq fun _ => True where
  scopes _ _ h := h.1 ▸ rfl
  live _ _ _ _ _ _ := trivial
  metadata _ _ h _ _ _ := Related.rel_eq_iff.mpr (h.1 ▸ rfl)
  instruments _ _ h _ _ _ := Related.rel_eq_iff.mpr (h.1 ▸ rfl)
  kind_metadata _ _ h := h ▸ rfl
  kind_handle _ _ h := h ▸ rfl
  read m _ x _ hm hx := by
    subst hm hx
    rintro w _ ⟨rfl, hw⟩
    exact ⟨rfl, rfl, hP w m.unit x hw⟩

/-- Reading an instrument gives out nothing, and takes nothing back. -/
theorem gave_readInstrument (w : World) (unit : Option String) (h x : Handle) :
    (Export.readInstrument w unit h).2.store.Gave x ↔ w.store.Gave x := by
  cases h with
  | counter n => rfl
  | gauge n =>
    simp only [Export.readInstrument, readGauge]
    split <;> rfl
  | histogram n => rfl
  | meter n => exact Store.gave_setMeter w.store n x _
  | timer n => exact Store.gave_setTimer w.store n x _

/-- A world follows when an instrument was read. -/
theorem follows_readInstrument (w : World) (unit : Option String) (h : Handle) :
    w.Follows (Export.readInstrument w unit h).2 := by
  obtain ⟨r, -, hread⟩ | ⟨-, hread⟩ := readInstrument_cases w unit h
  · rw [hread]
    exact follows_setRegistry (partOf_removeByName _ _)
  · refine .of_same hread.registries (fun s k hs => ?_) fun x => (gave_readInstrument w unit h x).mpr
    rwa [scope?, hread.scopes] at hs

/-- A world follows when a scrape was carried out. -/
theorem follows_scrape (w : World) (e : Scrape) : w.Follows (e.run w).2 := by
  have hread (v : World) (unit : Option String) (h : Handle) (hv : w.Follows v) :
      w.Follows (Export.readInstrument v unit h).2 := hv.trans (follows_readInstrument v unit h)
  exact (along_scrape (carries_kept hread) e ⟨rfl, .refl w⟩).2.2

end Scrapes

section Enrolment

/-- Whether the instrument of a source is there already, if it is not made then. -/
def Source.At (s : Store) : Source → Prop
  | .made _ => True
  | .kept h => s.Gave h

/-- A factory takes nothing back. -/
theorem Source.gave_of_gave (source : Source) (w : World) {s : Store} {h : Handle} (hs : s.Gave h) :
    (source.factory w s).2.Gave h := by
  cases source with
  | made b => exact hs.add w.now w.capacity b
  | kept x => exact hs

/-- What a factory makes was given out, or was there before. -/
theorem Source.gave_factory {source : Source} (w : World) {s : Store} (hs : source.At s) :
    (source.factory w s).2.Gave (source.factory w s).1 := by
  cases source with
  | made b => exact Store.gave_add w.now w.capacity b s
  | kept x => exact hs

/-- A factory leaves the instruments that were there alone. -/
theorem Source.content_factory (source : Source) (w : World) {s : Store} {h : Handle}
    (hs : s.Gave h) : (source.factory w s).2.content h = s.content h := by
  cases source with
  | made b => exact Store.content_add w.now w.capacity b hs
  | kept x => rfl

/-- A registration leaves instruments as they are, or registers what one of its sources makes. -/
theorem Enrolment.run_instruments (e : Enrolment) (w : World) (r : Registry) (s : Store) :
    let o := (e.registration w).run r s
    (o.registry.instruments = r.instruments ∧ o.state = s) ∨
      ∃ source, e.Uses source ∧
        o.registry.instruments =
          r.instruments.insert (e.registration w).identity (source.factory w s).1 ∧
        o.state = (source.factory w s).2 := by
  refine (e.registration w).run_instruments r s |>.imp_right fun ⟨p, hp, h⟩ => ?_
  obtain ⟨source, hs, hfactory⟩ := e.exists_source hp
  exact ⟨source, hs, hfactory ▸ h⟩

/-- A world follows when an instrument was registered that was made before, or then. -/
theorem follows_enrol (w : World) (k : RegistryKey) {e : Enrolment}
    (he : ∀ source, e.Uses source → source.At w.store) :
    w.Follows (w.registering k fun r store => (e.registration w).run r store).2 := by
  generalize ho : (e.registration w).run (w.registry k) w.store = o
  have hinstruments := e.run_instruments w (w.registry k) w.store
  simp only [ho] at hinstruments
  have hgave (h : Handle) (hw : w.store.Gave h) : o.state.Gave h := by
    obtain ⟨-, hs⟩ | ⟨source, -, -, hs⟩ := hinstruments
    · exact hs ▸ hw
    · exact hs ▸ source.gave_of_gave w hw
  have hnew (id : Identity) (h : Handle) (hl : o.registry.instrument? id = some h) :
      (w.registry k).instrument? id = some h ∨ o.state.Gave h := by
    obtain ⟨hi, -⟩ | ⟨source, huses, hi, hs⟩ := hinstruments
    · rw [Registry.instrument?, hi] at hl
      exact .inl hl
    · rw [Registry.instrument?, hi, Table.get?_insert] at hl
      split at hl
      · rw [← Option.some.inj hl, hs]
        exact .inr (Source.gave_factory w (he source huses))
      · exact .inl hl
  have hafter : (w.registering k fun r store => (e.registration w).run r store).2 =
      { w with store := o.state }.setRegistry k o.registry := by
    simp only [registering, ho]
  rw [hafter]
  exact follows_replace hgave hnew

end Enrolment

section Recording

variable (w : World)

/-- A world follows when a duration was recorded. -/
theorem follows_recordDuration (serial nanos : Nat) : w.Follows (w.recordDuration serial nanos) := by
  obtain ⟨draw, draws, hrecord⟩ := w.exists_recordDuration serial nanos
  rw [hrecord]
  exact .of_store (fun h => (Store.gave_setTimer w.store serial h _).mpr) w.now draws

/-- A world follows when its clock was set back. -/
theorem follows_rewind (nanos : Nat) : w.Follows ((w.rewind? nanos).getD w) := by
  unfold rewind?
  split
  · exact .of_store (fun _ => id) _ w.draws
  · exact .refl w

/-- A world follows when current values were read. -/
theorem follows_observe (h : Handle) : w.Follows (w.observe h).2 := by
  cases h with
  | gauge n =>
    simp only [observe, readGauge]
    split
    · exact follows_setRegistry (partOf_removeByName _ _)
    · exact .refl w
  | counter _ | histogram _ | meter _ | timer _ => exact .refl w

end Recording

/-- Something that hands over only instruments that were made. -/
def Act.Offered (w : World) : Act → Prop
  | .enrol _ e => ∀ source, e.Uses source → source.At w.store
  | _ => True

/-- A tidy world is followed by what is done there. -/
theorem Tidy.follows_run (ht : w.Tidy) {a : Act} (ha : a.Offered w) : w.Follows (a.run w).2 := by
  cases a with
  | init s => exact ht.follows_init s
  | dropScope s => exact w.follows_dropScope s
  | dropAll => exact w.follows_dropAll
  | newRegistry => exact w.follows_newRegistry
  | enrol k e => exact w.follows_enrol k ha
  | remove k id => exact follows_setRegistry (partOf_remove _ _)
  | removeByName k name => exact follows_setRegistry (partOf_removeByName _ _)
  | removeMatching k p => exact follows_setRegistry (partOf_removeAll _ _)
  | clear k => exact w.follows_clearRegistry k
  | create b => exact .of_store (fun _ hw => hw.add w.now w.capacity b) w.now w.draws
  | scrape e => exact w.follows_scrape e
  | observe h => exact w.follows_observe h
  | advance nanos => exact .of_store (fun _ => id) _ w.draws
  | rewind nanos => exact w.follows_rewind nanos
  | increment serial n =>
    exact .of_store (fun h => (Store.gave_setCounter w.store serial h _).mpr) w.now w.draws
  | mark serial n =>
    exact .of_store (fun h => (Store.gave_setMeter w.store serial h _).mpr) w.now w.draws
  | setGauge serial value =>
    exact .of_store (fun h => (Store.gave_setGauge w.store serial h _).mpr) w.now w.draws
  | addToGauge serial x =>
    exact .of_store (fun h => (Store.gave_setGauge w.store serial h _).mpr) w.now w.draws
  | recordValues serial xs =>
    exact .of_store (fun h => (Store.gave_setHistogram w.store serial h _).mpr) w.now _
  | recordDuration serial nanos => exact w.follows_recordDuration serial nanos
  | endTiming t => exact w.follows_recordDuration t.timer _
  | meterRates serial =>
    exact .of_store (fun h => (Store.gave_setMeter w.store serial h _).mpr) w.now w.draws
  | timerRates serial =>
    exact .of_store (fun h => (Store.gave_setTimer w.store serial h _).mpr) w.now w.draws
  | scopes | contents _ | collect _ _ _ | startTiming _ | histogramSnapshot _ | timerSnapshot _ =>
    exact .refl w

/-- The world after things were done one after the other. -/
def after (w : World) : List Act → World
  | [] => w
  | a :: rest => after (a.run w).2 rest

/-- Whether only instruments are handed over that were made. -/
def Offers (w : World) : List Act → Prop
  | [] => True
  | a :: rest => a.Offered w ∧ Offers (a.run w).2 rest

/-- A tidy world is followed by what comes after it. -/
theorem Tidy.follows_after (ht : w.Tidy) {acts : List Act} (hacts : w.Offers acts) :
    w.Follows (w.after acts) := by
  induction acts generalizing w with
  | nil => exact .refl w
  | cons a rest ih =>
    have hfirst := ht.follows_run hacts.1
    exact hfirst.trans (ih (ht.follows hfirst) hacts.2)

/-- A world without scopes and registries is tidy. -/
theorem tidy_start (capacity : Nat) : (start capacity).Tidy :=
  ⟨nofun, nofun, fun _ _ _ hl => by contradiction⟩

end World

end Telemetry
