import Telemetry.Proofs.Export.Unseen
import Telemetry.Proofs.Registry.Operation

/-!
# What is done in a world

Everything that the users of scopes, registries and instruments can do, as data with typed answers:
moving the clock, asking for scopes, registering and removing, recording, reading and exporting. Each
of these has the same answer in calm worlds that are alike, and leads to calm worlds that are alike,
as long as it does not set the clock back.

A factory hands out an instrument that it makes then or one that was made before; a condition on
instruments may look at their current values.
-/

namespace Telemetry.World

open Registry (Registration Factory)

/-- A blueprint of an instrument that removes nothing when it is read. -/
def Pure : Blueprint → Prop
  | .gauge g => g.removes = none
  | _ => True

/-- Where a factory has its instrument from. -/
inductive Source where
  /-- It is made as the blueprint says. -/
  | made (b : Blueprint)
  /-- It was made before. -/
  | kept (h : Handle)

namespace Source

/-- The factory of a source. -/
def factory (w : World) : Source → Store → Handle × Store
  | .made b => w.factory b
  | .kept h => fun store => (h, store)

/-- A source whose instrument removes nothing when it is read. -/
def Harmless : Source → Prop
  | .made b => Pure b
  | .kept _ => True

end Source

/-- A registration by entry point. -/
inductive Enrolment where
  | getOrCreate (id : Identity) (request : Request) (source : Source)
  | instrument (d : Descriptor) (tags : List Tag) (b : Blueprint)
  | register (d : Descriptor) (tags : List Tag) (h : Handle)
  | registerGauge (d : Descriptor) (tags : List Tag) (serial : Nat)
  | registerDynamic (d : Descriptor) (tags : List Tag) (provides : Kind → Option Handle)

namespace Enrolment

/-- The registration, with the factory of the world. -/
def registration (w : World) : Enrolment → Registration Store
  | .getOrCreate id request source => .getOrCreate id request (source.factory w)
  | .instrument d tags b =>
    .instrument b.kind d tags ⟨w.factory b, fun store => store.kind_add w.now w.capacity b⟩
  | .register d tags h => .register d tags h
  | .registerGauge d tags serial => .registerGauge d tags serial
  | .registerDynamic d tags provides => .registerDynamic d tags provides

/-- The sources that the instrument of a registration can be from. -/
def Uses : Enrolment → Source → Prop
  | .getOrCreate _ _ source, x => x = source
  | .instrument _ _ b, x => x = .made b
  | .register _ _ h, x => x = .kept h
  | .registerGauge _ _ serial, x => x = .kept (.gauge serial)
  | .registerDynamic _ _ provides, x => ∃ kind h, provides kind = some h ∧ x = .kept h

/-- A registration whose instrument removes nothing when it is read. -/
def Harmless : Enrolment → Prop
  | .getOrCreate _ _ source => source.Harmless
  | .instrument _ _ b => Pure b
  | _ => True

end Enrolment

/-- An export or a request. -/
inductive Scrape where
  /-- A document of values. -/
  | values (format : Http.Format) (settings : Export.Settings) (selection : Export.Selection)
  /-- A document of metadata. -/
  | metadata (selection : Export.Selection)
  /-- A request, of any method. -/
  | respond (settings : Export.Settings) (method target : String) (accept : Option String)

namespace Scrape

/-- What a scrape is answered with. -/
def Answer : Scrape → Type
  | .values .. | .metadata _ => Option String
  | .respond .. => Http.Response

/-- Carry out a scrape. -/
def run (w : World) : (e : Scrape) → e.Answer × World
  | .values format settings selection => format.values? settings selection w
  | .metadata selection => Json.metadata? selection w
  | .respond settings method target accept => Http.respond settings method target accept w

end Scrape

/-- Something that is done in a world. -/
inductive Act where
  | advance (nanos : Nat)
  | rewind (nanos : Nat)
  | init (s : Scope)
  | scopes
  | dropScope (s : Scope)
  | dropAll
  | newRegistry
  /-- Look at both tables of a registry. -/
  | contents (k : RegistryKey)
  | collect (k : RegistryKey) (kind : Kind) (p : Identity → Handle → Observation → Bool)
  | enrol (k : RegistryKey) (e : Enrolment)
  | remove (k : RegistryKey) (id : Identity)
  | removeByName (k : RegistryKey) (name : String)
  | removeMatching (k : RegistryKey) (p : Identity → Handle → Observation → Bool)
  | clear (k : RegistryKey)
  | create (b : Blueprint)
  | increment (serial : Nat) (n : UInt64)
  | mark (serial : Nat) (n : UInt64)
  | setGauge (serial : Nat) (value : Float)
  | addToGauge (serial : Nat) (x : Float)
  | recordValues (serial : Nat) (xs : List Float)
  | recordDuration (serial : Nat) (nanos : Nat)
  | startTiming (serial : Nat)
  | endTiming (t : Timing)
  /-- Read the current values of an instrument. -/
  | observe (h : Handle)
  | histogramSnapshot (serial : Nat)
  | timerSnapshot (serial : Nat)
  | meterRates (serial : Nat)
  | timerRates (serial : Nat)
  | scrape (e : Scrape)

namespace Act

/-- What is answered. -/
def Answer : Act → Type
  | .advance _ => UInt64
  | .rewind _ => Option UInt64
  | .init _ | .newRegistry => RegistryKey
  | .scopes => Table Scope RegistryKey
  | .dropScope _ | .remove .. | .removeByName .. | .removeMatching .. => Bool
  | .contents _ => Registry
  | .collect .. => Table Identity Handle
  | .enrol .. => Except RegistrationError Handle
  | .create _ => Handle
  | .increment .. => UInt64
  | .mark .. => UInt64
  | .addToGauge .. => Float
  | .startTiming _ => Timing
  | .endTiming _ => Nat
  | .observe _ => Observation
  | .histogramSnapshot _ | .timerSnapshot _ => Sampling.Snapshot
  | .meterRates _ | .timerRates _ => Pace.Rates
  | .scrape e => e.Answer
  | .dropAll | .clear _ | .setGauge .. | .recordValues .. | .recordDuration .. => Unit

/-- Do it. -/
def run (w : World) : (a : Act) → a.Answer × World
  | .advance nanos => ((w.advance nanos).now, w.advance nanos)
  | .rewind nanos => ((w.rewind? nanos).map World.now, (w.rewind? nanos).getD w)
  | .init s => w.init s
  | .scopes => (w.scopes, w)
  | .dropScope s => w.dropScope s
  | .dropAll => ((), w.dropAll)
  | .newRegistry => w.newRegistry
  | .contents k => (w.registry k, w)
  | .collect k kind p => ((w.registry k).collect kind fun id h => p id h (w.observe h).1, w)
  | .enrol k e => w.registering k fun r store => (e.registration w).run r store
  | .remove k id => w.removing k (·.remove id)
  | .removeByName k name => w.removing k (·.removeByName name)
  | .removeMatching k p => w.removing k (·.removeMatching fun id h => p id h (w.observe h).1)
  | .clear k => ((), w.clearRegistry k)
  | .create b => w.create b
  | .increment serial n => ((w.increment serial n).store.counter serial, w.increment serial n)
  | .mark serial n => (((w.mark serial n).store.meter serial).count, w.mark serial n)
  | .setGauge serial value => ((), w.setGauge serial value)
  | .addToGauge serial x =>
    (((w.addToGauge serial x).store.gauge serial).value, w.addToGauge serial x)
  | .recordValues serial xs => ((), w.recordValues serial xs)
  | .recordDuration serial nanos => ((), w.recordDuration serial nanos)
  | .startTiming serial => (w.startTiming serial, w)
  | .endTiming t => w.endTiming t
  | .observe h => w.observe h
  | .histogramSnapshot serial => ((w.store.histogram serial).snapshot, w)
  | .timerSnapshot serial => ((w.store.timer serial).snapshot, w)
  | .meterRates serial => w.meterRates serial
  | .timerRates serial => w.timerRates serial
  | .scrape e => e.run w

/-- Something that makes no gauge which removes anything. -/
def Harmless : Act → Prop
  | .create b => Pure b
  | .enrol _ e => e.Harmless
  | _ => True

end Act

section Registration

variable {w v : World}

/-- A condition that looks at current values is the same in alike worlds. -/
theorem Alike.condition_eq (h : w.Alike v) (hc : w.Calm) (p : Identity → Handle → Observation → Bool) :
    (fun id x => p id x (v.observe x).1) = fun id x => p id x (w.observe x).1 :=
  funext₂ fun id x => congrArg (p id x) (unseen_observe x hc h).1

/-- Alike worlds make instruments in the same way. -/
theorem Alike.factory_eq (h : w.Alike v) (b : Blueprint) : v.factory b = w.factory b := by
  funext store
  rw [factory, factory, h.now, h.capacity]

/-- In alike worlds a registration is the same. -/
theorem Enrolment.registration_of_alike (h : w.Alike v) (e : Enrolment) :
    e.registration v = e.registration w := by
  cases e with
  | getOrCreate id request source =>
    cases source with
    | made b => simp only [registration, Source.factory, h.factory_eq]
    | kept x => rfl
  | instrument d tags b => simp only [registration, h.factory_eq]
  | register d tags x => rfl
  | registerGauge d tags serial => rfl
  | registerDynamic d tags provides => rfl

/-- Whether a world is calm is seen in its store. -/
theorem Calm.of_store (hc : w.Calm) (h : v.store = w.store) : v.Calm := fun serial => by
  rw [h]
  exact hc serial

/-- A calm world with one more instrument is calm if that one removes nothing. -/
theorem Calm.create (hc : w.Calm) {b : Blueprint} (hb : Pure b) : (w.create b).2.Calm := by
  cases b with
  | gauge g =>
    intro serial
    simp only [World.create, Store.add, Store.gauge, getD_push]
    split
    · exact hb
    · exact hc serial
  | _ => exact hc

/-- An instrument is made in alike worlds alike. -/
theorem blind_create {b : Blueprint} (hb : Pure b) : Blind (create · b) := fun _ _ hc h =>
  ⟨(h.create b).1, (h.create b).2, hc.create hb⟩

/-- Stores that can take the place of the stores of alike worlds, which stay alike and calm. -/
def Exchange (w v : World) (s t : Store) : Prop :=
  Alike { w with store := s } { v with store := t } ∧ Calm { w with store := s }

/-- A factory makes the same instrument from exchanged stores. -/
theorem Exchange.factory {s t : Store} (he : Exchange w v s t) (source : Source)
    (hs : source.Harmless) :
    (source.factory w t).1 = (source.factory w s).1 ∧
      Exchange w v (source.factory w s).2 (source.factory w t).2 := by
  cases source with
  | made b =>
    obtain ⟨h, hc⟩ := he
    have hfactory : v.factory b = w.factory b := h.factory_eq b
    have hanswer : (v.factory b t).1 = (w.factory b s).1 := (h.create b).1
    have hafter : Exchange w v (w.factory b s).2 (v.factory b t).2 :=
      ⟨(h.create b).2, hc.create hs⟩
    rw [hfactory] at hanswer hafter
    exact ⟨hanswer, hafter⟩
  | kept x => exact ⟨rfl, he⟩

/-- What a registration proposes has its instrument from one of the sources. -/
theorem Enrolment.exists_source {e : Enrolment} {p : Registry.Proposal Store}
    (hp : (e.registration w).proposal = .ok p) :
    ∃ source, e.Uses source ∧ p.factory = source.factory w := by
  have hpropose {kind : Kind} {d : Descriptor} {source : Source}
      (h : Registry.propose kind d (source.factory w) = .ok p) : p.factory = source.factory w := by
    obtain ⟨-, hfactory, -⟩ := Registry.propose_eq_ok h
    exact hfactory
  cases e with
  | getOrCreate id request source =>
    obtain rfl := Except.ok.inj hp
    exact ⟨source, rfl, rfl⟩
  | instrument d tags b => exact ⟨.made b, rfl, hpropose hp⟩
  | register d tags h => exact ⟨.kept h, rfl, hpropose hp⟩
  | registerGauge d tags serial => exact ⟨.kept (.gauge serial), rfl, hpropose hp⟩
  | registerDynamic d tags provides =>
    simp only [registration, Registration.proposal] at hp
    split at hp
    · contradiction
    · rename_i h hchosen
      obtain ⟨kind, hkind⟩ := Registry.exists_provided hchosen
      exact ⟨.kept h, ⟨kind, h, hkind, rfl⟩, hpropose hp⟩

/-- The sources of a harmless registration are harmless. -/
theorem Enrolment.Harmless.source {e : Enrolment} (he : e.Harmless) {source : Source}
    (hs : e.Uses source) : source.Harmless := by
  cases e with
  | getOrCreate id request x => exact hs ▸ he
  | instrument d tags b => exact hs ▸ he
  | register d tags h => exact hs ▸ trivial
  | registerGauge d tags serial => exact hs ▸ trivial
  | registerDynamic d tags provides =>
    obtain ⟨kind, h, -, rfl⟩ := hs
    trivial

/-- A registration is carried out in alike worlds alike. -/
theorem blind_enrol (k : RegistryKey) {e : Enrolment} (he : e.Harmless) :
    Blind fun w => w.registering k fun r store => (e.registration w).run r store := by
  intro w v hc h
  have hexchange : Exchange w v w.store v.store := ⟨h, hc⟩
  obtain ⟨hanswer, hregistry, halike, hcalm⟩ :=
    (e.registration w).run_related (w.registry k) hexchange fun p hp => by
      obtain ⟨source, hs, hfactory⟩ := e.exists_source hp
      rw [hfactory]
      exact hexchange.factory source (he.source hs)
  simp only [registering, e.registration_of_alike h, h.registry_eq, hregistry]
  exact ⟨hanswer, halike.setRegistry k _, hcalm⟩

end Registration

section Tables

variable {w v : World}

/-- A scope has the same registry in alike worlds. -/
theorem Alike.scope?_eq (h : w.Alike v) (s : Scope) : v.scope? s = w.scope? s := by
  rw [scope?, h.scopes, scope?]

/-- A registry is made in alike worlds alike. -/
theorem blind_newRegistry : Blind newRegistry := fun _ _ hc h =>
  ⟨by simp only [newRegistry, h.registries],
    { h with registries := by simp only [newRegistry, h.registries] }, hc⟩

/-- A scope is asked for in alike worlds alike. -/
theorem blind_init (s : Scope) : Blind (init · s) := by
  intro w v hc h
  have hs := h.scope?_eq s
  dsimp only
  cases hw : w.scope? s with
  | some k =>
    rw [init_of_live hw, init_of_live (hs.trans hw)]
    exact ⟨rfl, h, hc⟩
  | none =>
    obtain ⟨hanswer, halike, hcalm⟩ := blind_newRegistry hc h
    simp only [init, hw, hs.trans hw]
    exact ⟨hanswer, { halike with scopes := by simp only [hanswer, halike.scopes] }, hcalm⟩

/-- A registry is emptied in alike worlds alike. -/
theorem Alike.clearRegistry (h : w.Alike v) (k : RegistryKey) :
    (w.clearRegistry k).Alike (v.clearRegistry k) :=
  h.setRegistry k .empty

/-- A scope is dropped in alike worlds alike. -/
theorem blind_dropScope (s : Scope) : Blind (dropScope · s) := by
  intro w v hc h
  have hdropped : Alike { w with scopes := w.scopes.erase s } { v with scopes := v.scopes.erase s } :=
    { h with scopes := by simp only [h.scopes] }
  simp only [dropScope, h.scope?_eq s]
  cases w.scope? s with
  | none => exact ⟨rfl, h, hc⟩
  | some k => exact ⟨rfl, hdropped.clearRegistry k, hc⟩

/-- Registries are emptied one after the other in alike worlds alike. -/
theorem Alike.clearRegistries (h : w.Alike v) (hc : w.Calm) (ks : List RegistryKey) :
    (ks.foldl World.clearRegistry w).Alike (ks.foldl World.clearRegistry v) ∧
      (ks.foldl World.clearRegistry w).Calm := by
  induction ks generalizing w v with
  | nil => exact ⟨h, hc⟩
  | cons k rest ih => exact ih (h.clearRegistry k) hc

/-- All scopes are dropped in alike worlds alike. -/
theorem blind_dropAll : Blind fun w => ((), w.dropAll) := by
  intro w v hc h
  have hdropped : Alike { w with scopes := .empty } { v with scopes := .empty } :=
    { h with scopes := rfl }
  simp only [dropAll, h.scopes]
  exact ⟨trivial, hdropped.clearRegistries hc _⟩

/-- A removal from a registry is carried out in alike worlds alike. -/
theorem blind_removing (k : RegistryKey) {f : World → Registry → Bool × Registry}
    (hf : ∀ ⦃w v⦄, w.Calm → w.Alike v → f v = f w) : Blind fun w => w.removing k (f w) := by
  intro w v hc h
  simp only [removing, hf hc h, h.registry_eq]
  exact ⟨trivial, h.setRegistry k _, hc⟩

end Tables

section Instruments

/-- Adding to a counter is done in alike worlds alike. -/
theorem blind_increment (serial : Nat) (n : UInt64) :
    Blind fun w => ((w.increment serial n).store.counter serial, w.increment serial n) := by
  intro w v hc h
  have hstore : (v.increment serial n).store.counters = (w.increment serial n).store.counters := by
    simp only [increment, Store.setCounter, Store.counter, h.counters]
  exact ⟨by simp only [Store.counter, hstore], { h with counters := hstore }, hc⟩

/-- Marking events is done in alike worlds alike. -/
theorem blind_mark (serial : Nat) (n : UInt64) :
    Blind fun w => (((w.mark serial n).store.meter serial).count, w.mark serial n) := by
  intro w v hc h
  have hmark : (v.store.meter serial).mark v.now n = (w.store.meter serial).mark w.now n := by
    simp only [Pace.Meter.mark, h.now, h.meters serial]
  have halike : (w.mark serial n).Alike (v.mark serial n) := by
    rw [mark, mark, hmark]
    exact h.setMeter serial rfl
  exact ⟨halike.count_meter serial, halike, hc⟩

/-- The value of a gauge is replaced in alike worlds alike. -/
theorem blind_setGauge (serial : Nat) {f : World → Float}
    (hf : ∀ ⦃w v⦄, w.Alike v → f v = f w) :
    Blind fun w => (((w.setGauge serial (f w)).store.gauge serial).value, w.setGauge serial (f w)) := by
  intro w v hc h
  have hstore : (v.setGauge serial (f v)).store.gauges = (w.setGauge serial (f w)).store.gauges := by
    simp only [setGauge, Store.setGauge, Store.gauge, h.gauges, hf h]
  refine ⟨by simp only [Store.gauge, hstore], { h with gauges := hstore }, fun i => ?_⟩
  have hkept : Gauge.removes { w.store.gauge serial with value := f w } =
      (w.store.gauge serial).removes := rfl
  exact (part_getD_setIfInBounds Gauge.removes hkept i).trans (hc i)

/-- Values are recorded in alike worlds alike. -/
theorem blind_recordValues (serial : Nat) (xs : List Float) :
    Blind fun w => ((), w.recordValues serial xs) := by
  intro w v hc h
  have hrecord : (v.store.histogram serial).recordAll v.draws xs =
      (w.store.histogram serial).recordAll w.draws xs := by
    simp only [Store.histogram, h.histograms, h.draws]
  refine ⟨rfl, ?_, hc⟩
  simp only [recordValues, hrecord]
  exact { h with
    histograms := by simp only [Store.setHistogram, h.histograms]
    draws := rfl }

/-- A duration is recorded in alike worlds alike. -/
theorem Alike.recordDuration {w v : World} (h : w.Alike v) (serial nanos : Nat) :
    (w.recordDuration serial nanos).Alike (v.recordDuration serial nanos) := by
  obtain ⟨hdurations, helapsed, hmeter⟩ := h.timers serial
  have hmark : (v.store.timer serial).meter.mark v.now 1 =
      (w.store.timer serial).meter.mark w.now 1 := by
    simp only [Pace.Meter.mark, h.now, hmeter]
  have hrecord (draw : Nat) : (v.store.timer serial).record v.now nanos draw =
      (w.store.timer serial).record w.now nanos draw := by
    simp only [Timer.record, hdurations, helapsed, hmark]
  have hset (t : Timer) : Alike { w with store := w.store.setTimer serial t }
      { v with store := v.store.setTimer serial t } := h.setTimer serial rfl rfl rfl
  simp only [World.recordDuration, hdurations, h.draws, hrecord]
  generalize w.draws.upTo (w.store.timer serial).durations.reservoir.pushes.toNat = drawn
  exact { hset ((w.store.timer serial).record w.now nanos drawn.1) with draws := rfl }

/-- Recording a duration leaves gauges alone. -/
theorem gauges_recordDuration (w : World) (serial nanos : Nat) :
    (w.recordDuration serial nanos).store.gauges = w.store.gauges := by
  obtain ⟨draw, draws, hrecord⟩ := w.exists_recordDuration serial nanos
  rw [hrecord]
  rfl

/-- A calm world is calm after a duration was recorded. -/
theorem Calm.recordDuration {w : World} (hc : w.Calm) (serial nanos : Nat) :
    (w.recordDuration serial nanos).Calm := by
  intro i
  rw [Store.gauge, gauges_recordDuration]
  exact hc i

/-- A timing ends in alike worlds alike. -/
theorem blind_endTiming (t : Timing) : Blind (endTiming · t) := by
  intro w v hc h
  simp only [endTiming, h.now]
  exact ⟨trivial, h.recordDuration t.timer _, hc.recordDuration t.timer _⟩

/-- Scrapes are answered alike in worlds that exports carry along. -/
theorem along_scrape {R : World → World → Prop} {H : Handle → Handle → Prop} {L : RegistryKey → Prop}
    (c : Carries R Eq H L) (e : Scrape) : Along R Eq (fun w => e.run w) fun w => e.run w := by
  cases e with
  | values format settings selection => exact Http.along_values? c format settings selection
  | metadata selection => exact Http.along_metadata? c selection
  | respond settings method target accept =>
    exact Http.along_respond c settings method target accept

/-- Scrapes are not seen. -/
theorem unseen_scrape (e : Scrape) : Unseen fun w => e.run w :=
  .of_along fun u => along_scrape (Export.carries_beside u) e

end Instruments

section Clock

variable {w v : World}

/-- Time passes in alike worlds alike. -/
theorem Alike.advance (h : w.Alike v) {nanos : Nat} (honward : w.now ≤ (w.advance nanos).now) :
    (w.advance nanos).Alike (v.advance nanos) := by
  have hlater := h.withNow honward
  rwa [World.advance, World.advance, h.now]

/-- The clock is set back in alike worlds alike, where that does not set it back. -/
theorem Alike.rewind? (h : w.Alike v) {nanos : Nat}
    (honward : w.now ≤ ((w.rewind? nanos).getD w).now) :
    (w.rewind? nanos = none ∧ v.rewind? nanos = none) ∨
      ∃ u x, w.rewind? nanos = some u ∧ v.rewind? nanos = some x ∧ u.Alike x ∧ u.store = w.store := by
  by_cases hn : nanos ≤ w.now.toNat
  · have hw : w.rewind? nanos = some { w with now := w.now - UInt64.ofNat nanos } := if_pos hn
    have hv : v.rewind? nanos = some { v with now := w.now - UInt64.ofNat nanos } := by
      rw [World.rewind?, h.now]
      exact if_pos hn
    rw [hw] at honward
    exact .inr ⟨_, _, hw, hv, h.withNow honward, rfl⟩
  · exact .inl ⟨if_neg hn, if_neg (h.now.symm ▸ hn)⟩

end Clock

/-- Whatever is done is done in alike worlds alike, if it does not set the clock back. -/
theorem Act.run_alike {a : Act} (ha : a.Harmless) {w v : World} (hc : w.Calm) (h : w.Alike v)
    (honward : w.now ≤ (a.run w).2.now) :
    (a.run v).1 = (a.run w).1 ∧ (a.run w).2.Alike (a.run v).2 ∧ (a.run w).2.Calm := by
  cases a with
  | advance nanos =>
    have halike := h.advance honward
    exact ⟨halike.now, halike, hc⟩
  | rewind nanos =>
    obtain ⟨hw, hv⟩ | ⟨u, x, hw, hv, halike, hstore⟩ := h.rewind? honward
    · simp only [run, hw, hv]
      exact ⟨rfl, h, hc⟩
    · simp only [run, hw, hv]
      exact ⟨congrArg some halike.now, halike, hc.of_store hstore⟩
  | init s => exact blind_init s hc h
  | scopes => exact (Unseen.look fun _ _ h => h.scopes).blind hc h
  | dropScope s => exact blind_dropScope s hc h
  | dropAll => exact blind_dropAll hc h
  | newRegistry => exact blind_newRegistry hc h
  | contents k => exact (Unseen.look fun _ _ h => h.registry_eq k).blind hc h
  | collect k kind p =>
    refine ⟨?_, h, hc⟩
    simp only [run, h.condition_eq hc p, h.registry_eq]
    rfl
  | enrol k e => exact blind_enrol k ha hc h
  | remove k id => exact blind_removing k (f := fun _ => (·.remove id)) (fun _ _ _ _ => rfl) hc h
  | removeByName k name =>
    exact blind_removing k (f := fun _ => (·.removeByName name)) (fun _ _ _ _ => rfl) hc h
  | removeMatching k p =>
    exact blind_removing k (f := fun w r => r.removeMatching fun id x => p id x (w.observe x).1)
      (fun _ _ hc h => by simp only [h.condition_eq hc p]) hc h
  | clear k => exact ⟨rfl, h.clearRegistry k, hc⟩
  | create b => exact blind_create ha hc h
  | increment serial n => exact blind_increment serial n hc h
  | mark serial n => exact blind_mark serial n hc h
  | setGauge serial value =>
    exact ⟨rfl, (blind_setGauge serial (f := fun _ => value) (fun _ _ _ => rfl) hc h).2⟩
  | addToGauge serial x =>
    exact blind_setGauge serial (f := fun w => (w.store.gauge serial).value + x)
      (fun _ _ h => by simp only [Store.gauge, h.gauges]) hc h
  | recordValues serial xs => exact blind_recordValues serial xs hc h
  | recordDuration serial nanos =>
    exact ⟨rfl, h.recordDuration serial nanos, hc.recordDuration serial nanos⟩
  | startTiming serial => exact ⟨congrArg (Timing.mk serial) h.now, h, hc⟩
  | endTiming t => exact blind_endTiming t hc h
  | observe x => exact (unseen_observe x).blind hc h
  | histogramSnapshot serial =>
    have hs : v.store.histogram serial = w.store.histogram serial := by
      simp only [Store.histogram, h.histograms]
    exact ⟨congrArg Sampling.Histogram.snapshot hs, h, hc⟩
  | timerSnapshot serial =>
    exact ⟨congrArg Sampling.Histogram.snapshot (h.timers serial).1, h, hc⟩
  | meterRates serial => exact (unseen_meterRates serial).blind hc h
  | timerRates serial => exact (unseen_timerRates serial).blind hc h
  | scrape e => exact (unseen_scrape e).blind hc h

end Telemetry.World
