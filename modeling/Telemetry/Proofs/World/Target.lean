import Telemetry.Proofs.Export.Reading
import Telemetry.Proofs.Registry.Operation
import Telemetry.Proofs.World.Alike
import Telemetry.Session.Registration

/-!
# A counter that is got by its bare name

Whoever asks for a scope, gets a counter there by its bare name and adds to it meets one of three
worlds: the one before, the one with the scope's registry, or the one with the counter too, where only
the count varies. The last two are the worlds that asking, registering and adding lead back to.
-/

namespace Telemetry

/-- A counter that is got by its bare name in a scope. -/
structure Target where
  scope : Scope
  name : String
  tags : List Tag

namespace Target

variable (t : Target) (w : World)

/-- The identity of the counter. -/
def identity : Identity := .of t.name t.tags

/-- Get the counter in a registry, or make it. -/
def ask (k : RegistryKey) : Except RegistrationError Handle × World :=
  w.registering k fun r store =>
    r.instrument .counter (.name t.name) t.tags (w.factory (.counter 0)) store

/-- Add to what was got, if it is a counter. -/
def addTo (n : UInt64) : Except RegistrationError Handle × World → World
  | (.ok (.counter serial), w) => w.increment serial n
  | (_, w) => w

/-- The name is not bound: its scope is not live, or has a registry that knows nothing of the name. -/
def Vacant : Prop :=
  ∀ k, w.scope? t.scope = some k → k.index < w.registries.size ∧
    (w.registry k).metadataFor? t.name = none ∧ (w.registry k).hasName t.name = false

/-- The key of the scope's registry. -/
def key : RegistryKey := (w.init t.scope).1

/-- The world with the scope's registry. -/
def entered : World := (w.init t.scope).2

/-- The serial number of the counter. -/
def serial : Nat := w.store.counters.size

/-- The world with the counter at a count. -/
def counted (x : UInt64) : World :=
  let v := t.entered w
  let r := (v.registry (t.key w)).withInstrument t.identity (.ofKind .counter) (.counter (serial w))
  { v with store := { v.store with counters := v.store.counters.push x } }.setRegistry (t.key w) r

end Target

namespace World

variable {t : Target} {w : World}

/-- A registry takes its own place. -/
theorem setRegistry_registry (w : World) (k : RegistryKey) : w.setRegistry k (w.registry k) = w := by
  have h : w.registries.setIfInBounds k.index (w.registries.getD k.index .empty) = w.registries := by
    refine Array.ext_getElem? fun i => ?_
    rw [Array.getElem?_setIfInBounds]
    split
    · rename_i hi
      subst hi
      split <;> simp_all
    · rfl
  rw [setRegistry, registry, h]

/-- A scope that is not live gets a new registry when it is asked for. -/
theorem init_of_not_live {s : Scope} (hs : w.scope? s = none) :
    w.init s = (⟨w.registries.size⟩,
      { w with
        registries := w.registries.push .empty
        scopes := w.scopes.insert s ⟨w.registries.size⟩ }) := by
  simp [init, hs, newRegistry]

/-- A scope that was asked for is live. -/
theorem scope?_init (w : World) (s : Scope) : (w.init s).2.scope? s = some (w.init s).1 := by
  cases hs : w.scope? s with
  | some k => rw [init_of_live hs, hs]
  | none =>
    rw [init_of_not_live hs, scope?, Table.get?_insert, if_pos rfl]

/-- Asking for a scope makes no instrument. -/
theorem store_init (w : World) (s : Scope) : (w.init s).2.store = w.store := by
  cases hs : w.scope? s with
  | some k => rw [init_of_live hs]
  | none => rw [init_of_not_live hs]

end World

namespace Target

open Registry (consider Proposal)

variable {t : Target} {w : World} {x : UInt64}

/-- Asking for the scope makes no instrument. -/
theorem store_entered (t : Target) (w : World) : (t.entered w).store = w.store :=
  w.store_init t.scope

/-- A counter is got by its bare name through `getOrCreate`. -/
theorem ask_eq (t : Target) (w : World) (k : RegistryKey) :
    t.ask w k = w.registering k fun r store =>
      r.getOrCreate t.identity (.ofKind .counter) (w.factory (.counter 0)) store := by
  have hask (r : Registry) (store : Store) := Registry.instrument_eq_consider r .counter (.name t.name)
    t.tags ⟨w.factory (.counter 0), fun store => store.kind_add w.now w.capacity (.counter 0)⟩ store
  simp only [ask, hask]
  rfl

/-- Where the name is not bound, the registry of the scope is there and knows nothing of the name. -/
theorem Vacant.entered (hv : t.Vacant w) :
    (t.key w).index < (t.entered w).registries.size ∧
      ((t.entered w).registry (t.key w)).metadataFor? t.name = none ∧
      ((t.entered w).registry (t.key w)).hasName t.name = false := by
  simp only [Target.entered, key]
  cases hs : w.scope? t.scope with
  | some k =>
    rw [World.init_of_live hs]
    exact hv k hs
  | none =>
    have hempty : (w.registries.push Registry.empty).getD w.registries.size .empty = .empty := by
      rw [World.getD_push, if_pos rfl]
    rw [World.init_of_not_live hs]
    simp only [World.registry, hempty, Array.size_push]
    exact ⟨Nat.lt_succ_self _, rfl, rfl⟩

/-- The scope stays live when the counter is there. -/
theorem scope?_counted (t : Target) (w : World) (x : UInt64) :
    (t.counted w x).scope? t.scope = some (t.key w) := w.scope?_init t.scope

/-- The registry with the counter. -/
theorem registry_counted (hv : t.Vacant w) (x : UInt64) :
    (t.counted w x).registry (t.key w) = ((t.entered w).registry (t.key w)).withInstrument t.identity
      (.ofKind .counter) (.counter (serial w)) := by
  rw [counted]
  dsimp only
  rw [World.registry_setRegistry, if_pos ⟨rfl, hv.entered.1⟩]

/-- The name is described as a counter, whatever it was in other registries. -/
theorem metadataFor?_counted (hv : t.Vacant w) (x : UInt64) :
    ((t.counted w x).registry (t.key w)).metadataFor? t.name = some (.ofKind t.name .counter) := by
  rw [registry_counted hv, Registry.metadataFor?_withInstrument, hv.entered.2.1]
  exact if_pos rfl

/-- The counter is the one instrument of its name. -/
theorem instrument?_counted_iff (hv : t.Vacant w) (x : UInt64) (id : Identity) (h : Handle) :
    ((t.counted w x).registry (t.key w)).instrument? id = some h ∧ id.name = t.name ↔
      id = t.identity ∧ h = .counter (serial w) := by
  rw [registry_counted hv, Registry.instrument?_withInstrument]
  by_cases hid : id = t.identity
  · subst hid
    rw [if_pos rfl, Option.some.injEq]
    exact ⟨fun ⟨hh, _⟩ => ⟨rfl, hh.symm⟩, fun ⟨_, hh⟩ => ⟨hh.symm, rfl⟩⟩
  · rw [if_neg hid]
    refine ⟨fun ⟨hl, hname⟩ => ?_, fun ⟨he, _⟩ => absurd he hid⟩
    have hlive := Registry.hasName_of_instrument? hl
    rw [hname, hv.entered.2.2] at hlive
    contradiction

/-- A registry is made only for a scope that is not live. -/
theorem size_registries_counted (t : Target) (w : World) (x : UInt64) :
    (t.counted w x).registries.size =
      w.registries.size + if (w.scope? t.scope).isSome then 0 else 1 := by
  have hsize : (t.counted w x).registries.size = (t.entered w).registries.size :=
    Array.size_setIfInBounds
  rw [hsize, entered]
  cases hs : w.scope? t.scope with
  | some k => simp [World.init_of_live hs]
  | none => simp [World.init_of_not_live hs]

/-- One counter is made. -/
theorem size_counters_counted (t : Target) (w : World) (x : UInt64) :
    (t.counted w x).store.counters.size = w.store.counters.size + 1 := by
  change ((t.entered w).store.counters.push x).size = _
  rw [store_entered, Array.size_push]

/-- The count of the counter. -/
theorem counter_counted (t : Target) (w : World) (x : UInt64) :
    (t.counted w x).store.counter (serial w) = x := by
  change ((t.entered w).store.counters.push x).getD w.store.counters.size 0 = x
  rw [store_entered, World.getD_push, if_pos rfl]

/-- The first thread that asks for the counter makes it. -/
theorem ask_entered (hv : t.Vacant w) :
    t.ask (t.entered w) (t.key w) = (.ok (.counter (serial w)), t.counted w 0) := by
  obtain ⟨-, hmetadata, hname⟩ := hv.entered
  have hlive : ((t.entered w).registry (t.key w)).instrument? t.identity = none := by
    cases hl : ((t.entered w).registry (t.key w)).instrument? t.identity with
    | none => rfl
    | some h =>
      have hlive := Registry.hasName_of_instrument? hl
      change Registry.hasName _ t.name = true at hlive
      rw [hname] at hlive
      contradiction
  have hserial : (t.entered w).store.counters.size = serial w :=
    congrArg (·.counters.size) (t.store_entered w)
  rw [ask_eq, World.registering, Registry.getOrCreate_of_unknown hmetadata hlive, counted, ← hserial]
  rfl

/-- The others are answered with it. -/
theorem ask_counted (hv : t.Vacant w) (x : UInt64) :
    t.ask (t.counted w x) (t.key w) = (.ok (.counter (serial w)), t.counted w x) := by
  let r := (t.counted w x).registry (t.key w)
  have hstored : r.metadataFor? t.identity.name = some (.ofKind t.name .counter) :=
    metadataFor?_counted hv x
  have hlive : r.instrument? t.identity = some (.counter (serial w)) :=
    ((instrument?_counted_iff hv x _ _).mpr ⟨rfl, rfl⟩).1
  have hshared (factory : Store → Handle × Store) (store : Store) :
      r.getOrCreate t.identity (.ofKind .counter) factory store =
        ⟨.ok (.counter (serial w)), r, store⟩ := by
    have hkind : (Handle.counter (serial w)).kind ≠ .gauge := by
      rw [Handle.kind]
      decide
    simp only [Registry.getOrCreate, hstored]
    exact Registry.enroll_of_live hlive hkind factory store
  rw [ask_eq, World.registering, hshared]
  exact congrArg (Prod.mk _) ((t.counted w x).setRegistry_registry (t.key w))

/-- What is added to the counter is counted. -/
theorem increment_counted (t : Target) (w : World) (x n : UInt64) :
    (t.counted w x).increment (serial w) n = t.counted w (x + n) := by
  have hserial : serial w = (t.entered w).store.counters.size :=
    (congrArg (·.counters.size) (t.store_entered w)).symm
  have hpush : ((t.entered w).store.counters.push x).setIfInBounds (serial w) (x + n) =
      (t.entered w).store.counters.push (x + n) := by
    rw [hserial]
    simp [Array.setIfInBounds, Array.set_push]
  rw [World.increment, counter_counted]
  simp only [counted, World.setRegistry, Store.setCounter, hpush]

end Target

end Telemetry
