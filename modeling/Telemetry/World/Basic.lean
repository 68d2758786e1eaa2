import Telemetry.Registry.Registration
import Telemetry.Scope

/-!
# The world of instruments

Everything that operations on metrics read or change: a clock, the store of instruments, every
registry that was ever made and the scopes that name some of them. A registry whose scope was
dropped is emptied and goes on under its key for those who hold it; a scope that is asked for again
gets a new one.

The clock is moved from outside. Concurrent use is not modelled here: each operation is one step.
-/

namespace Telemetry

/-- The state that operations work on. -/
structure World where
  /-- The clock, in nanoseconds. -/
  now : UInt64
  /-- The capacity of the reservoirs of new instruments. -/
  capacity : Nat
  /-- Where full reservoirs draw their numbers. -/
  draws : Sampling.Draw
  store : Store
  /-- All registries, in the order of making. -/
  registries : Array Registry
  /-- The registries of live scopes. -/
  scopes : Table Scope RegistryKey

namespace World

/-- A world without scopes whose clock stands at zero. -/
def start (capacity : Nat) : World := ⟨0, capacity, ⟨0⟩, .empty, #[], .empty⟩

/-- Move the clock forward; it goes round at `2 ^ 64`. -/
def advance (w : World) (nanos : Nat) : World := { w with now := w.now + UInt64.ofNat nanos }

/-- Move the clock back, unless that is before its zero. -/
def rewind? (w : World) (nanos : Nat) : Option World :=
  if nanos ≤ w.now.toNat then some { w with now := w.now - UInt64.ofNat nanos } else none

/-- The registry of a key; empty for a key that was never given out. -/
def registry (w : World) (k : RegistryKey) : Registry := w.registries.getD k.index .empty

/-- Replace the registry of a key. -/
def setRegistry (w : World) (k : RegistryKey) (r : Registry) : World :=
  { w with registries := w.registries.setIfInBounds k.index r }

/-- Make a registry that no scope names. -/
def newRegistry (w : World) : RegistryKey × World :=
  (⟨w.registries.size⟩, { w with registries := w.registries.push .empty })

/-- The registry of a live scope. -/
def scope? (w : World) (s : Scope) : Option RegistryKey := w.scopes.get? s

/-- The registry of a scope, made now if the scope is not live. -/
def init (w : World) (s : Scope) : RegistryKey × World :=
  match w.scope? s with
  | some k => (k, w)
  | none =>
    let (k, w) := w.newRegistry
    (k, { w with scopes := w.scopes.insert s k })

/-- Empty a registry. -/
def clearRegistry (w : World) (k : RegistryKey) : World :=
  w.setRegistry k (w.registry k).clear

/-- Drop a scope and empty its registry. Answers whether the scope was live. -/
def dropScope (w : World) (s : Scope) : Bool × World :=
  match w.scope? s with
  | none => (false, w)
  | some k => (true, { w with scopes := w.scopes.erase s }.clearRegistry k)

/-- Drop every scope and empty their registries. -/
def dropAll (w : World) : World :=
  w.scopes.values.foldl clearRegistry { w with scopes := .empty }

/-- The live scopes, in order. -/
def scopeNames (w : World) : List Scope := w.scopes.keys

/-- The live scopes with their registries, in order. -/
def liveScopes (w : World) : List (Scope × RegistryKey) := w.scopes.toList

/-- Make an instrument that is not registered. -/
def create (w : World) (b : Blueprint) : Handle × World :=
  let (h, store) := w.store.add w.now w.capacity b
  (h, { w with store })

/-- The factory that makes an instrument of a blueprint. -/
def factory (w : World) (b : Blueprint) : Store → Handle × Store :=
  fun store => store.add w.now w.capacity b

/-- Carry out a registration in one registry. -/
def registering (w : World) (k : RegistryKey) (f : Registry → Store → Registered Store) :
    Except RegistrationError Handle × World :=
  let o := f (w.registry k) w.store
  (o.answer, { w with store := o.state }.setRegistry k o.registry)

/-- Carry out a removal in one registry. -/
def removing (w : World) (k : RegistryKey) (f : Registry → Bool × Registry) : Bool × World :=
  let (b, r) := f (w.registry k)
  (b, w.setRegistry k r)

/-- A live scope keeps its registry when it is asked for again. -/
theorem init_of_live {w : World} {s : Scope} {k : RegistryKey} (h : w.scope? s = some k) :
    w.init s = (k, w) := by simp [init, h]

/-- Moving the clock forward touches nothing else. -/
@[simp] theorem store_advance (w : World) (nanos : Nat) : (w.advance nanos).store = w.store := rfl

end World

end Telemetry
