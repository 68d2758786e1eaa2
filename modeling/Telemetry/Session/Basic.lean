import Telemetry.Http.Service
import Telemetry.World.Stopwatch

/-!
# Sessions

A world together with the names that its user gives to things in it: handles of instruments, running
timings and registries that are held on to whatever becomes of their scope. A session also has the
settings that its exports are written with.
-/

namespace Telemetry

/-- A handle that a session keeps under a name. -/
structure KeptHandle where
  handle : Handle
  /-- Whether it is a gauge whose value its keeper sets. -/
  settable : Bool
  deriving DecidableEq, Repr

/-- Why there is no instrument to work on. -/
inductive HandleFault where
  /-- Nothing is kept under the name. -/
  | unknown
  /-- What is kept under the name is of another kind. -/
  | otherKind
  deriving DecidableEq, Repr

/-- A world with names for things in it. -/
structure Session where
  world : World
  /-- The handles that are kept. -/
  handles : Table String KeptHandle
  /-- The timings that run. -/
  timings : Table String Stopwatch
  /-- The registries that are held on to. -/
  held : Table String RegistryKey
  /-- How exports are written. -/
  settings : Export.Settings

namespace Session

/-- A session with nothing in it; the reservoirs of its instruments get the given capacity. -/
def start (capacity : Nat) : Session := ⟨.start capacity, .empty, .empty, .empty, .default⟩

/-- Carry out a step of the world. -/
def act {α : Type} (s : Session) (f : World → α × World) : α × Session :=
  let (a, world) := f s.world
  (a, { s with world })

/-- The registry of a scope. -/
def scopeKey? (s : Session) (scope : Scope) : Option RegistryKey := s.world.scope? scope

/-- The registry held under a name. -/
def heldKey? (s : Session) (name : String) : Option RegistryKey := s.held.get? name

/-- Hold on to a registry. -/
def hold (s : Session) (name : String) (k : RegistryKey) : Session :=
  { s with held := s.held.insert name k }

/-- Make a registry that no scope names, and hold on to it. -/
def holdNew (s : Session) (name : String) : Session :=
  let (k, s) := s.act World.newRegistry
  s.hold name k

/-- Keep a handle, if a name for it is given. -/
def keep (s : Session) (name? : Option String) (h : KeptHandle) : Session :=
  match name? with
  | some name => { s with handles := s.handles.insert name h }
  | none => s

/-- The handle kept under a name. -/
def handle? (s : Session) (name : String) : Except HandleFault Handle :=
  match s.handles.get? name with
  | some kept => .ok kept.handle
  | none => .error .unknown

/-- What `choose` finds in the handle kept under a name. -/
def pick {α : Type} (s : Session) (name : String) (choose : Handle → Option α) :
    Except HandleFault α :=
  match s.handle? name with
  | .error e => .error e
  | .ok h =>
    match choose h with
    | some a => .ok a
    | none => .error .otherKind

/-- The counter kept under a name. -/
def counter? (s : Session) (name : String) : Except HandleFault Nat :=
  s.pick name fun | .counter n => some n | _ => none

/-- The histogram kept under a name. -/
def histogram? (s : Session) (name : String) : Except HandleFault Nat :=
  s.pick name fun | .histogram n => some n | _ => none

/-- The meter kept under a name. -/
def meter? (s : Session) (name : String) : Except HandleFault Nat :=
  s.pick name fun | .meter n => some n | _ => none

/-- The timer kept under a name. -/
def timer? (s : Session) (name : String) : Except HandleFault Nat :=
  s.pick name fun | .timer n => some n | _ => none

/-- The gauge kept under a name, if its keeper may set it. -/
def settableGauge? (s : Session) (name : String) : Except HandleFault Nat :=
  match s.handles.get? name with
  | some ⟨.gauge n, true⟩ => .ok n
  | _ => .error .unknown

/-- A handle that was just kept is found. -/
theorem handle?_keep (s : Session) (name : String) (h : KeptHandle) :
    (s.keep (some name) h).handle? name = .ok h.handle := by
  simp [keep, handle?, Table.get?_insert]

end Session

end Telemetry
