import Telemetry.Session.Basic

/-!
# Recording and export in sessions

What a session does with its instruments besides registering them: timings under names, an overview
of everything that is live, documents and responses.
-/

namespace Telemetry.Session

/-- End the timing that runs under a name, which is recorded then. Answers how long it ran. -/
def endTiming (s : Session) (name : String) : Option Nat × Session :=
  match s.timings.get? name with
  | none => (none, s)
  | some watch =>
    let (nanos, s) := { s with timings := s.timings.erase name }.act (·.stop watch)
    (some nanos, s)

/-- Start a timing under a name. One that runs under the name already is let go of, and so ends
then. -/
def startTiming (s : Session) (serial : Nat) (name : String) : Session :=
  let watch := s.world.startWatch serial
  let world :=
    match s.timings.get? name with
    | none => s.world
    | some replaced => s.world.release replaced
  { s with world, timings := s.timings.insert name watch }

/-- Time a stretch of work that takes some time. Answers the timer's count during the work and its
values afterwards. -/
def timeWork (s : Session) (serial : Nat) (nanos : Nat) : (UInt64 × Observation) × Session :=
  s.act fun w =>
    let (inside, w) := w.time serial fun w =>
      let w := w.advance nanos
      ((w.store.timer serial).count, w)
    let (values, w) := w.observe (.timer serial)
    ((inside, values), w)

/-- What is live in a scope. -/
structure ScopeOverview where
  scope : Scope
  /-- The metadata of its names. -/
  metadata : List (String × Metadata)
  /-- The values of its instruments. -/
  instruments : List (Identity × Observation)

/-- What is live in several scopes, in order; in each the metadata is looked at before any
instrument is read. -/
def overviewOf (w : World) : List (Scope × RegistryKey) → List ScopeOverview × World
  | [] => ([], w)
  | (scope, k) :: rest =>
    let r := w.registry k
    let (instruments, w) := w.observeAll r.instruments.toList
    let (later, w) := overviewOf w rest
    (⟨scope, r.metadata.toList, instruments⟩ :: later, w)

/-- What is live in all scopes. -/
def overview (s : Session) : List ScopeOverview × Session :=
  s.act fun w => overviewOf w w.liveScopes

/-- A document of values. -/
def document (s : Session) (format : Http.Format) (selection : Export.Selection) :
    Option String × Session :=
  s.act (format.values? s.settings selection)

/-- A document of metadata. -/
def metadataDocument (s : Session) (selection : Export.Selection) : Option String × Session :=
  s.act (Json.metadata? selection)

/-- The response to a request. -/
def respond (s : Session) (method target : String) (accept : Option String) :
    Http.Response × Session :=
  s.act (Http.respond s.settings method target accept)

/-- A timing that is not running cannot be ended. -/
theorem endTiming_of_absent {s : Session} {name : String} (h : s.timings.get? name = none) :
    s.endTiming name = (none, s) := by simp [endTiming, h]

end Telemetry.Session
