import Telemetry.Export.Group

/-!
# Selections

What part of the live instruments an export covers.
-/

namespace Telemetry.Export

/-- The part of the live instruments that an export covers. -/
inductive Selection where
  | all
  | scope (s : Scope)
  /-- One name in one scope. -/
  | metric (s : Scope) (name : String)
  /-- One name in all scopes. -/
  | metricEverywhere (name : String)
  deriving DecidableEq, Repr

namespace Selection

/-- The selection of an optional scope and an optional name. -/
def of : Option Scope → Option String → Selection
  | none, none => .all
  | some s, none => .scope s
  | some s, some name => .metric s name
  | none, some name => .metricEverywhere name

/-- The one name that is covered, if it is one. -/
def name? : Selection → Option String
  | .metric _ name | .metricEverywhere name => some name
  | .all | .scope _ => none

/-- The scopes that are covered, in order; none when a scope is named that is not live. -/
def scopes? (w : World) : Selection → Option (List (Scope × RegistryKey))
  | .all | .metricEverywhere _ => some w.liveScopes
  | .scope s | .metric s _ => (w.scope? s).map fun k => [(s, k)]

end Selection

end Telemetry.Export
