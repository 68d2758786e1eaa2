/-!
# Scopes

A scope names a registry. Scopes are told apart and ordered by their names; three of them are
common to all programs.
-/

namespace Telemetry

/-- The name of a registry. -/
abbrev Scope := String

/-- Metrics that every runtime provides. -/
def Scope.base : Scope := "base"

/-- Metrics of one vendor's runtime. -/
def Scope.vendor : Scope := "vendor"

/-- Metrics of the application itself. -/
def Scope.application : Scope := "application"

/-- The common scopes. -/
def Scope.common : List Scope := [.base, .vendor, .application]

end Telemetry
