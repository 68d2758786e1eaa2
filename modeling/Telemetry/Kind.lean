import Telemetry.Text.Pieces

/-!
# Kinds of instruments

The five kinds, in the order in which listings show them.
-/

namespace Telemetry

/-- What an instrument measures. -/
inductive Kind where
  /-- A count that only grows. -/
  | counter
  /-- A value that is read when it is asked for. -/
  | gauge
  /-- A distribution of values. -/
  | histogram
  /-- A count of events with their rates. -/
  | meter
  /-- A distribution of durations with the rates of the events. -/
  | timer
  deriving DecidableEq, Repr, Inhabited

namespace Kind

/-- Every kind, in order. -/
def all : List Kind := [.counter, .gauge, .histogram, .meter, .timer]

/-- The word for a kind. -/
def word : Kind → String
  | .counter => "counter"
  | .gauge => "gauge"
  | .histogram => "histogram"
  | .meter => "meter"
  | .timer => "timer"

/-- The kind that a word names, in any letter case. -/
def ofWord? (s : String) : Option Kind := all.find? fun k => Text.sameLetters k.word s

/-- Each kind is named by its word. -/
theorem ofWord?_word (k : Kind) : ofWord? k.word = some k := by
  cases k <;> decide +kernel

/-- Every kind is listed. -/
theorem mem_all (k : Kind) : k ∈ all := by cases k <;> decide

end Kind

end Telemetry
