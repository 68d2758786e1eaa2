import Telemetry.Kind

/-!
# Metadata

What is known about all instruments of one name. A description or unit that is not given counts as
the word `none`, a display name that is not given as the name, and units are compared up to the case
of ASCII letters; two records that agree so far are interchangeable in a registration.
-/

namespace Telemetry

/-- The word that stands for a unit or description that is not given. -/
def noneWord : String := "none"

/-- What is known about all instruments of a name. -/
structure Metadata where
  name : String
  /-- A name for people to read, if it differs from the name. -/
  display : Option String
  /-- What is measured, in words. -/
  description : Option String
  /-- The unit in which values are recorded. -/
  unit : Option String
  /-- The kind that all instruments of the name have. -/
  kind : Kind
  /-- Whether a registration may be answered with a live instrument. -/
  reusable : Bool
  deriving DecidableEq, Repr, Inhabited

namespace Metadata

/-- The record of a name about which only the kind is known. -/
def ofKind (name : String) (kind : Kind) : Metadata := ⟨name, none, none, none, kind, true⟩

/-- The name for people to read. -/
def displayName (m : Metadata) : String := m.display.getD m.name

/-- The fields in which two records of one name and kind can disagree. -/
inductive Field where
  | unit
  | description
  | displayName
  /-- Whether instruments may be shared. -/
  | reusable
  deriving DecidableEq, Repr

/-- The fields in the order in which they are compared. -/
def Field.all : List Field := [.unit, .description, .displayName, .reusable]

/-- A field's name in messages. -/
def Field.word : Field → String
  | .unit => "unit"
  | .description => "description"
  | .displayName => "display name"
  | .reusable => "reusable"

/-- A field's value as text, with the defaults for what is not given. -/
def value (m : Metadata) : Field → String
  | .unit => m.unit.getD noneWord
  | .description => m.description.getD noneWord
  | .displayName => m.displayName
  | .reusable => if m.reusable then "true" else "false"

/-- Whether two values of a field agree: units up to letter case, all else exactly. -/
def Field.agree (f : Field) (x y : String) : Bool :=
  match f with
  | .unit => Text.sameLetters x y
  | _ => x == y

/-- A field in which two records disagree, with both values. -/
structure Conflict where
  field : Field
  /-- The value of the record at hand. -/
  existing : String
  /-- The value of the record it is compared with. -/
  requested : String
  deriving DecidableEq, Repr

/-- The first field in which two records disagree. -/
def conflict? (a b : Metadata) : Option Conflict :=
  (Field.all.find? fun f => !f.agree (a.value f) (b.value f)).map fun f =>
    ⟨f, a.value f, b.value f⟩

/-- Whether two records say the same. -/
def agrees (a b : Metadata) : Bool :=
  a.name == b.name && a.kind == b.kind && (a.conflict? b).isNone

/-- Why there is no record. -/
inductive Fault where
  /-- No kind was given for the name. -/
  | missingKind (name : String)
  /-- A word that names no kind. -/
  | unknownKind (word : String)
  deriving DecidableEq, Repr

/-- The wording of a fault. -/
def Fault.message : Fault → String
  | .missingKind name => "metadata for `" ++ name ++ "` has no metric type"
  | .unknownKind word => "unknown metric type `" ++ word ++ "`"

/-- The kind of a word, or the fault that names the word. -/
def parseKind (word : String) : Except Fault Kind :=
  match Kind.ofWord? word with
  | some kind => .ok kind
  | none => .error (.unknownKind word)

/-- A record in the making: the kind may be missing or be a word that names none. -/
structure Draft where
  name : String
  kindWord : Option String
  display : Option String
  description : Option String
  unit : Option String
  /-- Whether instruments may be shared; they may when nothing is said. -/
  reusable : Option Bool
  deriving DecidableEq, Repr

/-- Finish a record. -/
def Draft.build (d : Draft) : Except Fault Metadata :=
  match d.kindWord with
  | none => .error (.missingKind d.name)
  | some word =>
    (parseKind word).map fun kind =>
      ⟨d.name, d.display, d.description, d.unit, kind, d.reusable.getD true⟩

end Metadata

end Telemetry
