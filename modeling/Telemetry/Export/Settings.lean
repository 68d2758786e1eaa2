import Telemetry.Tag.Expression

/-!
# Export settings

Whether documents show descriptions, and the tags that every instrument is shown with unless it has
a tag of the same key.
-/

namespace Telemetry.Export

/-- How documents are written. -/
structure Settings where
  /-- Whether descriptions are shown. -/
  help : Bool
  /-- Tags that every instrument is shown with. -/
  globalTags : List Tag
  deriving DecidableEq, Repr

namespace Settings

/-- Descriptions are shown and there are no global tags, unless something else is asked for. -/
def default : Settings := ⟨true, []⟩

instance : Inhabited Settings := ⟨default⟩

/-- Show descriptions, or not. -/
def withHelp (s : Settings) (help : Bool) : Settings := { s with help }

/-- Add global tags after those that are there. -/
def withGlobalTags (s : Settings) (tags : List Tag) : Settings :=
  { s with globalTags := s.globalTags ++ tags }

/-- Add the global tags of a tag expression. -/
def withGlobalTagsExpression (s : Settings) (text : String) :
    Except Tag.MalformedExpression Settings :=
  (Tag.parseExpression text).map s.withGlobalTags

end Settings

end Telemetry.Export
