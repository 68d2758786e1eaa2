import Telemetry.Decimal.Style
import Telemetry.Export.Selection
import Telemetry.Export.Settings
import Telemetry.Exposition.Family
import Telemetry.Label
import Telemetry.Text.Escape

/-!
# Text documents

A document is a list of lines: for each family its header and then its samples, family after family,
group after group and scope after scope. The description of a name stands in the header of the first
family of its group only. Each line ends with a line feed, and no text from outside can bring in
another one, as all of it is sanitized or escaped.
-/

namespace Telemetry.Exposition

open Export (Group Selection Settings)

/-- One line of a document. -/
inductive Line where
  | help (family : String) (description : String)
  | type (family : String) (type : FamilyType)
  | unit (family : String) (unit : String)
  | sample (s : Sample)
  /-- The mark at the end. -/
  | endMark

/-- The text of a value. -/
def valueText (x : Float) : String := Decimal.Style.document.write x

/-- The key of the label that holds a quantile. -/
def quantileKey : String := "quantile"

/-- The labels of a sample, in order: its tags, and its quantile if it has one. -/
def Sample.labels (s : Sample) : List Label :=
  s.tags.list.map Label.ofTag ++ (s.quantile.map fun q => ⟨quantileKey, valueText q⟩).toList

/-- The text of a label: the key, and the escaped value in quotation marks. -/
def labelChars (l : Label) : List Char :=
  l.key.toList ++ '=' :: '"' :: ((Text.Escape.labelValue l.value).toList ++ ['"'])

/-- Labels in braces with commas between them; nothing without labels. -/
def labelBlock (labels : List Label) : List Char :=
  if labels.isEmpty then []
  else '\x7b' :: (((labels.map labelChars).intersperse [',']).flatten ++ ['\x7d'])

/-- The text of a sample. -/
def Sample.chars (s : Sample) : List Char :=
  s.name.toList ++ labelBlock s.labels ++ ' ' :: (valueText s.value).toList

/-- The text of a header line: a word for what it declares, the family and the declaration. -/
def headerChars (word family declaration : String) : List Char :=
  "# ".toList ++ word.toList ++ ' ' :: (family.toList ++ ' ' :: declaration.toList)

/-- The text of a line without its line feed. -/
def Line.chars (d : Dialect) : Line → List Char
  | .help family description =>
    headerChars "HELP" family (Text.Escape.description d.escapesQuotes description)
  | .type family t => headerChars "TYPE" family t.word
  | .unit family u => headerChars "UNIT" family u
  | .sample s => s.chars
  | .endMark => "# EOF".toList

/-- The header of a family. -/
def headerLines (d : Dialect) (help : Option String) (f : Family) : List Line :=
  let help := (help.map (Line.help f.name)).toList
  let unit := if d.declaresUnits then (f.unit.map (Line.unit f.name)).toList else []
  let type := [Line.type f.name f.type]
  if d.helpFirst then help ++ type ++ unit else type ++ unit ++ help

/-- The lines of a family. -/
def familyLines (d : Dialect) (help : Option String) (f : Family) : List Line :=
  headerLines d help f ++ f.samples.map Line.sample

/-- The lines of several families: the description belongs to the first. -/
def familiesLines (d : Dialect) (help : Option String) : List Family → List Line
  | [] => []
  | f :: rest => familyLines d help f ++ rest.flatMap (familyLines d none)

/-- The lines of a group. -/
def groupLines (d : Dialect) (settings : Settings) (scope : Scope) (g : Group) : List Line :=
  let help := if settings.help then g.metadata.description else none
  familiesLines d help (families d scope g)

/-- The lines of several scopes, in order. -/
def scopeLines (d : Dialect) (settings : Settings) (name? : Option String) (w : World) :
    List (Scope × RegistryKey) → List Line × World
  | [] => ([], w)
  | (scope, k) :: rest =>
    let (groups, w) := Export.collectGroups k name? settings.globalTags w
    let (later, w) := scopeLines d settings name? w rest
    (groups.flatMap (groupLines d settings scope) ++ later, w)

/-- The lines of a document; none when the selection names a scope that is not live. -/
def documentLines? (d : Dialect) (settings : Settings) (selection : Selection) (w : World) :
    Option (List Line) × World :=
  match selection.scopes? w with
  | none => (none, w)
  | some scopes =>
    let (lines, w) := scopeLines d settings selection.name? w scopes
    (some (lines ++ if d.endMark then [.endMark] else []), w)

/-- Lines as text. -/
def render (d : Dialect) (lines : List Line) : String :=
  String.ofList (lines.flatMap fun line => line.chars d ++ ['\n'])

/-- The text of a document; none when the selection names a scope that is not live. -/
def document? (d : Dialect) (settings : Settings) (selection : Selection) (w : World) :
    Option String × World :=
  let (lines, w) := documentLines? d settings selection w
  (lines.map (render d), w)

/-- Lines one after the other are their texts one after the other. -/
theorem render_append (d : Dialect) (a b : List Line) :
    render d (a ++ b) = render d a ++ render d b := by
  simp [render]

end Telemetry.Exposition
