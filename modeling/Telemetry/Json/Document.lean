import Telemetry.Export.Selection
import Telemetry.Export.Settings
import Telemetry.Json.Value
import Telemetry.Name

/-!
# JSON exports

Two documents: the values of instruments, each under a key made of its name and tags, and the
metadata of names. A restriction to one scope yields the object of that scope, otherwise there is an
object with one entry for each scope; one name in all scopes leaves out the scopes that have nothing
of it.
-/

namespace Telemetry.Json

open Export (Distribution Group Reading Selection Settings)

/-- The media type of JSON documents. -/
def contentType : String := "application/json"

/-- The part of a key that shows a tag; a semicolon in the value becomes an underscore. -/
def tagPart (t : Tag) : List Char :=
  ';' :: (t.key.toList ++ '=' :: t.value.toList.map fun c => if c = ';' then '_' else c)

/-- The key of an instrument: the sanitized name, and each tag after a semicolon. -/
def key (name : String) (tags : List Tag) : String :=
  String.ofList ((Name.sanitize name).toList ++ tags.flatMap tagPart)

/-- The entries of rates. -/
def rateEntries (r : Pace.Rates) : List (String × Json) :=
  [("meanRate", .ofFloat r.mean), ("oneMinRate", .ofFloat r.oneMinute),
   ("fiveMinRate", .ofFloat r.fiveMinutes), ("fifteenMinRate", .ofFloat r.fifteenMinutes)]

/-- The entries of a distribution; the sum has a name of the caller's choice. -/
def distributionEntries (sumKey : String) (d : Distribution) : List (String × Json) :=
  [("count", .natural d.count.toNat), (sumKey, .ofFloat d.sum), ("min", .ofFloat d.min),
   ("max", .ofFloat d.max), ("mean", .ofFloat d.mean), ("stddev", .ofFloat d.stddev)] ++
  d.quantiles.map fun q => (q.1.label, .ofFloat q.2)

/-- The value of a reading. -/
def ofReading : Reading → Json
  | .counter x => .ofCount x
  | .gauge x => .ofFloat x
  | .meter count rates =>
    .ofTable (.ofList (("count", .natural count.toNat) :: rateEntries rates))
  | .histogram d => .ofTable (.ofList (distributionEntries "sum" d))
  | .timer d rates =>
    .ofTable (.ofList (distributionEntries "elapsedTime" d ++ rateEntries rates))

/-- The entries of a group. -/
def groupEntries (g : Group) : List (String × Json) :=
  g.members.map fun m => (key g.metadata.name m.tags.list, ofReading m.reading)

/-- The values of a registry, of one name or of all. -/
def scopeValues (settings : Settings) (name? : Option String) (k : RegistryKey) (w : World) :
    Table String Json × World :=
  let (groups, w) := Export.collectGroups k name? settings.globalTags w
  (.ofList (groups.flatMap groupEntries), w)

/-- The tags of an identity in a metadata document. -/
def tagTexts (id : Identity) : Json := .list (id.tagList.map fun t => .text t.text)

/-- The metadata of a name, with the tags of the identities of that name. -/
def ofMetadata (name : String) (m : Metadata) (ids : List Identity) : Json :=
  .ofTable (.ofList
    [("unit", .text (m.unit.getD noneWord)),
     ("type", .text m.kind.word),
     ("description", .text (m.description.getD "")),
     ("displayName", .text m.displayName),
     ("tags", .list ((ids.filter (·.name == name)).map tagTexts))])

/-- The metadata of a registry, of one name or of all. -/
def scopeMetadata (name? : Option String) (k : RegistryKey) (w : World) :
    Table String Json × World :=
  let r := w.registry k
  let chosen := r.metadata.toList.filter fun e => name?.all (· == e.1)
  (.ofList (chosen.map fun e => (Name.sanitize e.1, ofMetadata e.1 e.2 r.identities)), w)

/-- What a registry contributes to a document. -/
abbrev Contribution := Option String → RegistryKey → World → Table String Json × World

/-- The entries of several scopes; without `keepEmpty`, scopes that contribute nothing are left
out. -/
def scopeEntries (contribution : Contribution) (keepEmpty : Bool) (name? : Option String)
    (w : World) : List (Scope × RegistryKey) → List (String × Json) × World
  | [] => ([], w)
  | (scope, k) :: rest =>
    let (entries, w) := contribution name? k w
    let (later, w) := scopeEntries contribution keepEmpty name? w rest
    (if keepEmpty || !entries.isEmpty then (scope, .ofTable entries) :: later else later, w)

/-- The object of a selection; none when it names a scope that is not live. -/
def object? (contribution : Contribution) (selection : Selection) (w : World) :
    Option (Table String Json) × World :=
  match selection.scopes? w with
  | none => (none, w)
  | some scopes =>
    match selection with
    | .scope _ | .metric _ _ =>
      match scopes with
      | [] => (some .empty, w)
      | (_, k) :: _ =>
        let (entries, w) := contribution selection.name? k w
        (some entries, w)
    | .all =>
      let (entries, w) := scopeEntries contribution true none w scopes
      (some (.ofList entries), w)
    | .metricEverywhere name =>
      let (entries, w) := scopeEntries contribution false (some name) w scopes
      (some (.ofList entries), w)

/-- A document of a selection. -/
def write? (contribution : Contribution) (selection : Selection) (w : World) :
    Option String × World :=
  let (entries, w) := object? contribution selection w
  (entries.map fun t => (Json.ofTable t).write, w)

/-- The document of values. -/
def values? (settings : Settings) (selection : Selection) (w : World) : Option String × World :=
  write? (scopeValues settings) selection w

/-- The document of metadata. -/
def metadata? (selection : Selection) (w : World) : Option String × World :=
  write? scopeMetadata selection w

end Telemetry.Json
