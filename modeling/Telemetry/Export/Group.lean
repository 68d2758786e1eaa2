import Telemetry.Export.Reading

/-!
# Groups

An export takes the live instruments of a registry name by name. It looks at the table of
instruments once, and then, for one name after the other, at the metadata, and reads the
instruments in order. What a gauge removes while it is read is therefore missing from the metadata
of later names, whose groups are then left out; a group is also left out when an instrument is not
of the kind that the metadata says.
-/

namespace Telemetry.Export

/-- One instrument of a group. -/
structure Member where
  /-- Its tags, with the global ones. -/
  tags : Tags
  reading : Reading

/-- The instruments of one name with the metadata of the name. -/
structure Group where
  /-- What is known about the name. -/
  metadata : Metadata
  /-- The instruments, in the order of their identities. -/
  members : List Member

/-- Why a group is left out. -/
inductive GroupError where
  /-- Instruments are there but no metadata. -/
  | missingMetadata (name : String)
  /-- An instrument is of another kind than its metadata says. -/
  | kindMismatch (id : Identity) (expected found : Kind)
  deriving DecidableEq

/-- The wording of a group error. -/
def GroupError.message : GroupError → String
  | .missingMetadata name => "metric `" ++ name ++ "` has no metadata"
  | .kindMismatch id expected found =>
    "metric `" ++ id.text ++ "` is a " ++ found.word ++ ", but its metadata says "
      ++ expected.word

/-- The names of identities that stand in order, each once. -/
def distinctNames : List Identity → List String
  | [] => []
  | [id] => [id.name]
  | a :: b :: rest =>
    if a.name = b.name then distinctNames (b :: rest) else a.name :: distinctNames (b :: rest)

/-- Read the instruments of a name in order, up to the first one of another kind. -/
def readMembers (metadata : Metadata) (globals : List Tag) (w : World) :
    List (Identity × Handle) → Except GroupError (List Member) × World
  | [] => (.ok [], w)
  | (id, h) :: rest =>
    if h.kind != metadata.kind then (.error (.kindMismatch id metadata.kind h.kind), w)
    else
      let (reading, w) := readInstrument w metadata.unit h
      let member : Member := ⟨id.tags.withDefaults globals, reading⟩
      let (members, w) := readMembers metadata globals w rest
      (members.map (member :: ·), w)

/-- Read the group of a name in a registry. -/
def readGroup (k : RegistryKey) (name : String) (globals : List Tag)
    (instruments : List (Identity × Handle)) (w : World) : Except GroupError Group × World :=
  match (w.registry k).metadataFor? name with
  | none => (.error (.missingMetadata name), w)
  | some metadata =>
    let (members, w) := readMembers metadata globals w instruments
    (members.map fun ms => ⟨metadata, ms⟩, w)

/-- Read the groups of several names in order, without those that fail. -/
def readGroups (k : RegistryKey) (globals : List Tag) (instruments : List (Identity × Handle))
    (w : World) : List String → List Group × World
  | [] => ([], w)
  | name :: rest =>
    let (group, w) :=
      readGroup k name globals (instruments.filter fun e => e.1.name == name) w
    let (groups, w) := readGroups k globals instruments w rest
    (match group with | .ok g => g :: groups | .error _ => groups, w)

/-- The groups of a registry, of one name or of all. -/
def collectGroups (k : RegistryKey) (name? : Option String) (globals : List Tag) (w : World) :
    List Group × World :=
  let r := w.registry k
  let instruments := match name? with
    | some name => (r.instrumentsNamed name).toList
    | none => r.instruments.toList
  readGroups k globals instruments w (distinctNames (instruments.map Prod.fst))

/-- A name is listed when an identity has it. -/
theorem mem_distinctNames {ids : List Identity} {name : String} :
    name ∈ distinctNames ids ↔ ∃ id ∈ ids, id.name = name := by
  fun_induction distinctNames ids with
  | case1 => simp
  | case2 id => simp [eq_comm]
  | case3 a b rest h ih => simp [ih, h]
  | case4 a b rest h ih => simp [ih, eq_comm]

end Telemetry.Export
