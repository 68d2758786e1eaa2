import Telemetry.Registry.Basic
import Telemetry.Registry.Error

/-!
# Registration

A registration asks for an instrument under an identity. If the name is new its metadata is stored;
otherwise the request has to fit the metadata that is there. A live instrument of the identity is
the answer when it may be shared, which a gauge never may; if there is none, a factory makes one.

The factory is a step on a state of the caller's choice, so that a statement can say whether it was
run. Every entry point comes down to `getOrCreate`.
-/

namespace Telemetry

/-- What a registration asks for. -/
inductive Request where
  /-- An instrument of a kind, whatever else the name's metadata says. -/
  | ofKind (kind : Kind)
  /-- An instrument whose name has this metadata. -/
  | explicit (metadata : Metadata)

namespace Request

/-- The kind asked for. -/
def kind : Request → Kind
  | .ofKind kind => kind
  | .explicit metadata => metadata.kind

/-- The metadata that is stored for a new name. -/
def metadataFor (name : String) : Request → Metadata
  | .ofKind kind => .ofKind name kind
  | .explicit metadata => metadata

/-- Where stored metadata disagrees with the request. -/
def conflict? (stored : Metadata) : Request → Option Metadata.Conflict
  | .ofKind _ => none
  | .explicit metadata => stored.conflict? metadata

end Request

/-- A name alone, or full metadata. -/
inductive Descriptor where
  | name (name : String)
  | metadata (metadata : Metadata)

namespace Descriptor

/-- The name described. -/
def metricName : Descriptor → String
  | .name n => n
  | .metadata m => m.name

/-- The request for an instrument of a kind, or of the kind that the metadata names. -/
def request (kind : Kind) : Descriptor → Request
  | .name _ => .ofKind kind
  | .metadata m => .explicit m

end Descriptor

/-- A registry after a registration, with the answer and the state of the factory. -/
structure Registered (σ : Type) where
  /-- The instrument, or why there is none. -/
  answer : Except RegistrationError Handle
  registry : Registry
  state : σ

namespace Registry

variable {σ : Type}

/-- Answer with the live instrument of an identity if it may be shared, or with a new one. -/
def enroll (r : Registry) (id : Identity) (kind : Kind) (reusable : Bool)
    (factory : σ → Handle × σ) (s : σ) : Registered σ :=
  match r.instrument? id with
  | some live =>
    if reusable && live.kind == kind && kind != .gauge then ⟨.ok live, r, s⟩
    else ⟨.error (.duplicate id), r, s⟩
  | none =>
    let (new, s) := factory s
    ⟨.ok new, { r with instruments := r.instruments.insert id new }, s⟩

/-- Get the instrument of an identity, or make it. -/
def getOrCreate (r : Registry) (id : Identity) (request : Request) (factory : σ → Handle × σ)
    (s : σ) : Registered σ :=
  match r.metadataFor? id.name with
  | none =>
    let metadata := request.metadataFor id.name
    { r with metadata := r.metadata.insert id.name metadata }.enroll id request.kind
      metadata.reusable factory s
  | some stored =>
    if stored.kind != request.kind then
      ⟨.error (.kindConflict id.name stored.kind request.kind), r, s⟩
    else
      match request.conflict? stored with
      | some conflict => ⟨.error (.metadataConflict id.name conflict), r, s⟩
      | none => r.enroll id request.kind stored.reusable factory s

/-- Refuse an answer of another kind than was asked for. -/
def expectKind (kind : Kind) (name : String) (o : Registered σ) : Registered σ :=
  match o.answer with
  | .error _ => o
  | .ok h =>
    if h.kind == kind then o else { o with answer := .error (.kindConflict name h.kind kind) }

/-- Get the instrument of a kind for a description and tags, or make it. -/
def instrument (r : Registry) (kind : Kind) (d : Descriptor) (tags : List Tag)
    (factory : σ → Handle × σ) (s : σ) : Registered σ :=
  let request := d.request kind
  if request.kind != kind then
    ⟨.error (.kindConflict d.metricName request.kind kind), r, s⟩
  else
    expectKind kind d.metricName (r.getOrCreate (.of d.metricName tags) request factory s)

/-- Register an instrument that was made before. -/
def register (r : Registry) (d : Descriptor) (tags : List Tag) (h : Handle) (s : σ) :
    Registered σ :=
  let request := d.request h.kind
  if request.kind != h.kind then
    ⟨.error (.kindConflict d.metricName request.kind h.kind), r, s⟩
  else r.getOrCreate (.of d.metricName tags) request (fun s => (h, s)) s

/-- Register a gauge that was made before. -/
def registerGauge (r : Registry) (d : Descriptor) (tags : List Tag) (h : Handle) (s : σ) :
    Registered σ :=
  expectKind .gauge d.metricName (r.register d tags h s)

/-- The instruments that an object provides, in the order of kinds. -/
def capabilities (provides : Kind → Option Handle) : List Handle := Kind.all.filterMap provides

/-- Choose the instrument that an object is registered as: the one of the kind that the metadata
names, or the only one. -/
def chooseCapability (d : Descriptor) (offered : List Handle) : Except RegistrationError Handle :=
  match d with
  | .metadata metadata =>
    match offered.find? (·.kind == metadata.kind) with
    | some h => .ok h
    | none => .error (.unsupported metadata.name (some metadata.kind))
  | .name name =>
    match offered with
    | [] => .error (.unsupported name none)
    | [h] => .ok h
    | _ => .error (.ambiguous name (offered.map Handle.kind))

/-- Register an object that may be one of several kinds of instrument. -/
def registerDynamic (r : Registry) (d : Descriptor) (tags : List Tag)
    (provides : Kind → Option Handle) (s : σ) : Registered σ :=
  match chooseCapability d (capabilities provides) with
  | .error e => ⟨.error e, r, s⟩
  | .ok h => r.register d tags h s

/-- A name of another kind refuses the request, and nothing is changed. -/
theorem getOrCreate_of_kind_ne {r : Registry} {id : Identity} {request : Request}
    {stored : Metadata} (hs : r.metadataFor? id.name = some stored)
    (hk : stored.kind ≠ request.kind) (factory : σ → Handle × σ) (s : σ) :
    r.getOrCreate id request factory s =
      ⟨.error (.kindConflict id.name stored.kind request.kind), r, s⟩ := by
  simp [getOrCreate, hs, hk]

/-- A live instrument that may be shared is the answer, and nothing is changed. -/
theorem enroll_of_live {r : Registry} {id : Identity} {h : Handle}
    (hl : r.instrument? id = some h) (hg : h.kind ≠ .gauge) (factory : σ → Handle × σ) (s : σ) :
    r.enroll id h.kind true factory s = ⟨.ok h, r, s⟩ := by
  simp [enroll, hl, hg]

end Registry

end Telemetry
