import Telemetry.Session.Basic

/-!
# Registration in sessions

Registrations answer the current values of the instrument that was registered or found, and keep its
handle if a name is given. A refused registration keeps nothing.
-/

namespace Telemetry.Session

/-- The answer of a registration: the values of the instrument. -/
abbrev Registering := Except RegistrationError Observation × Session

/-- Finish a registration. -/
def settle (s : Session) (keepAs : Option String) (settable : Bool)
    (o : Except RegistrationError Handle × World) : Registering :=
  let s := { s with world := o.2 }
  match o.1 with
  | .error e => (.error e, s)
  | .ok h =>
    let (values, s) := s.act (·.observe h)
    (.ok values, s.keep keepAs ⟨h, settable⟩)

/-- Get the instrument of a kind, or make it as the blueprint says. -/
def instrument (s : Session) (k : RegistryKey) (kind : Kind) (d : Descriptor) (tags : List Tag)
    (b : Blueprint) (keepAs : Option String) : Registering :=
  s.settle keepAs false <|
    s.world.registering k fun r store => r.instrument kind d tags (s.world.factory b) store

/-- Register a gauge whose keeper sets its value. -/
def settableGauge (s : Session) (k : RegistryKey) (d : Descriptor) (tags : List Tag)
    (value : Float) (keepAs : Option String) : Registering :=
  let (h, w) := s.world.create (.gauge ⟨value, none⟩)
  s.settle keepAs true <| w.registering k fun r store => r.registerGauge d tags h store

/-- Register an instrument that is kept already. -/
def registerKept (s : Session) (k : RegistryKey) (d : Descriptor) (tags : List Tag) (h : Handle)
    (keepAs : Option String) : Registering :=
  s.settle keepAs false <| s.world.registering k fun r store => r.register d tags h store

/-- Register an instrument that is made first. -/
def registerNew (s : Session) (k : RegistryKey) (d : Descriptor) (tags : List Tag) (b : Blueprint)
    (keepAs : Option String) : Registering :=
  let (h, world) := s.world.create b
  { s with world }.registerKept k d tags h keepAs

/-- Make instruments one after the other. -/
def createAll (w : World) : List Blueprint → List Handle × World
  | [] => ([], w)
  | b :: rest =>
    let (h, w) := w.create b
    let (hs, w) := createAll w rest
    (h :: hs, w)

/-- Register an object that provides instruments of several kinds. -/
def registerDynamic (s : Session) (k : RegistryKey) (d : Descriptor) (tags : List Tag)
    (bs : List Blueprint) (keepAs : Option String) : Registering :=
  let (hs, w) := createAll s.world bs
  s.settle keepAs false <|
    w.registering k fun r store =>
      r.registerDynamic d tags (fun kind => hs.find? (·.kind == kind)) store

/-- Get the instrument of an identity, or make it as the blueprint says, whatever the kind asked
for. -/
def getOrCreate (s : Session) (k : RegistryKey) (id : Identity) (request : Request)
    (b : Blueprint) (keepAs : Option String) : Registering :=
  s.settle keepAs false <|
    s.world.registering k fun r store => r.getOrCreate id request (s.world.factory b) store

/-- Get a counter by its bare name in a scope and add one to it, if it is a counter. -/
def countOnce (scope : Scope) (name : String) (tags : List Tag) (w : World) : World :=
  let (k, w) := w.init scope
  let (answer, w) := w.registering k fun r store =>
    r.instrument .counter (.name name) tags (w.factory (.counter 0)) store
  match answer with
  | .ok (.counter n) => w.increment n 1
  | _ => w

/-- Count in a scope `times` times, with the values that are registered under the identity
afterwards and the number of identities in the scope. -/
def countRepeatedly (s : Session) (scope : Scope) (name : String) (tags : List Tag)
    (times : Nat) : (Option Observation × Nat) × Session :=
  s.act fun w =>
    let (k, w) := w.init scope
    let w := Nat.repeat (countOnce scope name tags) times w
    let r := w.registry k
    match r.instrument? (.of name tags) with
    | none => ((none, r.identities.length), w)
    | some h =>
      let (values, w) := w.observe h
      ((some values, (w.registry k).identities.length), w)

end Telemetry.Session
