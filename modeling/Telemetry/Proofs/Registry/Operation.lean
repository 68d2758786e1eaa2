import Telemetry.Proofs.Registry.Reconciliation

/-!
# Operations on a registry

Registrations by every entry point and the ways to remove, as data, so that a run is a list of them.
A registration either is refused for its own arguments or comes down to one `getOrCreate`; a
withdrawal is a sweep. Whatever holds of these two holds of all operations.

The entry points for a kind take factories that make this kind, and the one for gauges a gauge. Only
`getOrCreate` may be given a factory that makes something else than was asked for.
-/

namespace Telemetry.Registry

/-- A factory whose instruments all have one kind. -/
structure Factory (σ : Type) (kind : Kind) where
  make : σ → Handle × σ
  kind_make : ∀ s, (make s).1.kind = kind

/-- A registration, by entry point. -/
inductive Registration (σ : Type) where
  | getOrCreate (id : Identity) (request : Request) (factory : σ → Handle × σ)
  | instrument (kind : Kind) (d : Descriptor) (tags : List Tag) (factory : Factory σ kind)
  | register (d : Descriptor) (tags : List Tag) (h : Handle)
  | registerGauge (d : Descriptor) (tags : List Tag) (serial : Nat)
  | registerDynamic (d : Descriptor) (tags : List Tag) (provides : Kind → Option Handle)

/-- A removal: of an identity, of all identities of a name, of what satisfies a condition, or of
everything. -/
inductive Withdrawal where
  | one (id : Identity)
  | named (name : String)
  | matching (p : Identity → Handle → Bool)
  | all

/-- An operation that may change a registry. -/
inductive Operation (σ : Type) where
  | register (g : Registration σ)
  | withdraw (v : Withdrawal)

/-- What `getOrCreate` is asked for once the arguments of a registration fit together. -/
structure Proposal (σ : Type) where
  request : Request
  factory : σ → Handle × σ

variable {σ : Type}

/-- Propose an instrument of a kind, unless the metadata at hand names another kind. -/
def propose (kind : Kind) (d : Descriptor) (factory : σ → Handle × σ) :
    Except RegistrationError (Proposal σ) :=
  if (d.request kind).kind = kind then .ok ⟨d.request kind, factory⟩
  else .error (.kindConflict d.metricName (d.request kind).kind kind)

namespace Registration

/-- Carry out a registration. -/
def run (g : Registration σ) (r : Registry) (s : σ) : Registered σ :=
  match g with
  | .getOrCreate id request factory => r.getOrCreate id request factory s
  | .instrument kind d tags factory => r.instrument kind d tags factory.make s
  | .register d tags h => r.register d tags h s
  | .registerGauge d tags serial => r.registerGauge d tags (.gauge serial) s
  | .registerDynamic d tags provides => r.registerDynamic d tags provides s

/-- The identity that a registration is for. -/
def identity : Registration σ → Identity
  | .getOrCreate id _ _ => id
  | .instrument _ d tags _ => .of d.metricName tags
  | .register d tags _ => .of d.metricName tags
  | .registerGauge d tags _ => .of d.metricName tags
  | .registerDynamic d tags _ => .of d.metricName tags

/-- What a registration proposes, or why its arguments do not fit together. -/
def proposal : Registration σ → Except RegistrationError (Proposal σ)
  | .getOrCreate _ request factory => .ok ⟨request, factory⟩
  | .instrument kind d _ factory => propose kind d factory.make
  | .register d _ h => propose h.kind d fun s => (h, s)
  | .registerGauge d _ serial => propose .gauge d fun s => (.gauge serial, s)
  | .registerDynamic d _ provides =>
    match chooseCapability d (capabilities provides) with
    | .error e => .error e
    | .ok h => propose h.kind d fun s => (h, s)

end Registration

/-- What a proposal for an identity is answered with. -/
def consider (r : Registry) (id : Identity) (s : σ) :
    Except RegistrationError (Proposal σ) → Registered σ
  | .error e => ⟨.error e, r, s⟩
  | .ok p => r.getOrCreate id p.request p.factory s

variable {r : Registry} {id : Identity} {request : Request} {factory : σ → Handle × σ} {s : σ}

/-- An enrolled instrument has the kind asked for if the factory makes it. -/
theorem kind_of_enroll_eq_ok {kind : Kind} {reusable : Bool} {h : Handle}
    (hf : (factory s).1.kind = kind)
    (ho : (r.enroll id kind reusable factory s).answer = .ok h) : h.kind = kind := by
  simp only [enroll] at ho
  split at ho
  · split at ho
    · rename_i hshare
      obtain rfl := Except.ok.inj ho
      simp only [Bool.and_eq_true, beq_iff_eq] at hshare
      exact hshare.1.2
    · contradiction
  · obtain rfl := Except.ok.inj ho
    exact hf

/-- The answer to a request has the kind asked for if the factory makes it. -/
theorem kind_of_getOrCreate_eq_ok {h : Handle} (hf : (factory s).1.kind = request.kind)
    (ho : (r.getOrCreate id request factory s).answer = .ok h) : h.kind = request.kind := by
  simp only [getOrCreate] at ho
  split at ho
  · exact kind_of_enroll_eq_ok hf ho
  · split at ho
    · contradiction
    · split at ho
      · contradiction
      · exact kind_of_enroll_eq_ok hf ho

/-- An answer of the right kind passes the last check of an entry point. -/
theorem expectKind_getOrCreate (r : Registry) (id : Identity)
    (hf : (factory s).1.kind = request.kind) (name : String) :
    expectKind request.kind name (r.getOrCreate id request factory s) =
      r.getOrCreate id request factory s := by
  simp only [expectKind]
  split
  · rfl
  · rename_i h ho
    rw [if_pos (beq_iff_eq.mpr (kind_of_getOrCreate_eq_ok hf ho))]

/-- A proposal whose factory makes the kind passes the last check of an entry point. -/
theorem expectKind_consider {kind : Kind} (hf : (factory s).1.kind = kind) (r : Registry)
    (id : Identity) (d : Descriptor) (name : String) :
    expectKind kind name (r.consider id s (propose kind d factory)) =
      r.consider id s (propose kind d factory) := by
  rw [propose]
  split
  · rename_i hk
    have hexpect := expectKind_getOrCreate r id (hf.trans hk.symm) name
    rw [hk] at hexpect
    exact hexpect
  · rfl

/-- Registering an instrument that was made before comes down to its proposal. -/
theorem register_eq_consider (r : Registry) (d : Descriptor) (tags : List Tag) (h : Handle)
    (s : σ) :
    r.register d tags h s =
      r.consider (.of d.metricName tags) s (propose h.kind d fun s => (h, s)) := by
  simp only [register, propose, bne_iff_ne]
  by_cases hk : (d.request h.kind).kind = h.kind <;> simp [hk, consider]

/-- Getting an instrument of a kind comes down to its proposal. -/
theorem instrument_eq_consider (r : Registry) (kind : Kind) (d : Descriptor) (tags : List Tag)
    (factory : Factory σ kind) (s : σ) :
    r.instrument kind d tags factory.make s =
      r.consider (.of d.metricName tags) s (propose kind d factory.make) := by
  rw [← expectKind_consider (factory.kind_make s) r (.of d.metricName tags) d d.metricName]
  simp only [Registry.instrument, propose, bne_iff_ne]
  by_cases hk : (d.request kind).kind = kind <;> simp [hk, consider, expectKind]

/-- Every registration comes down to its proposal. -/
theorem Registration.run_eq_consider (g : Registration σ) (r : Registry) (s : σ) :
    g.run r s = r.consider g.identity s g.proposal := by
  cases g with
  | getOrCreate id request factory => rfl
  | instrument kind d tags factory => exact instrument_eq_consider r kind d tags factory s
  | register d tags h => exact register_eq_consider r d tags h s
  | registerGauge d tags serial =>
    -- The last check of this entry point cannot fail, since the gauge is its own factory.
    let factory : σ → Handle × σ := fun s => (.gauge serial, s)
    have hf : (factory s).1.kind = .gauge := rfl
    change expectKind .gauge d.metricName (r.register d tags (.gauge serial) s) = _
    rw [register_eq_consider]
    exact expectKind_consider hf r (.of d.metricName tags) d d.metricName
  | registerDynamic d tags provides =>
    simp only [run, Registry.registerDynamic, identity, proposal]
    cases chooseCapability d (capabilities provides) with
    | error e => rfl
    | ok h => exact register_eq_consider r d tags h s

/-- An instrument that is chosen for a description is one that was provided. -/
theorem exists_provided {d : Descriptor} {provides : Kind → Option Handle} {h : Handle}
    (hc : chooseCapability d (capabilities provides) = .ok h) : ∃ kind, provides kind = some h := by
  have hmem : h ∈ capabilities provides := by
    cases d with
    | metadata m =>
      simp only [chooseCapability] at hc
      split at hc
      · rename_i hfound
        exact Except.ok.inj hc ▸ List.mem_of_find?_eq_some hfound
      · contradiction
    | name n =>
      simp only [chooseCapability] at hc
      split at hc
      · contradiction
      · rename_i hone
        rw [hone]
        exact List.mem_singleton.mpr (Except.ok.inj hc).symm
      · contradiction
  obtain ⟨kind, -, hkind⟩ := List.mem_filterMap.mp hmem
  exact ⟨kind, hkind⟩

/-- An enrolment leaves the instruments as they are and runs no factory, or it registers what the factory
makes. -/
theorem enroll_instruments (r : Registry) (id : Identity) (kind : Kind) (reusable : Bool)
    (factory : σ → Handle × σ) (s : σ) :
    let o := r.enroll id kind reusable factory s
    (o.registry.instruments = r.instruments ∧ o.state = s) ∨
      (o.registry.instruments = r.instruments.insert id (factory s).1 ∧ o.state = (factory s).2) := by
  simp only [enroll]
  split
  · split <;> exact .inl ⟨rfl, rfl⟩
  · exact .inr ⟨rfl, rfl⟩

/-- So does a request, whatever is described. -/
theorem getOrCreate_instruments (r : Registry) (id : Identity) (request : Request)
    (factory : σ → Handle × σ) (s : σ) :
    let o := r.getOrCreate id request factory s
    (o.registry.instruments = r.instruments ∧ o.state = s) ∨
      (o.registry.instruments = r.instruments.insert id (factory s).1 ∧ o.state = (factory s).2) := by
  simp only [getOrCreate]
  split
  · exact enroll_instruments _ id _ _ factory s
  · split
    · exact .inl ⟨rfl, rfl⟩
    · split
      · exact .inl ⟨rfl, rfl⟩
      · exact enroll_instruments r id _ _ factory s

/-- So does a registration. -/
theorem Registration.run_instruments (g : Registration σ) (r : Registry) (s : σ) :
    let o := g.run r s
    (o.registry.instruments = r.instruments ∧ o.state = s) ∨
      ∃ p, g.proposal = .ok p ∧
        o.registry.instruments = r.instruments.insert g.identity (p.factory s).1 ∧
        o.state = (p.factory s).2 := by
  rw [g.run_eq_consider]
  cases hp : g.proposal with
  | error e => exact .inl ⟨rfl, rfl⟩
  | ok p =>
    exact (getOrCreate_instruments r g.identity p.request p.factory s).imp id fun h => ⟨p, rfl, h⟩

/-- The three outcomes of a registration in a coherent registry: it is refused and nothing changes,
or it is answered with the live instrument and nothing changes, or a new instrument is
registered. -/
theorem Coherent.run_cases (hc : r.Coherent) (g : Registration σ) (s : σ) :
    (∃ e, g.run r s = ⟨.error e, r, s⟩) ∨
    (∃ p live, g.proposal = .ok p ∧ r.Accepts g.identity p.request ∧
      r.instrument? g.identity = some live ∧ g.run r s = ⟨.ok live, r, s⟩) ∨
    (∃ p, g.proposal = .ok p ∧ r.Accepts g.identity p.request ∧
      r.instrument? g.identity = none ∧
      g.run r s = ⟨.ok (p.factory s).1,
        r.withInstrument g.identity p.request (p.factory s).1, (p.factory s).2⟩) := by
  rw [g.run_eq_consider]
  cases hp : g.proposal with
  | error e => exact .inl ⟨e, rfl⟩
  | ok p =>
    obtain ⟨e, -, ho⟩ | ⟨live, ha, hl, ho⟩ | ⟨ha, hl, ho⟩ :=
      hc.getOrCreate_cases g.identity p.request p.factory s
    · exact .inl ⟨e, ho⟩
    · exact .inr (.inl ⟨p, live, rfl, ha, hl, ho⟩)
    · exact .inr (.inr ⟨p, rfl, ha, hl, ho⟩)

section Related

variable {R : σ → σ → Prop} {t : σ}

/-- What an enrolment answers and does to the registry hangs on the factory's state only through the
instrument that the factory makes. -/
theorem enroll_related (r : Registry) (id : Identity) (kind : Kind) (reusable : Bool) (hst : R s t)
    (hf : (factory t).1 = (factory s).1 ∧ R (factory s).2 (factory t).2) :
    let o := r.enroll id kind reusable factory s
    let o' := r.enroll id kind reusable factory t
    o'.answer = o.answer ∧ o'.registry = o.registry ∧ R o.state o'.state := by
  simp only [enroll]
  split
  · split <;> exact ⟨rfl, rfl, hst⟩
  · rw [hf.1]
    exact ⟨rfl, rfl, hf.2⟩

/-- So it is with requests. -/
theorem getOrCreate_related (r : Registry) (id : Identity) (request : Request) (hst : R s t)
    (hf : (factory t).1 = (factory s).1 ∧ R (factory s).2 (factory t).2) :
    let o := r.getOrCreate id request factory s
    let o' := r.getOrCreate id request factory t
    o'.answer = o.answer ∧ o'.registry = o.registry ∧ R o.state o'.state := by
  simp only [getOrCreate]
  split
  · exact enroll_related _ id _ _ hst hf
  · split
    · exact ⟨rfl, rfl, hst⟩
    · split
      · exact ⟨rfl, rfl, hst⟩
      · exact enroll_related r id _ _ hst hf

/-- So it is with registrations. -/
theorem Registration.run_related (g : Registration σ) (r : Registry) (hst : R s t)
    (hf : ∀ p, g.proposal = .ok p →
      (p.factory t).1 = (p.factory s).1 ∧ R (p.factory s).2 (p.factory t).2) :
    (g.run r t).answer = (g.run r s).answer ∧ (g.run r t).registry = (g.run r s).registry ∧
      R (g.run r s).state (g.run r t).state := by
  rw [g.run_eq_consider, g.run_eq_consider]
  cases hp : g.proposal with
  | error e => exact ⟨rfl, rfl, hst⟩
  | ok p => exact getOrCreate_related r g.identity p.request hst (hf p hp)

end Related

namespace Withdrawal

/-- Carry out a removal. -/
def run : Withdrawal → Registry → Registry
  | .one id, r => (r.remove id).2
  | .named name, r => (r.removeByName name).2
  | .matching p, r => (r.removeMatching p).2
  | .all, r => r.clear

/-- Whether a removal is meant for an instrument. -/
def targets : Withdrawal → Identity → Handle → Bool
  | .one id, i, _ => i == id
  | .named name, i, _ => i.name == name
  | .matching p, i, h => p i h
  | .all, _, _ => true

end Withdrawal

/-- Every removal is a sweep of what it is meant for. -/
theorem Coherent.run_eq_sweep (hc : r.Coherent) (v : Withdrawal) : v.run r = r.sweep v.targets := by
  cases v with
  | one id => exact hc.remove_eq_sweep id
  | named name => exact hc.removeByName_eq_sweep name
  | matching p => exact hc.removeMatching_eq_sweep p
  | all => exact clear_eq_sweep r

/-- The registry and the factories' state after an operation. -/
def Operation.run (op : Operation σ) (r : Registry) (s : σ) : Registry × σ :=
  match op with
  | .register g => ((g.run r s).registry, (g.run r s).state)
  | .withdraw v => (v.run r, s)

/-- Every operation keeps a registry coherent. -/
theorem Coherent.run (hc : r.Coherent) (op : Operation σ) (s : σ) : (op.run r s).1.Coherent := by
  cases op with
  | register g =>
    change (g.run r s).registry.Coherent
    obtain ⟨e, ho⟩ | ⟨p, live, -, -, -, ho⟩ | ⟨p, -, -, hl, ho⟩ := hc.run_cases g s
    · rw [ho]
      exact hc
    · rw [ho]
      exact hc
    · rw [ho]
      exact hc.withInstrument hl p.request _
  | withdraw v =>
    change (v.run r).Coherent
    rw [hc.run_eq_sweep]
    exact hc.sweep _

/-- The registries that operations can lead to from the empty one. Each operation may bring a
factory state of its own. -/
inductive Reachable : Registry → Prop
  | empty : Reachable .empty
  | step {σ : Type} {r : Registry} (hr : Reachable r) (op : Operation σ) (s : σ) :
      Reachable (op.run r s).1

/-- The registry and the factories' state after operations, one after the other. -/
def runAll (r : Registry) (s : σ) : List (Operation σ) → Registry × σ
  | [] => (r, s)
  | op :: rest => runAll (op.run r s).1 (op.run r s).2 rest

/-- Operations lead from reachable registries to reachable ones. -/
theorem Reachable.runAll (hr : Reachable r) (s : σ) (ops : List (Operation σ)) :
    Reachable (r.runAll s ops).1 := by
  induction ops generalizing r s with
  | nil => exact hr
  | cons op rest ih => exact ih (hr.step op s) _

/-- A reachable registry is coherent. -/
theorem Reachable.coherent (hr : Reachable r) : r.Coherent := by
  induction hr with
  | empty => exact coherent_empty
  | step _ op s ih => exact ih.run op s

end Telemetry.Registry
