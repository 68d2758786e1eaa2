import Telemetry.Proofs.Registry.Operation

/-!
# Instruments that agree with their metadata

An export relies on two facts that no single table shows: an instrument is of the kind that the
metadata of its name says, and metadata carries the name that it is stored under. Only `getOrCreate`
lets a caller break them, by a factory of another kind or by metadata of another name. Where this
does not happen both hold in every registry that operations lead to.
-/

namespace Telemetry.Registry

variable {σ : Type} {r : Registry} {g : Registration σ} {id : Identity} {h : Handle}

/-- A registration makes what it asks for: the factory of a direct request makes the kind asked for,
and explicit metadata is that of the identity's name. The other entry points see to both. -/
def Registration.Honest : Registration σ → Prop
  | .getOrCreate id request factory =>
    (∀ s, (factory s).1.kind = request.kind) ∧
      ∀ metadata, request = .explicit metadata → metadata.name = id.name
  | _ => True

/-- An operation whose registration, if it is one, makes what it asks for. -/
def Operation.Honest : Operation σ → Prop
  | .register g => g.Honest
  | .withdraw _ => True

/-- The registries that honest operations can lead to from the empty one. -/
inductive HonestlyReachable : Registry → Prop
  | empty : HonestlyReachable .empty
  | step {σ : Type} {r : Registry} (hr : HonestlyReachable r) (op : Operation σ)
      (hop : op.Honest) (s : σ) : HonestlyReachable (op.run r s).1

/-- Instruments have the kind of their name's metadata, and metadata has the name it is stored
under. -/
structure Agreeing (r : Registry) : Prop where
  kind_eq : ∀ {id h m}, r.instrument? id = some h → r.metadataFor? id.name = some m →
    h.kind = m.kind
  name_eq : ∀ {name m}, r.metadataFor? name = some m → m.name = name

/-- Honest operations are operations. -/
theorem HonestlyReachable.reachable (hr : HonestlyReachable r) : Reachable r := by
  induction hr with
  | empty => exact .empty
  | step _ op _ s ih => exact ih.step op s

/-- Honest operations lead from honestly reachable registries to such. -/
theorem HonestlyReachable.runAll (hr : HonestlyReachable r) (s : σ) {ops : List (Operation σ)}
    (hops : ∀ op ∈ ops, op.Honest) : HonestlyReachable (r.runAll s ops).1 := by
  induction ops generalizing r s with
  | nil => exact hr
  | cons op rest ih =>
    have hstep := hr.step op (hops op List.mem_cons_self) s
    exact ih hstep _ fun op' h => hops op' (List.mem_cons_of_mem _ h)

/-- What a proposal is made of that was not refused for its arguments. -/
theorem propose_eq_ok {kind : Kind} {d : Descriptor} {factory : σ → Handle × σ} {p : Proposal σ}
    (hp : propose kind d factory = .ok p) :
    p.request = d.request kind ∧ p.factory = factory ∧ p.request.kind = kind := by
  unfold propose at hp
  split at hp
  · rename_i hk
    obtain rfl := Except.ok.inj hp
    exact ⟨rfl, rfl, hk⟩
  · contradiction

/-- Explicit metadata of a description names what is described. -/
theorem metadata_name_of_request {kind : Kind} {d : Descriptor} {metadata : Metadata}
    (hm : d.request kind = .explicit metadata) : metadata.name = d.metricName := by
  cases d with
  | name n => contradiction
  | metadata m =>
    obtain rfl := Request.explicit.inj hm
    rfl

/-- A proposal whose factory makes the kind proposes what it asks for. -/
theorem honest_of_propose {kind : Kind} {d : Descriptor} {factory : σ → Handle × σ}
    {p : Proposal σ} (hp : propose kind d factory = .ok p)
    (hf : ∀ s, (factory s).1.kind = kind) :
    (∀ s, (p.factory s).1.kind = p.request.kind) ∧
      ∀ metadata, p.request = .explicit metadata → metadata.name = d.metricName := by
  obtain ⟨hrequest, hfactory, hkind⟩ := propose_eq_ok hp
  refine ⟨fun s => ?_, fun metadata hm => ?_⟩
  · rw [hfactory, hf, hkind]
  · exact metadata_name_of_request (hrequest.symm.trans hm)

/-- An honest registration proposes an instrument of the kind that is asked for, and metadata of the
name. -/
theorem Registration.Honest.of_proposal (hg : g.Honest) {p : Proposal σ} (hp : g.proposal = .ok p) :
    (∀ s, (p.factory s).1.kind = p.request.kind) ∧
      ∀ metadata, p.request = .explicit metadata → metadata.name = g.identity.name := by
  cases g with
  | getOrCreate id request factory =>
    obtain rfl := Except.ok.inj hp
    exact hg
  | instrument kind d tags factory => exact honest_of_propose hp factory.kind_make
  | register d tags h => exact honest_of_propose hp fun _ => rfl
  | registerGauge d tags serial => exact honest_of_propose hp fun _ => rfl
  | registerDynamic d tags provides =>
    simp only [proposal] at hp
    cases hc : chooseCapability d (capabilities provides) with
    | error e =>
      rw [hc] at hp
      contradiction
    | ok h =>
      rw [hc] at hp
      exact honest_of_propose hp fun _ => rfl

/-- What is stored for a new name has the kind and the name of the request. -/
theorem metadataFor_agrees {request : Request} {name : String}
    (hn : ∀ metadata, request = .explicit metadata → metadata.name = name) :
    (request.metadataFor name).kind = request.kind ∧ (request.metadataFor name).name = name := by
  cases request with
  | ofKind kind => exact ⟨rfl, rfl⟩
  | explicit metadata => exact ⟨rfl, hn metadata rfl⟩

/-- The registry in which nothing is registered agrees. -/
theorem agreeing_empty : Agreeing empty where
  kind_eq hl _ := by contradiction
  name_eq hm := by contradiction

/-- A sweep leaves agreeing instruments agreeing. -/
theorem Agreeing.sweep (ha : r.Agreeing) (p : Identity → Handle → Bool) : (r.sweep p).Agreeing := by
  have hkept {name : String} {m : Metadata} (hm : (r.sweep p).metadataFor? name = some m) :
      r.metadataFor? name = some m := by
    rw [metadataFor?_sweep] at hm
    split at hm
    · exact hm
    · contradiction
  exact {
    kind_eq := fun hl hm => ha.kind_eq (instrument?_sweep_eq_some_iff.mp hl).1 (hkept hm)
    name_eq := fun hm => ha.name_eq (hkept hm) }

/-- A new instrument of the kind that an accepted request asks for agrees with the metadata. -/
theorem Agreeing.withInstrument (hc : r.Coherent) (ha : r.Agreeing) {request : Request}
    (haccept : r.Accepts id request) (hk : h.kind = request.kind)
    (hn : ∀ metadata, request = .explicit metadata → metadata.name = id.name) :
    (r.withInstrument id request h).Agreeing := by
  obtain ⟨hkind, hname⟩ := metadataFor_agrees hn
  -- The metadata of the identity's name, stored before or now, has the requested kind.
  have hstored {m : Metadata}
      (hm : some ((r.metadataFor? id.name).getD (request.metadataFor id.name)) = some m) :
      m.kind = request.kind ∧ m.name = id.name := by
    obtain rfl := Option.some.inj hm
    cases hs : r.metadataFor? id.name with
    | none => exact ⟨hkind, hname⟩
    | some stored => exact ⟨(haccept.of_metadataFor? hs).1, ha.name_eq hs⟩
  refine ⟨fun {i x m} hl hm => ?_, fun {name m} hm => ?_⟩
  · rw [instrument?_withInstrument] at hl
    rw [metadataFor?_withInstrument] at hm
    split at hl
    · rename_i hi
      subst hi
      obtain rfl := Option.some.inj hl
      rw [if_pos rfl] at hm
      rw [hk, (hstored hm).1]
    · split at hm
      · rename_i hname
        rw [hname] at hm
        -- Another live instrument of the name means that its metadata was stored before.
        cases hs : r.metadataFor? id.name with
        | none =>
          rw [hc.instrument?_eq_none (hname ▸ hs)] at hl
          contradiction
        | some stored =>
          rw [hs] at hm
          obtain rfl := Option.some.inj hm
          exact ha.kind_eq hl (hname ▸ hs)
      · exact ha.kind_eq hl hm
  · rw [metadataFor?_withInstrument] at hm
    split at hm
    · rename_i hname
      subst hname
      exact (hstored hm).2
    · exact ha.name_eq hm

/-- Every honest operation leaves a registry agreeing. -/
theorem Agreeing.run (hc : r.Coherent) (ha : r.Agreeing) {op : Operation σ} (hop : op.Honest)
    (s : σ) : (op.run r s).1.Agreeing := by
  cases op with
  | register g =>
    change (g.run r s).registry.Agreeing
    obtain ⟨e, ho⟩ | ⟨p, live, -, -, -, ho⟩ | ⟨p, hp, haccept, -, ho⟩ := hc.run_cases g s
    · rw [ho]
      exact ha
    · rw [ho]
      exact ha
    · rw [ho]
      obtain ⟨hkind, hname⟩ := Registration.Honest.of_proposal hop hp
      exact ha.withInstrument hc haccept (hkind s) hname
  | withdraw v =>
    change (v.run r).Agreeing
    rw [hc.run_eq_sweep]
    exact ha.sweep _

/-- Honestly reachable registries agree. -/
theorem HonestlyReachable.agreeing (hr : HonestlyReachable r) : r.Agreeing := by
  induction hr with
  | empty => exact agreeing_empty
  | step hr op hop s ih => exact ih.run hr.reachable.coherent hop s

end Telemetry.Registry
