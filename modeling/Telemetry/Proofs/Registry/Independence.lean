import Telemetry.Proofs.Registry.Removal
import Telemetry.Proofs.Related

/-!
# Names are independent

All names share two tables and one order, and removal looks through every identity for another
instrument of the name. Yet an operation that is addressed to a name sees and changes only what the
registry has of this name: it is answered alike in registries that have the same of the name, and
leaves every other name as it was. So operations on different names can change places.

What may differ then is which of them a shared factory serves first. Results are therefore compared up
to a relation between instruments that the caller chooses; equality will do where instruments were made
before.
-/

namespace Telemetry.Registry

/-- An operation that is addressed to a name: a registration under it, the removal of one of its
identities, or its own removal. -/
inductive Addressed (σ : Type) where
  | register (g : Registration σ)
  | remove (id : Identity)
  | removeByName (name : String)

/-- What an addressed operation is answered with. -/
inductive Reply where
  | registered (answer : Except RegistrationError Handle)
  | removed (found : Bool)

/-- A reply, with the registry and the factories' state after the operation. -/
structure Replied (σ : Type) where
  reply : Reply
  registry : Registry
  state : σ

variable {σ : Type}

namespace Addressed

/-- The name that an operation is addressed to. -/
def name : Addressed σ → String
  | .register g => g.identity.name
  | .remove id => id.name
  | .removeByName name => name

/-- Carry out an addressed operation. -/
def run (a : Addressed σ) (r : Registry) (s : σ) : Replied σ :=
  match a with
  | .register g =>
    let o := g.run r s
    ⟨.registered o.answer, o.registry, o.state⟩
  | .remove id =>
    let (found, r) := r.remove id
    ⟨.removed found, r, s⟩
  | .removeByName name =>
    let (found, r) := r.removeByName name
    ⟨.removed found, r, s⟩

/-- Carry out an addressed operation after another. -/
def next (b : Addressed σ) (o : Replied σ) : Replied σ := b.run o.registry o.state

/-- An addressed operation among all operations. -/
def operation : Addressed σ → Operation σ
  | .register g => .register g
  | .remove id => .withdraw (.one id)
  | .removeByName name => .withdraw (.named name)

/-- The factory of a registration, if the operation is one, makes related instruments from two
states. -/
def MakesAlike (E : Handle → Handle → Prop) (a : Addressed σ) (s s' : σ) : Prop :=
  match a with
  | .register g => ∀ p, g.proposal = .ok p → E (p.factory s).1 (p.factory s').1
  | _ => True

end Addressed

/-- Replies that differ at most in related instruments. -/
inductive Reply.SameUpTo (E : Handle → Handle → Prop) : Reply → Reply → Prop
  | refused (e : RegistrationError) : SameUpTo E (.registered (.error e)) (.registered (.error e))
  | registered {h h' : Handle} (hE : E h h') :
      SameUpTo E (.registered (.ok h)) (.registered (.ok h'))
  | removed (found : Bool) : SameUpTo E (.removed found) (.removed found)

/-- Registries that have the same metadata of a name, and related instruments of it. -/
structure SameOf (E : Handle → Handle → Prop) (name : String) (r r' : Registry) : Prop where
  metadata : r'.metadataFor? name = r.metadataFor? name
  instruments : ∀ id, id.name = name → Option.Rel E (r.instrument? id) (r'.instrument? id)

variable {E : Handle → Handle → Prop} {r r' u : Registry} {id : Identity} {name : String}

section SameOf

/-- The instruments of a name are found by their identities. -/
theorem get?_instrumentsNamed (r : Registry) (name : String) (id : Identity) :
    (r.instrumentsNamed name).get? id = if id.name = name then r.instrument? id else none := by
  rw [instrumentsNamed, Table.get?_filter]
  change Option.filter _ (r.instrument? id) = _
  by_cases hn : id.name = name
  · cases r.instrument? id <;> simp [hn]
  · cases r.instrument? id <;> simp [hn]

/-- Registries have the same of a name when they have the same metadata and list the same
instruments. -/
theorem sameOf_eq_iff :
    SameOf (· = ·) name r r' ↔
      r'.metadataFor? name = r.metadataFor? name ∧
        r'.instrumentsNamed name = r.instrumentsNamed name := by
  constructor
  · intro h
    refine ⟨h.metadata, Table.ext_get? fun id => ?_⟩
    rw [get?_instrumentsNamed, get?_instrumentsNamed]
    split
    · rename_i hn
      exact (Related.rel_eq_iff.mp (h.instruments id hn)).symm
    · rfl
  · rintro ⟨hm, hi⟩
    refine ⟨hm, fun id hn => Related.rel_eq_iff.mpr (.symm ?_)⟩
    have hget := congrArg (Table.get? · id) hi
    simpa only [get?_instrumentsNamed, if_pos hn] using hget

/-- What is found in one of two registries that have the same of a name is found in the other. -/
theorem SameOf.instrument?_eq (h : SameOf (· = ·) name r r') (hn : id.name = name) :
    r'.instrument? id = r.instrument? id :=
  (Related.rel_eq_iff.mp (h.instruments id hn)).symm

/-- What is the same is related. -/
theorem SameOf.of_eq (h : SameOf (· = ·) name r r') (hE : ∀ h, E h h) : SameOf E name r r' where
  metadata := h.metadata
  instruments _ hn := h.instrument?_eq hn ▸ Related.rel_refl hE _

/-- What is related to the same is related. -/
theorem SameOf.trans_eq (h : SameOf E name r r') (h' : SameOf (· = ·) name r' u) :
    SameOf E name r u where
  metadata := h'.metadata.trans h.metadata
  instruments id hn := by
    rw [h'.instrument?_eq hn]
    exact h.instruments id hn

/-- The same is related to what it is related to. -/
theorem SameOf.eq_trans (h : SameOf (· = ·) name r r') (h' : SameOf E name r' u) :
    SameOf E name r u where
  metadata := h'.metadata.trans h.metadata
  instruments id hn := by
    rw [← h.instrument?_eq hn]
    exact h'.instruments id hn

/-- It does not matter which of two registries is the first. -/
theorem SameOf.symm (h : SameOf (· = ·) name r r') : SameOf (· = ·) name r' r where
  metadata := h.metadata.symm
  instruments _ hn := Related.rel_eq_iff.mpr (h.instrument?_eq hn)

/-- A name is live in both of two registries that have the same of it, or in none. -/
theorem SameOf.hasName_eq (h : SameOf (· = ·) name r r') : r'.hasName name = r.hasName name := by
  rw [Bool.eq_iff_iff, hasName_iff_instrument?, hasName_iff_instrument?]
  constructor
  · rintro ⟨id, x, hl, hn⟩
    exact ⟨id, x, h.instrument?_eq hn ▸ hl, hn⟩
  · rintro ⟨id, x, hl, hn⟩
    exact ⟨id, x, (h.instrument?_eq hn).trans hl, hn⟩

/-- A sweep leaves the same of a name in registries that have the same of it. -/
theorem SameOf.sweep (h : SameOf (· = ·) name r r') (p : Identity → Handle → Bool) :
    SameOf (· = ·) name (r.sweep p) (r'.sweep p) := by
  have hi (id : Identity) (hn : id.name = name) :
      (r'.sweep p).instrument? id = (r.sweep p).instrument? id := by
    rw [instrument?_sweep, instrument?_sweep, h.instrument?_eq hn]
  have hlive : (r'.sweep p).hasName name = (r.sweep p).hasName name := by
    rw [Bool.eq_iff_iff, hasName_iff_instrument?, hasName_iff_instrument?]
    constructor
    · rintro ⟨id, x, hl, hn⟩
      exact ⟨id, x, hi id hn ▸ hl, hn⟩
    · rintro ⟨id, x, hl, hn⟩
      exact ⟨id, x, (hi id hn).trans hl, hn⟩
  refine ⟨?_, fun _ hn => Related.rel_eq_iff.mpr (hi _ hn).symm⟩
  rw [metadataFor?_sweep, metadataFor?_sweep, hlive, h.metadata]

/-- Registering related instruments leaves related ones. -/
theorem SameOf.withInstrument (h : SameOf (· = ·) id.name r r') (hE : ∀ h, E h h)
    (request : Request) {x x' : Handle} (hx : E x x') :
    SameOf E id.name (r.withInstrument id request x) (r'.withInstrument id request x') := by
  refine ⟨?_, fun i hn => ?_⟩
  · rw [metadataFor?_withInstrument, metadataFor?_withInstrument, h.metadata]
  · rw [instrument?_withInstrument, instrument?_withInstrument]
    split
    · exact .some hx
    · rw [h.instrument?_eq hn]
      exact Related.rel_refl hE _

/-- Registering an instrument leaves the other names as they were. -/
theorem sameOf_withInstrument_of_ne (hne : name ≠ id.name) (r : Registry) (request : Request)
    (h : Handle) : SameOf (· = ·) name r (r.withInstrument id request h) := by
  refine ⟨?_, fun i hn => Related.rel_eq_iff.mpr ?_⟩
  · rw [metadataFor?_withInstrument, if_neg hne]
  · have hi : i ≠ id := fun heq => hne (heq ▸ hn.symm)
    rw [instrument?_withInstrument, if_neg hi]

/-- A sweep leaves a name none of whose instruments it meets as it was. -/
theorem Coherent.sameOf_sweep_of_not (hc : r.Coherent) {p : Identity → Handle → Bool}
    (hp : ∀ id h, id.name = name → p id h = false) : SameOf (· = ·) name r (r.sweep p) := by
  have hi (id : Identity) (hn : id.name = name) :
      (r.sweep p).instrument? id = r.instrument? id := by
    rw [instrument?_sweep]
    cases r.instrument? id with
    | none => rfl
    | some h => rw [Option.filter_some, hp id h hn]; rfl
  refine ⟨?_, fun _ hn => Related.rel_eq_iff.mpr (hi _ hn).symm⟩
  rw [metadataFor?_sweep]
  split
  · rfl
  · rename_i hdead
    refine (hc.metadataFor?_eq_none (Bool.eq_false_iff.mpr fun hlive => hdead ?_)).symm
    obtain ⟨id, h, hl, hn⟩ := hasName_iff_instrument?.mp hlive
    exact hasName_iff_instrument?.mpr ⟨id, h, (hi id hn).trans hl, hn⟩

end SameOf

section Fate

variable {s s' : σ}

/-- In registries that have the same of its name a request meets with the same fate: both are answered
alike and changed in nothing, or what the factory makes is registered in both. -/
theorem Coherent.getOrCreate_sameOf (hc : r.Coherent) (hc' : r'.Coherent)
    (h : SameOf (· = ·) id.name r r') (request : Request) (factory : σ → Handle × σ) (s s' : σ) :
    (∃ answer, r.getOrCreate id request factory s = ⟨answer, r, s⟩ ∧
      r'.getOrCreate id request factory s' = ⟨answer, r', s'⟩) ∨
    (r.getOrCreate id request factory s =
        ⟨.ok (factory s).1, r.withInstrument id request (factory s).1, (factory s).2⟩ ∧
      r'.getOrCreate id request factory s' =
        ⟨.ok (factory s').1, r'.withInstrument id request (factory s').1, (factory s').2⟩) := by
  have hl' : r'.instrument? id = r.instrument? id := h.instrument?_eq rfl
  have hm' : r'.metadataFor? id.name = r.metadataFor? id.name := h.metadata
  cases hm : r.metadataFor? id.name with
  | none =>
    rw [hm] at hm'
    exact .inr ⟨getOrCreate_of_unknown hm (hc.instrument?_eq_none hm) request factory s,
      getOrCreate_of_unknown hm' (hc'.instrument?_eq_none hm') request factory s'⟩
  | some stored =>
    rw [hm] at hm'
    by_cases hk : stored.kind = request.kind
    · cases hf : request.conflict? stored with
      | some conflict =>
        refine .inl ⟨.error (.metadataConflict id.name conflict), ?_⟩
        simp [getOrCreate, hm, hm', hk, hf]
      | none =>
        have hget {u : Registry} (hu : u.metadataFor? id.name = some stored) (t : σ) :
            u.getOrCreate id request factory t =
              u.enroll id request.kind stored.reusable factory t := by
          simp [getOrCreate, hu, hk, hf]
        rw [hget hm, hget hm']
        cases hl : r.instrument? id with
        | none =>
          rw [hl] at hl'
          refine .inr ⟨?_, ?_⟩
          · simp only [enroll, hl, Registry.withInstrument, hm]
          · simp only [enroll, hl', Registry.withInstrument, hm']
        | some live =>
          rw [hl] at hl'
          left
          simp only [enroll, hl, hl']
          split
          · exact ⟨_, rfl, rfl⟩
          · exact ⟨_, rfl, rfl⟩
    · exact .inl ⟨_, getOrCreate_of_kind_ne hm hk factory s,
        getOrCreate_of_kind_ne hm' hk factory s'⟩

/-- So does a registration. -/
theorem Coherent.run_sameOf (hc : r.Coherent) (hc' : r'.Coherent) (g : Registration σ)
    (h : SameOf (· = ·) g.identity.name r r') (s s' : σ) :
    (∃ answer, g.run r s = ⟨answer, r, s⟩ ∧ g.run r' s' = ⟨answer, r', s'⟩) ∨
    ∃ p, g.proposal = .ok p ∧
      g.run r s = ⟨.ok (p.factory s).1, r.withInstrument g.identity p.request (p.factory s).1,
        (p.factory s).2⟩ ∧
      g.run r' s' = ⟨.ok (p.factory s').1,
        r'.withInstrument g.identity p.request (p.factory s').1, (p.factory s').2⟩ := by
  rw [g.run_eq_consider, g.run_eq_consider]
  cases hp : g.proposal with
  | error e => exact .inl ⟨.error e, rfl, rfl⟩
  | ok p =>
    exact (hc.getOrCreate_sameOf hc' h p.request p.factory s s').imp_right fun hnew => ⟨p, rfl, hnew⟩

end Fate

namespace Addressed

variable {a b : Addressed σ} {s s' : σ}

/-- What an addressed operation does to a registry is what the operation does. -/
theorem registry_run (a : Addressed σ) (r : Registry) (s : σ) :
    (a.run r s).registry = (a.operation.run r s).1 := by
  cases a <;> rfl

/-- An addressed operation keeps a registry coherent. -/
theorem coherent_run (hc : r.Coherent) (a : Addressed σ) (s : σ) :
    (a.run r s).registry.Coherent := by
  rw [registry_run]
  exact hc.run a.operation s

/-- An addressed operation leaves the other names as they were. -/
theorem sameOf_run_of_ne (hc : r.Coherent) (hne : name ≠ a.name) (s : σ) :
    SameOf (· = ·) name r (a.run r s).registry := by
  cases a with
  | register g =>
    change SameOf _ name r (g.run r s).registry
    obtain ho | ⟨p, -, ho, -⟩ :=
      hc.run_sameOf hc g ⟨rfl, fun _ _ => Related.rel_eq_iff.mpr rfl⟩ s s
    · obtain ⟨answer, ho, -⟩ := ho
      rw [ho]
      exact ⟨rfl, fun _ _ => Related.rel_eq_iff.mpr rfl⟩
    · rw [ho]
      exact sameOf_withInstrument_of_ne hne r p.request _
  | remove id =>
    change SameOf _ name r (r.remove id).2
    rw [hc.remove_eq_sweep]
    apply hc.sameOf_sweep_of_not
    intro i _ hn
    have hi : i ≠ id := fun heq => hne (heq ▸ hn.symm)
    exact beq_eq_false_iff_ne.mpr hi
  | removeByName n =>
    change SameOf _ name r (r.removeByName n).2
    rw [hc.removeByName_eq_sweep]
    apply hc.sameOf_sweep_of_not
    intro i _ hn
    exact beq_eq_false_iff_ne.mpr (hn ▸ hne)

/-- In registries that have the same of its name an addressed operation has the same reply, and leaves
the same of the name, up to the instruments that factories make. -/
theorem run_sameOf (hc : r.Coherent) (hc' : r'.Coherent) (h : SameOf (· = ·) a.name r r')
    (hE : ∀ h, E h h) (hmakes : a.MakesAlike E s s') :
    (a.run r s).reply.SameUpTo E (a.run r' s').reply ∧
      SameOf E a.name (a.run r s).registry (a.run r' s').registry := by
  cases a with
  | register g =>
    change Reply.SameUpTo E (.registered (g.run r s).answer) (.registered (g.run r' s').answer) ∧
      SameOf E g.identity.name (g.run r s).registry (g.run r' s').registry
    obtain ⟨answer, ho, ho'⟩ | ⟨p, hp, ho, ho'⟩ := hc.run_sameOf hc' g h s s'
    · rw [ho, ho']
      refine ⟨?_, h.of_eq hE⟩
      cases answer with
      | error e => exact .refused e
      | ok live => exact .registered (hE live)
    · rw [ho, ho']
      exact ⟨.registered (hmakes p hp), h.withInstrument hE p.request (hmakes p hp)⟩
  | remove id =>
    have hfound : (r'.remove id).1 = (r.remove id).1 := by
      rw [fst_remove, fst_remove, Bool.eq_iff_iff, contains_instruments_iff,
        contains_instruments_iff, h.instrument?_eq rfl]
    have hsweep := (h.sweep fun i _ => i == id).of_eq hE
    rw [← hc.remove_eq_sweep, ← hc'.remove_eq_sweep] at hsweep
    refine ⟨?_, hsweep⟩
    change Reply.SameUpTo E (.removed (r.remove id).1) (.removed (r'.remove id).1)
    rw [hfound]
    exact .removed _
  | removeByName n =>
    have hfound : (r'.removeByName n).1 = (r.removeByName n).1 := by
      have hname : r'.hasName n = r.hasName n := h.hasName_eq
      change (r'.hasName n || r'.metadata.contains n) = (r.hasName n || r.metadata.contains n)
      rw [hc n, hc' n, hname]
    have hsweep := (h.sweep fun id _ => id.name == n).of_eq hE
    rw [← hc.removeByName_eq_sweep, ← hc'.removeByName_eq_sweep] at hsweep
    refine ⟨?_, hsweep⟩
    change Reply.SameUpTo E (.removed (r.removeByName n).1) (.removed (r'.removeByName n).1)
    rw [hfound]
    exact .removed _

/-- In registries that have the same of its name an addressed operation runs the same factories. -/
theorem state_run_of_sameOf (hc : r.Coherent) (hc' : r'.Coherent)
    (h : SameOf (· = ·) a.name r r') (s : σ) : (a.run r' s).state = (a.run r s).state := by
  cases a with
  | register g =>
    change (g.run r' s).state = (g.run r s).state
    obtain ⟨answer, ho, ho'⟩ | ⟨p, -, ho, ho'⟩ := hc.run_sameOf hc' g h s s
    · rw [ho, ho']
    · rw [ho, ho']
  | remove id => rfl
  | removeByName n => rfl

/-- Every operation makes the same in the same state. -/
theorem makesAlike_self (a : Addressed σ) (s : σ) : a.MakesAlike (· = ·) s s := by
  cases a with
  | register g => exact fun _ _ => rfl
  | remove id => exact trivial
  | removeByName n => exact trivial

/-- Operations on different names, in either order, have the same replies, up to the instruments that
factories make. -/
theorem replies_next (hc : r.Coherent) (hne : b.name ≠ a.name) (hE : ∀ h, E h h) {s : σ}
    (ha : a.MakesAlike E s (b.run r s).state) (hb : b.MakesAlike E (a.run r s).state s) :
    (a.run r s).reply.SameUpTo E (a.next (b.run r s)).reply ∧
      (b.next (a.run r s)).reply.SameUpTo E (b.run r s).reply := by
  constructor
  · exact (run_sameOf hc (coherent_run hc b s) (sameOf_run_of_ne hc hne.symm s) hE ha).1
  · exact (run_sameOf (coherent_run hc a s) hc (sameOf_run_of_ne hc hne s).symm hE hb).1

/-- Operations on different names, in either order, leave the same of each name, up to the instruments
that factories make. -/
theorem sameOf_next (hc : r.Coherent) (hne : b.name ≠ a.name) (hE : ∀ h, E h h) {s : σ}
    (ha : a.MakesAlike E s (b.run r s).state) (hb : b.MakesAlike E (a.run r s).state s)
    (name : String) :
    SameOf E name (b.next (a.run r s)).registry (a.next (b.run r s)).registry := by
  have hca : (a.run r s).registry.Coherent := coherent_run hc a s
  have hcb : (b.run r s).registry.Coherent := coherent_run hc b s
  -- What the second operation leaves of a name that it is not addressed to is what it found.
  have hafter (hn : name ≠ b.name) :
      SameOf (· = ·) name (b.next (a.run r s)).registry (a.run r s).registry :=
    (sameOf_run_of_ne hca hn _).symm
  have hafter' (hn : name ≠ a.name) :
      SameOf (· = ·) name (b.run r s).registry (a.next (b.run r s)).registry :=
    sameOf_run_of_ne hcb hn _
  by_cases hna : name = a.name
  · subst hna
    exact (hafter hne.symm).eq_trans
      (run_sameOf hc hcb (sameOf_run_of_ne hc hne.symm s) hE ha).2
  · by_cases hnb : name = b.name
    · subst hnb
      exact (run_sameOf hca hc (sameOf_run_of_ne hc hne s).symm hE hb).2.trans_eq (hafter' hne)
    · have hfirst : SameOf (· = ·) name (a.run r s).registry (b.run r s).registry :=
        (sameOf_run_of_ne hc hna s).symm.trans_eq (sameOf_run_of_ne hc hnb s)
      exact ((hafter hnb).trans_eq (hfirst.trans_eq (hafter' hna))).of_eq hE

end Addressed

/-- Replies that are the same up to equality are equal. -/
theorem Reply.eq_of_sameUpTo {x y : Reply} (h : x.SameUpTo (· = ·) y) : y = x := by
  cases h with
  | refused e => rfl
  | registered hE => rw [hE]
  | removed found => rfl

/-- An operation that is addressed to a name has the same reply, runs the same factories and leaves
the same of its name in all registries that have the same metadata and instruments of the name, and it
leaves the metadata and the instruments of every other name as they were. Operations that are addressed
to different names have the same replies in either order, and leave the same metadata and the same
identities, up to the instruments that their factories make. -/
theorem names_independent (hr : r.Reachable) (a : Addressed σ) (s : σ) :
    (∀ r' : Registry, r'.Reachable → r'.metadataFor? a.name = r.metadataFor? a.name →
      r'.instrumentsNamed a.name = r.instrumentsNamed a.name →
      (a.run r' s).reply = (a.run r s).reply ∧ (a.run r' s).state = (a.run r s).state ∧
        (a.run r' s).registry.metadataFor? a.name = (a.run r s).registry.metadataFor? a.name ∧
        (a.run r' s).registry.instrumentsNamed a.name =
          (a.run r s).registry.instrumentsNamed a.name) ∧
    (∀ name, name ≠ a.name →
      (a.run r s).registry.metadataFor? name = r.metadataFor? name ∧
        (a.run r s).registry.instrumentsNamed name = r.instrumentsNamed name) ∧
    ∀ b : Addressed σ, b.name ≠ a.name → ∀ E : Handle → Handle → Prop, (∀ h, E h h) →
      a.MakesAlike E s (b.run r s).state → b.MakesAlike E (a.run r s).state s →
        (a.run r s).reply.SameUpTo E (a.next (b.run r s)).reply ∧
        (b.next (a.run r s)).reply.SameUpTo E (b.run r s).reply ∧
        (a.next (b.run r s)).registry.metadata = (b.next (a.run r s)).registry.metadata ∧
        ∀ id, Option.Rel E ((b.next (a.run r s)).registry.instrument? id)
          ((a.next (b.run r s)).registry.instrument? id) := by
  have hc : r.Coherent := hr.coherent
  refine ⟨?_, ?_, ?_⟩
  · intro r' hr' hm hi
    have hsame : SameOf (· = ·) a.name r r' := sameOf_eq_iff.mpr ⟨hm, hi⟩
    obtain ⟨hreply, hafter⟩ := Addressed.run_sameOf hc hr'.coherent hsame (fun _ => rfl)
      (a.makesAlike_self s)
    exact ⟨Reply.eq_of_sameUpTo hreply, Addressed.state_run_of_sameOf hc hr'.coherent hsame s,
      sameOf_eq_iff.mp hafter⟩
  · intro name hne
    exact sameOf_eq_iff.mp (Addressed.sameOf_run_of_ne hc hne s)
  · intro b hne E hE ha hb
    obtain ⟨hfirst, hsecond⟩ := Addressed.replies_next hc hne hE ha hb
    have hsame := Addressed.sameOf_next hc hne hE ha hb
    refine ⟨hfirst, hsecond, ?_, ?_⟩
    · apply Table.ext_get?
      intro name
      exact (hsame name).metadata
    · intro id
      exact (hsame id.name).instruments id rfl

/-- The registration of jobs in another queue sees nothing of a name that begins like theirs. With the
factory of both counters the two registrations change places up to serial numbers. -/
theorem names_independent_jobs :
    let a : Addressed Nat := .register (jobsOf "low")
    let b : Addressed Nat := .register (.instrument .counter (.name "job") [] countingFactory)
    let E : Handle → Handle → Prop := fun h h' => h.kind = h'.kind
    oneQueue.Reachable ∧ (b.run oneQueue 1).registry.Reachable ∧ b.name ≠ a.name ∧
      (a.run (b.run oneQueue 1).registry 1).reply = (a.run oneQueue 1).reply ∧
      (b.run oneQueue 1).registry.instrumentsNamed "jobs" = oneQueue.instrumentsNamed "jobs" ∧
      a.MakesAlike E 1 (b.run oneQueue 1).state ∧ b.MakesAlike E (a.run oneQueue 1).state 1 ∧
      (a.next (b.run oneQueue 1)).registry.metadata =
        (b.next (a.run oneQueue 1)).registry.metadata := by
  intro a b E
  have hreachable : (b.run oneQueue 1).registry.Reachable := by
    rw [Addressed.registry_run]
    exact oneQueue_reachable.step _ 1
  have hne : b.name ≠ a.name := by decide
  have ha : a.MakesAlike E 1 (b.run oneQueue 1).state := by
    intro p hp
    obtain rfl := Except.ok.inj hp
    rfl
  have hb : b.MakesAlike E (a.run oneQueue 1).state 1 := by
    intro p hp
    obtain rfl := Except.ok.inj hp
    rfl
  obtain ⟨-, hframe, -⟩ := names_independent oneQueue_reachable b 1
  obtain ⟨hm, hi⟩ := hframe "jobs" (by decide)
  obtain ⟨hlocal, -, hcommute⟩ := names_independent oneQueue_reachable a 1
  obtain ⟨hreply, -⟩ := hlocal (b.run oneQueue 1).registry hreachable hm hi
  obtain ⟨-, -, hmetadata, -⟩ := hcommute b hne E (fun _ => rfl) ha hb
  exact ⟨oneQueue_reachable, hreachable, hne, hreply, hi, ha, hb, hmetadata⟩

end Telemetry.Registry
