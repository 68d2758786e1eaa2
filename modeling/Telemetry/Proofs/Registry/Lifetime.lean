import Telemetry.World.Recording
import Telemetry.Proofs.Registry.Consistency

/-!
# From creation to removal

A run is looked at moment by moment. The life of a name starts with the operation that registers its
first instrument and ends with the removal of its last one; the life of an instrument starts with its
registration and ends with its removal. During these lives the metadata and the instrument stay what
they were at the start, whatever else is registered, refused or removed in between.

A life is the part of a history before the removal that ends it, so the statements need no
assumption about the operations of a run.
-/

namespace Telemetry.Registry

/-- An operation of a run, with the registry and the factories' state that it meets. -/
structure Moment (σ : Type) where
  operation : Operation σ
  before : Registry
  state : σ

/-- Whether an operation is a removal. -/
def Operation.isWithdrawal {σ : Type} : Operation σ → Bool
  | .register _ => false
  | .withdraw _ => true

variable {σ : Type} {r : Registry} {id : Identity} {name : String} {h : Handle}

namespace Moment

/-- The registry after the operation. -/
def after (m : Moment σ) : Registry := (m.operation.run m.before m.state).1

/-- The factories' state after the operation. -/
def stateAfter (m : Moment σ) : σ := (m.operation.run m.before m.state).2

/-- What a registration of the identity is answered with, if this is one and it succeeds. -/
def grant? (m : Moment σ) (id : Identity) : Option Handle :=
  match m.operation with
  | .register g => if g.identity = id then (g.run m.before m.state).answer.toOption else none
  | .withdraw _ => none

/-- Whether the operation makes the name live. -/
def wakes (m : Moment σ) (name : String) : Bool := !m.before.hasName name && m.after.hasName name

/-- Whether the operation is a removal of the last instrument of the name. -/
def silences (m : Moment σ) (name : String) : Bool :=
  m.operation.isWithdrawal && m.before.hasName name && !m.after.hasName name

/-- Whether the operation creates the instrument of the identity. -/
def creates (m : Moment σ) (id : Identity) : Bool :=
  !m.before.instruments.contains id && m.after.instruments.contains id

/-- Whether the operation is a removal of the instrument of the identity. -/
def removes (m : Moment σ) (id : Identity) : Bool :=
  m.operation.isWithdrawal && m.before.instruments.contains id && !m.after.instruments.contains id

end Moment

/-- The moments of a run, in order. -/
def history (r : Registry) (s : σ) : List (Operation σ) → List (Moment σ)
  | [] => []
  | op :: rest =>
    let m : Moment σ := ⟨op, r, s⟩
    m :: history m.after m.stateAfter rest

/-- The moments of a run from one of them on, until one that ends the life that it began. -/
def life (ends : Moment σ → Bool) (birth : Moment σ) (rest : List (Operation σ)) :
    List (Moment σ) :=
  birth :: (history birth.after birth.stateAfter rest).takeWhile fun m => !ends m

namespace Moment

variable {m : Moment σ}

/-- What an operation does to a coherent registry: nothing, or a new instrument is registered and
answered with, or a sweep. -/
theorem after_cases (hc : m.before.Coherent) :
    (m.after = m.before) ∨
    (∃ g p h, m.operation = .register g ∧ g.proposal = .ok p ∧
      m.before.instrument? g.identity = none ∧ m.grant? g.identity = some h ∧
      m.after = m.before.withInstrument g.identity p.request h) ∨
    (∃ v, m.operation = .withdraw v ∧ m.after = m.before.sweep v.targets) := by
  obtain ⟨op, r, s⟩ := m
  cases op with
  | register g =>
    obtain ⟨e, ho⟩ | ⟨p, live, -, -, -, ho⟩ | ⟨p, hp, -, hl, ho⟩ := hc.run_cases g s
    · exact .inl (congrArg Registered.registry ho)
    · exact .inl (congrArg Registered.registry ho)
    · refine .inr (.inl ⟨g, p, (p.factory s).1, rfl, hp, hl, ?_, congrArg Registered.registry ho⟩)
      simp [grant?, ho, Except.toOption]
  | withdraw v => exact .inr (.inr ⟨v, rfl, hc.run_eq_sweep v⟩)

/-- Metadata stays as it is unless the last instrument of its name is removed. -/
theorem metadataFor?_after (hc : m.before.Coherent) {stored : Metadata}
    (hs : m.before.metadataFor? name = some stored) (hstop : m.silences name = false) :
    m.after.metadataFor? name = some stored := by
  obtain ho | ⟨g, p, h, -, -, -, -, ho⟩ | ⟨v, hv, ho⟩ := after_cases hc
  · rw [ho, hs]
  · rw [ho, metadataFor?_withInstrument, hs]
    split <;> rfl
  · have hlive : m.before.hasName name = true := hc.hasName_iff_metadataFor?.mpr ⟨stored, hs⟩
    have hleft : m.after.hasName name = true := by
      simpa [silences, hv, Operation.isWithdrawal, hlive] using hstop
    rw [ho] at hleft ⊢
    rw [metadataFor?_sweep, if_pos hleft, hs]

/-- An instrument stays registered until it is removed. -/
theorem instrument?_after (hc : m.before.Coherent) (hl : m.before.instrument? id = some h)
    (hstop : m.removes id = false) : m.after.instrument? id = some h := by
  obtain ho | ⟨g, p, x, -, -, hnone, -, ho⟩ | ⟨v, hv, ho⟩ := after_cases hc
  · rw [ho, hl]
  · have hne : id ≠ g.identity := by
      rintro rfl
      rw [hl] at hnone
      contradiction
    rw [ho, instrument?_withInstrument, if_neg hne, hl]
  · have hlive : m.before.instruments.contains id = true := contains_instruments_iff.mpr ⟨h, hl⟩
    have hleft : m.after.instruments.contains id = true := by
      simpa [removes, hv, Operation.isWithdrawal, hlive] using hstop
    obtain ⟨x, hx⟩ := contains_instruments_iff.mp hleft
    rw [ho] at hx ⊢
    obtain ⟨hx', -⟩ := instrument?_sweep_eq_some_iff.mp hx
    obtain rfl := Option.some.inj (hl.symm.trans hx')
    exact hx

/-- A registration of a live identity is answered with the live instrument, and succeeds only where
instruments may be shared. -/
theorem grant?_of_live (hc : m.before.Coherent) {stored : Metadata} {x : Handle}
    (hs : m.before.metadataFor? id.name = some stored) (hl : m.before.instrument? id = some h)
    (hg : m.grant? id = some x) :
    x = h ∧ stored.reusable = true ∧ stored.kind ≠ .gauge ∧ h.kind ≠ .gauge := by
  obtain ⟨op, r, s⟩ := m
  cases op with
  | withdraw v => contradiction
  | register g =>
    simp only [grant?] at hg
    split at hg
    · rename_i hid
      subst hid
      obtain ⟨e, ho⟩ | ⟨p, live, -, ha, hlive, ho⟩ | ⟨p, -, -, hnone, -⟩ := hc.run_cases g s
      · rw [ho] at hg
        contradiction
      · obtain rfl := Option.some.inj (hl.symm.trans hlive)
        rw [ho] at hg
        obtain ⟨hk, -, hshare⟩ := ha.of_metadataFor? hs
        obtain ⟨hreuse, hkind, hgauge⟩ := hshare h hl
        exact ⟨(Option.some.inj hg).symm, hreuse, hk ▸ hgauge, hkind ▸ hgauge⟩
      · rw [hl] at hnone
        contradiction
    · contradiction

/-- A name is made live by a registration, whose metadata is stored. -/
theorem metadataFor?_after_of_wakes (hc : m.before.Coherent) (hw : m.wakes name = true) :
    ∃ g p, m.operation = .register g ∧ g.proposal = .ok p ∧ g.identity.name = name ∧
      (∃ h, m.grant? g.identity = some h) ∧
      m.after.metadataFor? name = some (p.request.metadataFor name) := by
  simp only [wakes, Bool.and_eq_true, Bool.not_eq_true'] at hw
  obtain ⟨hdead, hlive⟩ := hw
  obtain ho | ⟨g, p, h, hop, hp, hl, hg, ho⟩ | ⟨v, -, ho⟩ := after_cases hc
  · rw [ho, hdead] at hlive
    contradiction
  · rw [ho, hasName_withInstrument_iff hl, hdead] at hlive
    obtain rfl | hfalse := hlive
    · refine ⟨g, p, hop, hp, rfl, ⟨h, hg⟩, ?_⟩
      rw [ho, metadataFor?_withInstrument, if_pos rfl, hc.metadataFor?_eq_none hdead]
      rfl
    · contradiction
  · rw [ho] at hlive
    rw [hasName_of_hasName_sweep hlive] at hdead
    contradiction

/-- An instrument is created by a registration of its identity, which is answered with it. -/
theorem grant?_of_creates (hc : m.before.Coherent) (hn : m.creates id = true) :
    ∃ h, m.grant? id = some h ∧ m.after.instrument? id = some h := by
  simp only [creates, Bool.and_eq_true, Bool.not_eq_true'] at hn
  obtain ⟨hdead, hlive⟩ := hn
  obtain ho | ⟨g, p, h, -, -, -, hg, ho⟩ | ⟨v, -, ho⟩ := after_cases hc
  · rw [ho, hdead] at hlive
    contradiction
  · by_cases hid : id = g.identity
    · subst hid
      refine ⟨h, hg, ?_⟩
      rw [ho, instrument?_withInstrument, if_pos rfl]
    · obtain ⟨x, hx⟩ := contains_instruments_iff.mp hlive
      rw [ho, instrument?_withInstrument, if_neg hid] at hx
      rw [contains_instruments_iff.mpr ⟨x, hx⟩] at hdead
      contradiction
  · obtain ⟨x, hx⟩ := contains_instruments_iff.mp hlive
    rw [ho] at hx
    rw [contains_instruments_iff.mpr ⟨x, (instrument?_sweep_eq_some_iff.mp hx).1⟩] at hdead
    contradiction

end Moment

/-- What every moment of a run keeps unless it ends a life holds until the life ends. -/
theorem holds_until {P : Registry → Prop} {ends : Moment σ → Bool}
    (hstep : ∀ m : Moment σ, m.before.Coherent → P m.before → ends m = false → P m.after)
    (hc : r.Coherent) (hP : P r) (s : σ) (ops : List (Operation σ)) :
    ∀ m ∈ (history r s ops).takeWhile fun m => !ends m,
      m.before.Coherent ∧ P m.before ∧ P m.after := by
  -- Before the life ends each moment hands coherence and the property on to the rest of the run.
  induction ops generalizing r s with
  | nil => simp [history]
  | cons op rest ih =>
    let first : Moment σ := ⟨op, r, s⟩
    intro m hm
    change m ∈ (first :: history first.after first.stateAfter rest).takeWhile _ at hm
    rw [List.takeWhile_cons] at hm
    split at hm
    · rename_i hends
      have hkeep : P first.after := hstep first hc hP (by simpa using hends)
      rcases List.mem_cons.mp hm with rfl | hm
      · exact ⟨hc, hP, hkeep⟩
      · exact ih (hc.run op s) hkeep _ m hm
    · contradiction

/-- Adding to a counter shows in its count. -/
theorem counter_increment (w : World) (serial : Nat) (n : UInt64)
    (hserial : serial < w.store.counters.size) :
    (w.increment serial n).store.counter serial = w.store.counter serial + n := by
  simp [World.increment, Store.setCounter, Store.counter, hserial]

section Life

variable {birth : Moment σ} {stored : Metadata}

/-- During the life of a name its metadata stays what it was at the start. -/
theorem metadataFor?_of_mem_life (hc : birth.before.Coherent)
    (hs : birth.after.metadataFor? name = some stored) (rest : List (Operation σ)) :
    ∀ m ∈ life (·.silences name) birth rest, m.after.metadataFor? name = some stored := by
  intro m hm
  rcases List.mem_cons.mp hm with rfl | hm
  · exact hs
  · have hkeep := holds_until (P := fun r => r.metadataFor? name = some stored)
      (fun _ hc hs hstop => Moment.metadataFor?_after hc hs hstop)
      (hc.run birth.operation birth.state) hs birth.stateAfter rest m hm
    exact hkeep.2.2

/-- After the creation of an instrument each later operation of its life finds it registered, with
the metadata that its name had at the start, and leaves it so. -/
theorem live_of_mem_later (hc : birth.before.Coherent)
    (hs : birth.after.metadataFor? id.name = some stored)
    (hl : birth.after.instrument? id = some h) (rest : List (Operation σ)) :
    ∀ m ∈ (history birth.after birth.stateAfter rest).takeWhile fun m => !m.removes id,
      m.before.Coherent ∧
        (m.before.instrument? id = some h ∧ m.before.metadataFor? id.name = some stored) ∧
        (m.after.instrument? id = some h ∧ m.after.metadataFor? id.name = some stored) := by
  refine holds_until
    (P := fun r => r.instrument? id = some h ∧ r.metadataFor? id.name = some stored)
    (fun m hc hP hstop => ?_) (hc.run birth.operation birth.state) ⟨hl, hs⟩ _ rest
  have hafter : m.after.instrument? id = some h := Moment.instrument?_after hc hP.1 hstop
  -- The name lives at least as long as the instrument.
  have hlive : m.silences id.name = false := by
    simp [Moment.silences, hasName_of_instrument? hafter]
  exact ⟨hafter, Moment.metadataFor?_after hc hP.2 hlive⟩

/-- During the life of an instrument a look-up finds it. -/
theorem instrument?_of_mem_life (hc : birth.before.Coherent)
    (hs : birth.after.metadataFor? id.name = some stored)
    (hl : birth.after.instrument? id = some h) (rest : List (Operation σ)) :
    ∀ m ∈ life (·.removes id) birth rest, m.after.instrument? id = some h := by
  intro m hm
  rcases List.mem_cons.mp hm with rfl | hm
  · exact hl
  · exact (live_of_mem_later hc hs hl rest m hm).2.2.1

/-- During the life of an instrument every successful registration is answered with it. -/
theorem eq_of_grant?_of_mem_life (hc : birth.before.Coherent)
    (hs : birth.after.metadataFor? id.name = some stored)
    (hl : birth.after.instrument? id = some h) (hg : birth.grant? id = some h)
    (rest : List (Operation σ)) :
    ∀ m ∈ life (·.removes id) birth rest, ∀ x, m.grant? id = some x → x = h := by
  intro m hm x hx
  rcases List.mem_cons.mp hm with rfl | hm
  · exact Option.some.inj (hx.symm.trans hg)
  · obtain ⟨hcm, ⟨hlm, hsm⟩, -⟩ := live_of_mem_later hc hs hl rest m hm
    exact (Moment.grant?_of_live hcm hsm hlm hx).1

/-- During the life of an instrument that may not be shared only its creation succeeds. -/
theorem grants_eq_singleton (hc : birth.before.Coherent)
    (hs : birth.after.metadataFor? id.name = some stored)
    (hl : birth.after.instrument? id = some h) (hg : birth.grant? id = some h)
    (hexclusive : stored.kind = .gauge ∨ h.kind = .gauge ∨ stored.reusable = false)
    (rest : List (Operation σ)) :
    (life (·.removes id) birth rest).filterMap (·.grant? id) = [h] := by
  have hnone (m : Moment σ)
      (hm : m ∈ (history birth.after birth.stateAfter rest).takeWhile fun m => !m.removes id) :
      m.grant? id = none := by
    obtain ⟨hcm, ⟨hlm, hsm⟩, -⟩ := live_of_mem_later hc hs hl rest m hm
    cases hx : m.grant? id with
    | none => rfl
    | some x =>
      obtain ⟨-, hreuse, hk, hkh⟩ := Moment.grant?_of_live hcm hsm hlm hx
      obtain hgauge | hgauge | hfalse := hexclusive
      · exact absurd hgauge hk
      · exact absurd hgauge hkh
      · rw [hreuse] at hfalse
        contradiction
  rw [life, List.filterMap_cons, hg, List.filterMap_eq_nil_iff.mpr hnone]

end Life

/-- From the operation that makes a name live until the removal of its last instrument the metadata
is what the first registration stored. From the operation that creates an instrument until its
removal every successful registration of its identity is answered with this very instrument, so that
what is added through one of the answers is counted by all; and no other one succeeds when the kind
is gauge or the metadata says that instruments may not be shared. -/
theorem lifetime (hr : r.Reachable) (op : Operation σ) (s : σ) (rest : List (Operation σ)) :
    let birth : Moment σ := ⟨op, r, s⟩
    (∀ name, birth.wakes name = true →
      ∃ g p, op = .register g ∧ g.proposal = .ok p ∧ g.identity.name = name ∧
        ∀ m ∈ life (·.silences name) birth rest,
          m.after.metadataFor? name = some (p.request.metadataFor name)) ∧
    (∀ id, birth.creates id = true →
      ∃ h, birth.grant? id = some h ∧
        (∀ m ∈ life (·.removes id) birth rest, m.after.instrument? id = some h) ∧
        (∀ m ∈ life (·.removes id) birth rest, ∀ x, m.grant? id = some x → x = h) ∧
        (∀ m ∈ life (·.removes id) birth rest, ∀ m' ∈ life (·.removes id) birth rest, ∀ a b,
          m.grant? id = some (.counter a) → m'.grant? id = some (.counter b) →
            ∀ (w : World) (n : UInt64), b < w.store.counters.size →
              (w.increment a n).store.counter b = w.store.counter b + n) ∧
        ∀ stored, birth.after.metadataFor? id.name = some stored →
          stored.kind = .gauge ∨ h.kind = .gauge ∨ stored.reusable = false →
            (life (·.removes id) birth rest).filterMap (·.grant? id) = [h]) := by
  intro birth
  have hc : birth.before.Coherent := hr.coherent
  refine ⟨fun name hw => ?_, fun id hn => ?_⟩
  · obtain ⟨g, p, hop, hp, hname, -, hs⟩ := Moment.metadataFor?_after_of_wakes hc hw
    exact ⟨g, p, hop, hp, hname, metadataFor?_of_mem_life hc hs rest⟩
  · obtain ⟨h, hg, hl⟩ := Moment.grant?_of_creates hc hn
    obtain ⟨stored, hs⟩ :=
      (hc.run op s).hasName_iff_metadataFor?.mp (hasName_of_instrument? hl)
    have hsame := eq_of_grant?_of_mem_life hc hs hl hg rest
    refine ⟨h, hg, instrument?_of_mem_life hc hs hl rest, hsame, ?_, ?_⟩
    · intro m hm m' hm' a b ha hb w n hbound
      have hab : Handle.counter a = .counter b :=
        (hsame m hm _ ha).trans (hsame m' hm' _ hb).symm
      obtain rfl := Handle.counter.inj hab
      exact counter_increment w a n hbound
    · intro stored' hs' hexclusive
      obtain rfl := Option.some.inj (hs.symm.trans hs')
      exact grants_eq_singleton hc hs hl hg hexclusive rest

/-- A queue's counter is registered, refused a second time, outlives another queue's, and is removed
and registered anew: its first life has one grant. -/
theorem lifetime_jobs :
    let birth : Moment Nat := ⟨.register (jobsOf "high"), .empty, 0⟩
    let rest : List (Operation Nat) := [.register (jobsOf "high"), .register (jobsOf "low"),
      .withdraw (.one (jobsOf "low").identity), .withdraw (.one (jobsOf "high").identity),
      .register (jobsOf "high")]
    let id := (jobsOf "high").identity
    Reachable .empty ∧ birth.creates id = true ∧
      (life (·.removes id) birth rest).filterMap (·.grant? id) = [.counter 0] := by
  intro birth rest id
  have hn : birth.creates id = true := by decide
  obtain ⟨h, hg, -, -, -, hone⟩ :=
    (lifetime .empty (.register (jobsOf "high")) 0 rest).2 id hn
  have hh : birth.grant? id = some (.counter 0) := by decide
  obtain rfl := Option.some.inj (hh.symm.trans hg)
  refine ⟨.empty, hn, hone { Metadata.ofKind "jobs" .counter with reusable := false } ?_ ?_⟩
  · decide
  · exact .inr (.inr rfl)

end Telemetry.Registry
