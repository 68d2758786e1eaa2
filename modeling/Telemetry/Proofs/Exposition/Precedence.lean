import Telemetry.Proofs.World.Scopes

/-!
# Which of two registrations comes first

The metadata of a name is that of its first registration, and a later one that says the same is accepted.
Records that say the same can be written differently: a description may be left out or be the word for
none, and a unit may be in any letter case. Text documents show a description if it is given, and a unit
that is no unit of measure as it is written. All else that they show hangs on what records say, so that it
does not matter there which registration came first.
-/

namespace Telemetry

namespace MeasureUnit

/-- A word names a unit in any letter case. -/
theorem ofWord?_congr {s t : String} (h : Text.lower s = Text.lower t) : ofWord? s = ofWord? t := by
  simp only [ofWord?, Text.sameLetters, h]

/-- A unit that is not given is like the word for none. -/
theorem ofDeclared?_eq (declared : Option String) :
    ofDeclared? declared = ofWord? (declared.getD noneWord) := by
  cases declared with
  | none => decide +kernel
  | some word => rfl

end MeasureUnit

/-- Instruments are read alike under records that say the same. -/
theorem Metadata.readsAs_of_agrees {a b : Metadata} (h : a.agrees b = true) : a.ReadsAs b := by
  obtain ⟨-, hkind, hsame⟩ := Metadata.agrees_iff.mp h
  have hunit : MeasureUnit.ofDeclared? b.unit = MeasureUnit.ofDeclared? a.unit := by
    rw [MeasureUnit.ofDeclared?_eq, MeasureUnit.ofDeclared?_eq]
    exact MeasureUnit.ofWord?_congr (hsame .unit).symm
  refine ⟨hkind.symm, funext fun x => ?_⟩
  simp only [MeasureUnit.toBase, hunit]

namespace Exposition

open Export (Group Settings)

/-- Records that text documents show alike: with the same name and kind, with the same description if
descriptions are shown, and with the same word for the unit if the kind is shown with its unit. -/
structure ShownAs (settings : Settings) (m m' : Metadata) : Prop where
  name : m'.name = m.name
  kind : m'.kind = m.kind
  description : settings.help = true → m'.description = m.description
  unit : m.kind = .meter ∨ m.kind = .timer ∨ unitWord m' = unitWord m

variable {d : Dialect} {settings : Settings} {scope : Scope} {g g' : Group}

/-- Groups under such records have the same families. -/
theorem families_eq (h : Group.Rel (ShownAs settings) g g') :
    families d scope g' = families d scope g := by
  obtain ⟨⟨hname, hkind, -, hunit⟩, hmembers⟩ := h
  unfold families
  rw [hname, hkind, hmembers]
  obtain hmeter | htimer | hword := hunit
  · rw [hmeter]
  · rw [htimer]
  · rw [hword]

/-- They have the same lines. -/
theorem groupLines_eq (h : Group.Rel (ShownAs settings) g g') :
    groupLines d settings scope g = groupLines d settings scope g' := by
  have hhelp : (if settings.help then g'.metadata.description else none) =
      if settings.help then g.metadata.description else none := by
    split
    · rename_i hshown
      exact h.metadata.description hshown
    · rfl
  simp only [groupLines, families_eq h, hhelp]

end Exposition

namespace Registry

/-- What a registry knows about a name says the same as a record, if it knows anything. -/
def Admits (r : Registry) (name : String) (m : Metadata) : Prop :=
  ∀ stored, r.metadataFor? name = some stored → stored.kind = m.kind ∧ ∀ f, stored.SameIn m f

/-- What a registration under a record makes of a registry: what was known stays, and the identity is live
if the record was admitted. -/
structure Took (id : Identity) (m : Metadata) (r s : Registry) : Prop where
  coherent : s.Coherent
  metadata : ∀ name, s.metadataFor? name =
    if name = id.name then some ((r.metadataFor? name).getD m) else r.metadataFor? name
  live : ∀ i, (∃ h, s.instrument? i = some h) ↔
    (∃ h, r.instrument? i = some h) ∨ i = id ∧ r.Admits id.name m

variable {σ : Type} {r s : Registry} {id : Identity} {m : Metadata}

/-- A request that is refused was for a known name, and was not admitted unless the identity is live. -/
theorem Refuses.known {e : RegistrationError} (h : r.Refuses id (.explicit m) e) :
    (∃ stored, r.metadataFor? id.name = some stored) ∧
      (r.Admits id.name m → ∃ x, r.instrument? id = some x) := by
  cases h with
  | kind hs hk => exact ⟨⟨_, hs⟩, fun ha => absurd (ha _ hs).1 hk⟩
  | metadata hs _ hr hf =>
    obtain rfl := Request.explicit.inj hr
    exact ⟨⟨_, hs⟩, fun ha => absurd ((ha _ hs).2 _) hf.1⟩
  | duplicate hs _ _ hl _ => exact ⟨⟨_, hs⟩, fun _ => ⟨_, hl⟩⟩

/-- A registration that changes nothing was for a known name, and its identity is live if it was
admitted. -/
theorem Coherent.took_self (hc : r.Coherent) (hknown : ∃ stored, r.metadataFor? id.name = some stored)
    (hlive : r.Admits id.name m → ∃ x, r.instrument? id = some x) : Took id m r r where
  coherent := hc
  metadata name := by
    split
    · rename_i hname
      obtain ⟨stored, hs⟩ := hknown
      rw [hname, hs, Option.getD_some]
    · rfl
  live i := by
    constructor
    · exact .inl
    · rintro (h | ⟨rfl, ha⟩)
      · exact h
      · exact hlive ha

/-- What a registration does under a record. -/
theorem Coherent.took (hc : r.Coherent) {g : Registration σ} {factory : σ → Handle × σ}
    (hp : g.proposal = .ok ⟨.explicit m, factory⟩) (state : σ) :
    Took g.identity m r (g.run r state).registry := by
  rw [g.run_eq_consider, hp]
  obtain ⟨e, hr, ho⟩ | ⟨live, -, hl, ho⟩ | ⟨ha, hl, ho⟩ :=
    hc.getOrCreate_cases g.identity (.explicit m) factory state
  · simp only [consider, ho]
    exact hc.took_self hr.known.1 hr.known.2
  · simp only [consider, ho]
    apply hc.took_self
    · exact hc.hasName_iff_metadataFor?.mp (hasName_of_instrument? hl)
    · exact fun _ => ⟨live, hl⟩
  · simp only [consider, ho]
    have hadmits : r.Admits g.identity.name m := fun stored hs =>
      ⟨(ha.of_metadataFor? hs).1, (ha.of_metadataFor? hs).2.1⟩
    refine ⟨hc.withInstrument hl _ _, metadataFor?_withInstrument r _ _ _, fun i => ?_⟩
    rw [instrument?_withInstrument]
    by_cases hi : i = g.identity
    · simp [hi, hadmits]
    · simp [hi]

variable {a b : Metadata} {i j : Identity} {u v x y : Registry}

/-- A registry admits both of two records that agree or none. -/
theorem admits_of_agrees {name : String} (h : a.agrees b = true) (ha : r.Admits name a) :
    r.Admits name b := by
  obtain ⟨-, hkind, hsame⟩ := Metadata.agrees_iff.mp h
  intro stored hs
  obtain ⟨hk, hf⟩ := ha stored hs
  exact ⟨hk.trans hkind, fun f => (hf f).trans (hsame f)⟩

/-- After one of two records that agree was taken, the other is admitted if it was before. -/
theorem Took.admits_iff (ht : Took i a r u) (h : a.agrees b = true) :
    u.Admits i.name b ↔ r.Admits i.name b := by
  obtain ⟨-, hkind, hsame⟩ := Metadata.agrees_iff.mp h
  have hu := ht.metadata i.name
  rw [if_pos rfl] at hu
  cases hr : r.metadataFor? i.name with
  | none =>
    rw [hr, Option.getD_none] at hu
    refine ⟨fun _ stored hs => ?_, fun _ stored hs => ?_⟩
    · rw [hr] at hs
      contradiction
    · obtain rfl := Option.some.inj (hu.symm.trans hs)
      exact ⟨hkind, hsame⟩
  | some stored =>
    rw [hr, Option.getD_some] at hu
    simp only [Admits, hr, hu]

/-- One of two records, and in its place it or the other. -/
def Either (a b m m' : Metadata) : Prop := m' = m ∨ m = a ∧ m' = b

/-- Two registrations of a name under records that agree leave the same identities live in either order,
and the same metadata but for the name, where the record that came first is stored if the name is new. -/
theorem took_both (h : a.agrees b = true) (hname : i.name = j.name) (hu : Took i a r u)
    (hx : Took j b u x) (hv : Took j b r v) (hy : Took i a v y) :
    (∀ name, Option.Rel (Either a b) (x.metadataFor? name) (y.metadataFor? name)) ∧
      ∀ id, (∃ h, x.instrument? id = some h) ↔ ∃ h, y.instrument? id = some h := by
  have hsymm : b.agrees a = true := Metadata.equivalence_agrees.symm h
  constructor
  · intro name
    rw [hx.metadata, hy.metadata, hu.metadata, hv.metadata, hname]
    by_cases hn : name = j.name
    · rw [if_pos hn, if_pos hn, if_pos hn, if_pos hn]
      apply Option.Rel.some
      cases r.metadataFor? name with
      | none => exact .inr ⟨rfl, rfl⟩
      | some stored => exact .inl rfl
    · rw [if_neg hn, if_neg hn, if_neg hn, if_neg hn]
      cases r.metadataFor? name with
      | none => exact .none
      | some stored => exact .some (.inl rfl)
  · intro id
    have hsecond : u.Admits j.name b ↔ r.Admits j.name b := hname ▸ hu.admits_iff h
    have hsecond' : v.Admits i.name a ↔ r.Admits i.name a := hname ▸ hv.admits_iff hsymm
    have hsame : r.Admits i.name a ↔ r.Admits j.name b :=
      hname ▸ ⟨admits_of_agrees h, admits_of_agrees hsymm⟩
    rw [hx.live, hy.live, hu.live, hv.live, hsecond, hsecond', hsame]
    tauto

end Registry

namespace World

/-- A registration under a record, by any entry point, whose arguments fit together. -/
def Enrolment.Asks (m : Metadata) : Enrolment → Prop
  | .getOrCreate id request _ => id.name = m.name ∧ request = .explicit m
  | .instrument d _ b => d = .metadata m ∧ m.kind = b.kind
  | .register d _ h => d = .metadata m ∧ m.kind = h.kind
  | .registerGauge d _ _ => d = .metadata m ∧ m.kind = .gauge
  | .registerDynamic d _ provides =>
    d = .metadata m ∧ ∃ h, provides m.kind = some h ∧ h.kind = m.kind

/-- A world in which the same is registered, whatever the instruments hold. -/
structure Recorded (w v : World) : Prop where
  scopes : v.scopes = w.scopes
  registries : v.registries = w.registries

/-- Worlds of the same time, whose instruments of the same identity in the same registry hold the same. -/
structure SameValues (w v : World) : Prop where
  now : v.now = w.now
  content : ∀ k id h h', (w.registry k).instrument? id = some h →
    (v.registry k).instrument? id = some h' → w.store.SameAt w.now v.store h h'

variable {w v v' : World} {k : RegistryKey} {m a b : Metadata} {e ea eb : Enrolment}

/-- Such a registration is for the name of the record, and proposes it. -/
theorem Enrolment.Asks.exists_proposal (he : e.Asks m) (w : World) :
    (e.registration w).identity.name = m.name ∧
      ∃ factory, (e.registration w).proposal = .ok ⟨.explicit m, factory⟩ := by
  cases e with
  | getOrCreate id request source =>
    obtain ⟨hname, rfl⟩ := he
    exact ⟨hname, _, rfl⟩
  | instrument d tags b =>
    obtain ⟨rfl, hk⟩ := he
    exact ⟨rfl, _, if_pos hk⟩
  | register d tags h =>
    obtain ⟨rfl, hk⟩ := he
    exact ⟨rfl, _, if_pos hk⟩
  | registerGauge d tags serial =>
    obtain ⟨rfl, hk⟩ := he
    exact ⟨rfl, _, if_pos hk⟩
  | registerDynamic d tags provides =>
    obtain ⟨rfl, h, hprovided, hk⟩ := he
    refine ⟨rfl, ?_⟩
    have hmem : h ∈ Registry.capabilities provides :=
      List.mem_filterMap.mpr ⟨m.kind, Kind.mem_all m.kind, hprovided⟩
    have hsome : ((Registry.capabilities provides).find? (·.kind == m.kind)).isSome := by
      rw [List.find?_isSome]
      exact ⟨h, hmem, beq_iff_eq.mpr hk⟩
    obtain ⟨x, hx⟩ := Option.isSome_iff_exists.mp hsome
    have hkind := List.find?_some hx
    simp only [registration, Registry.Registration.proposal, Registry.chooseCapability, hx]
    exact ⟨_, if_pos (beq_iff_eq.mp hkind).symm⟩

/-- What identity a registration is for does not hang on the world. -/
theorem Enrolment.identity_eq (e : Enrolment) (w v : World) :
    (e.registration v).identity = (e.registration w).identity := by
  cases e <;> rfl

/-- The registries after a registration in one of them. -/
theorem registry_enrol (w : World) (k i : RegistryKey) (e : Enrolment) :
    ((Act.enrol k e).run w).2.registry i =
      if i = k ∧ k.index < w.registries.size then
        ((e.registration w).run (w.registry k) w.store).registry
      else w.registry i := by
  have hindex : i.index = k.index ↔ i = k :=
    ⟨congrArg RegistryKey.mk, congrArg RegistryKey.index⟩
  refine (registry_setRegistry _ k i _).trans ?_
  simp only [hindex]
  rfl

/-- What a registration under a record makes of its registry, if the registry was made. -/
theorem took_enrol (he : e.Asks m) (hk : k.index < w.registries.size)
    (hc : (w.registry k).Coherent) :
    Registry.Took (e.registration w).identity m (w.registry k)
      (((Act.enrol k e).run w).2.registry k) := by
  obtain ⟨-, factory, hp⟩ := he.exists_proposal w
  rw [registry_enrol, if_pos ⟨rfl, hk⟩]
  exact hc.took hp w.store

variable {m' : Metadata} {e' : Enrolment}

/-- No registry was made or taken away by two registrations. -/
theorem size_both (w : World) (k : RegistryKey) (e e' : Enrolment) :
    (w.after [.enrol k e, .enrol k e']).registries.size = w.registries.size :=
  Array.size_setIfInBounds.trans Array.size_setIfInBounds

/-- What the second of two registrations makes of the registry. -/
theorem took_second (he : e.Asks m) (he' : e'.Asks m') (hk : k.index < w.registries.size)
    (hc : (w.registry k).Coherent) :
    Registry.Took (e'.registration w).identity m' (((Act.enrol k e).run w).2.registry k)
      ((w.after [.enrol k e, .enrol k e']).registry k) := by
  have hsize : ((Act.enrol k e).run w).2.registries.size = w.registries.size :=
    Array.size_setIfInBounds
  rw [← e'.identity_eq w ((Act.enrol k e).run w).2]
  exact took_enrol he' (hsize ▸ hk) (took_enrol he hk hc).coherent

/-- The other registries stay as they are. -/
theorem registry_both {i : RegistryKey} (hi : ¬(i = k ∧ k.index < w.registries.size))
    (e e' : Enrolment) : (w.after [.enrol k e, .enrol k e']).registry i = w.registry i := by
  have hsize : ((Act.enrol k e).run w).2.registries.size = w.registries.size :=
    Array.size_setIfInBounds
  have hfirst := (registry_enrol w k i e).trans (if_neg hi)
  exact ((registry_enrol _ k i e').trans (if_neg (hsize ▸ hi))).trans hfirst

/-- Registrations under records that agree, in either order, leave the same identities live in every
registry, and the same metadata but for the record that came first. -/
theorem both_enrolled (h : a.agrees b = true) (hc : (w.registry k).Coherent) (ha : ea.Asks a)
    (hb : eb.Asks b) (i : RegistryKey) :
    let v := w.after [.enrol k ea, .enrol k eb]
    let v' := w.after [.enrol k eb, .enrol k ea]
    (∀ name, Option.Rel (Registry.Either a b) ((v.registry i).metadataFor? name)
        ((v'.registry i).metadataFor? name)) ∧
      ∀ id, (∃ x, (v.registry i).instrument? id = some x) ↔
        ∃ x, (v'.registry i).instrument? id = some x := by
  intro v v'
  by_cases hi : i = k ∧ k.index < w.registries.size
  · obtain ⟨rfl, hmade⟩ := hi
    have hname : (ea.registration w).identity.name = (eb.registration w).identity.name := by
      rw [(ha.exists_proposal w).1, (hb.exists_proposal w).1, (Metadata.agrees_iff.mp h).1]
    exact Registry.took_both h hname (took_enrol ha hmade hc) (took_second ha hb hmade hc)
      (took_enrol hb hmade hc) (took_second hb ha hmade hc)
  · rw [registry_both hi, registry_both hi]
    refine ⟨fun name => Related.rel_of_exists_iff Iff.rfl fun m m' hm hm' => ?_, fun id => Iff.rfl⟩
    exact .inl (Option.some.inj (hm'.symm.trans hm))

end World

namespace Exposition

open Export (Selection Settings)
open World (Enrolment Recorded SameValues Mirror)

variable {w v v' : World} {k : RegistryKey} {a b : Metadata} {ea eb : Enrolment} {settings : Settings}

/-- Records that agree are shown alike, if their descriptions are both there or not shown, and their units
have the same word or are not shown. -/
theorem shownAs_of_agrees (h : a.agrees b = true)
    (hhelp : settings.help = true → a.description.isSome = b.description.isSome)
    (hunit : a.kind = .meter ∨ a.kind = .timer ∨ unitWord a = unitWord b) :
    ShownAs settings a b := by
  obtain ⟨hname, hkind, hsame⟩ := Metadata.agrees_iff.mp h
  refine ⟨hname.symm, hkind.symm, fun hshown => ?_, hunit.imp_right (Or.imp_right Eq.symm)⟩
  have hboth := hhelp hshown
  have htext : a.description.getD noneWord = b.description.getD noneWord := hsame .description
  cases ha : a.description with
  | none =>
    rw [ha] at hboth
    exact Option.not_isSome_iff_eq_none.mp (Bool.eq_false_iff.mp hboth.symm)
  | some text =>
    rw [ha] at hboth htext
    obtain ⟨text', hb⟩ := Option.isSome_iff_exists.mp hboth.symm
    rw [hb] at htext ⊢
    exact congrArg some htext.symm

/-- Worlds after two registrations in either order show the same but for the record that came first. -/
theorem mirror_both (h : a.agrees b = true) (hc : (w.registry k).Coherent) (ha : ea.Asks a)
    (hb : eb.Asks b) (hv : (w.after [.enrol k ea, .enrol k eb]).Recorded v)
    (hv' : (w.after [.enrol k eb, .enrol k ea]).Recorded v') (hvalues : v.SameValues v') :
    Mirror (Registry.Either a b) (v.store.SameAt v.now v'.store) (fun _ => True) v v' := by
  have hboth (i : RegistryKey) := World.both_enrolled h hc ha hb i
  have hregistry (i : RegistryKey) :
      (w.after [.enrol k ea, .enrol k eb]).registry i = v.registry i ∧
        (w.after [.enrol k eb, .enrol k ea]).registry i = v'.registry i := by
    constructor
    · rw [World.registry, World.registry, hv.registries]
    · rw [World.registry, World.registry, hv'.registries]
  simp only [(hregistry _).1, (hregistry _).2] at hboth
  exact {
    now := hvalues.now
    scopes := hv'.scopes.trans hv.scopes.symm
    size := by rw [hv.registries, hv'.registries, World.size_both, World.size_both]
    live := fun _ _ _ => trivial
    metadata := fun i _ => (hboth i).1
    instruments := fun i _ id => Related.rel_of_exists_iff ((hboth i).2 id) (hvalues.content i id)
    content := fun _ _ hx => hx }

/-- It does not matter to text documents which of two registrations of a name under records that agree came
first, whatever their tags and whatever the instruments hold, if descriptions are not shown or both records
have one or neither has, and if the records have the same word for the unit or are of a kind that is shown
without its unit. -/
theorem orders_shown_alike (h : a.agrees b = true) (hr : (w.registry k).Reachable) (ha : ea.Asks a)
    (hb : eb.Asks b) (hv : (w.after [.enrol k ea, .enrol k eb]).Recorded v)
    (hv' : (w.after [.enrol k eb, .enrol k ea]).Recorded v') (hvalues : v.SameValues v')
    (settings : Settings) (hhelp : settings.help = true → a.description.isSome = b.description.isSome)
    (hunit : a.kind = .meter ∨ a.kind = .timer ∨ unitWord a = unitWord b)
    (d : Dialect) (selection : Selection) :
    (document? d settings selection v').1 = (document? d settings selection v).1 := by
  have hmirror := mirror_both h hr.coherent ha hb hv hv' hvalues
  have hcarries : World.Carries
      (Mirror (Registry.Either a b) (v.store.SameAt v.now v'.store) fun _ => True)
      (Registry.Either a b) (v.store.SameAt v.now v'.store) fun _ => True := by
    apply World.carries_mirror
    · rintro m m' (rfl | ⟨rfl, rfl⟩)
      · exact ⟨rfl, rfl⟩
      · exact Metadata.readsAs_of_agrees h
    · exact fun _ _ => Store.SameAt.kind_eq
  have hlines (scope : Scope) (g g' : Export.Group) (hg : Export.Group.Rel (Registry.Either a b) g g') :
      groupLines d settings scope g = groupLines d settings scope g' := by
    apply groupLines_eq
    refine ⟨?_, hg.members⟩
    obtain hm | ⟨hm, hm'⟩ := hg.metadata
    · rw [hm]
      exact ⟨rfl, rfl, fun _ => rfl, .inr (.inr rfl)⟩
    · rw [hm, hm']
      exact shownAs_of_agrees h hhelp hunit
  exact (along_document? hcarries hlines selection hmirror).1.symm

/-- What is known about a counter, with its description and unit if they are given. -/
def counterRecord (description unit : Option String) : Metadata :=
  ⟨"c", none, description, unit, .counter, true⟩

/-- A counter is registered in the registry of a scope under one record, and asked for under another. -/
def askedTwice (a b : Metadata) : World :=
  ((World.start 16).init "s").2.after
    [.enrol ⟨0⟩ (.instrument (.metadata a) [] (.counter 0)),
      .enrol ⟨0⟩ (.instrument (.metadata b) [] (.counter 0))]

/-- What is known about a counter of what was sent, in a unit. -/
def sentIn (unit : String) : Metadata := counterRecord (some "Sent.") (some unit)

/-- A unit of measure is shown with one word, in whatever letter case it was declared. -/
theorem orders_shown_alike_kilobytes :
    sentIn "KiloBytes" ≠ sentIn "kilobytes" ∧
      (sentIn "KiloBytes").agrees (sentIn "kilobytes") = true ∧
      unitWord (sentIn "KiloBytes") = unitWord (sentIn "kilobytes") ∧
      (askedTwice (sentIn "KiloBytes") (sentIn "kilobytes")).SameValues
        (askedTwice (sentIn "kilobytes") (sentIn "KiloBytes")) ∧
      (document? .prometheus .default .all (askedTwice (sentIn "kilobytes") (sentIn "KiloBytes"))).1 =
        (document? .prometheus .default .all (askedTwice (sentIn "KiloBytes") (sentIn "kilobytes"))).1 := by
  have hagrees : (sentIn "KiloBytes").agrees (sentIn "kilobytes") = true := by decide +kernel
  have hunit : unitWord (sentIn "KiloBytes") = unitWord (sentIn "kilobytes") := by decide +kernel
  have hinstruments (k : RegistryKey) :
      ((askedTwice (sentIn "kilobytes") (sentIn "KiloBytes")).registry k).instruments =
        ((askedTwice (sentIn "KiloBytes") (sentIn "kilobytes")).registry k).instruments := by
    obtain ⟨n⟩ := k
    cases n <;> rfl
  have hstore : (askedTwice (sentIn "kilobytes") (sentIn "KiloBytes")).store =
      (askedTwice (sentIn "KiloBytes") (sentIn "kilobytes")).store := by rfl
  have hvalues : (askedTwice (sentIn "KiloBytes") (sentIn "kilobytes")).SameValues
      (askedTwice (sentIn "kilobytes") (sentIn "KiloBytes")) := by
    refine ⟨rfl, fun k id h h' hl hl' => ?_⟩
    rw [Registry.instrument?, hinstruments] at hl'
    obtain rfl := Option.some.inj (hl.symm.trans hl')
    rw [Store.SameAt, hstore]
  have hasks (unit : String) : Enrolment.Asks (sentIn unit)
      (.instrument (.metadata (sentIn unit)) [] (.counter 0)) := ⟨rfl, rfl⟩
  have halike := orders_shown_alike (w := ((World.start 16).init "s").2) (k := ⟨0⟩) hagrees
    Registry.Reachable.empty (hasks _) (hasks _) ⟨rfl, rfl⟩ ⟨rfl, rfl⟩ hvalues .default (fun _ => rfl)
    (.inr (.inr hunit)) .prometheus .all
  exact ⟨by decide, hagrees, hunit, hvalues, halike⟩

/-- Documents differ whose first lines differ in one of their first characters. -/
theorem ne_of_first_line {d : Dialect} {document document' : Option String} (l l' : Line) (n : Nat)
    (hdocument : ∃ rest, document = some (render d (l :: rest)))
    (hdocument' : ∃ rest, document' = some (render d (l' :: rest)))
    (hl : n ≤ (l.chars d).length) (hl' : n ≤ (l'.chars d).length)
    (hne : (l.chars d).take n ≠ (l'.chars d).take n) : document ≠ document' := by
  obtain ⟨rest, rfl⟩ := hdocument
  obtain ⟨rest', rfl⟩ := hdocument'
  intro h
  have hchars := congrArg (fun text => text.toList.take n) (Option.some.inj h)
  simp only [render, String.toList_ofList, List.flatMap_cons, List.append_assoc,
    List.take_append_of_le_length hl, List.take_append_of_le_length hl'] at hchars
  exact hne hchars

/-- Where one record has the word for none as its description and the other has none, or where a unit that
is no unit of measure is written in another letter case, documents show which record came first. -/
theorem orders_shown_differently :
    (let a := counterRecord (some "none") none
      let b := counterRecord none none
      a.agrees b = true ∧
        (document? .prometheus .default .all (askedTwice a b)).1 ≠
          (document? .prometheus .default .all (askedTwice b a)).1) ∧
      let a := counterRecord none (some "myUnit")
      let b := counterRecord none (some "MYUNIT")
      a.agrees b = true ∧
        (document? .openMetrics .default .all (askedTwice a b)).1 ≠
          (document? .openMetrics .default .all (askedTwice b a)).1 := by
  constructor
  · refine ⟨by decide, ?_⟩
    exact ne_of_first_line (.help "s_c_total" "none") (.type "s_c_total" .counter) 3 ⟨_, rfl⟩
      ⟨_, rfl⟩ (by decide) (by decide) (by decide)
  · refine ⟨by decide, ?_⟩
    exact ne_of_first_line (.type "s:c_my_unit" .counter) (.type "s:c_myunit" .counter) 15 ⟨_, rfl⟩
      ⟨_, rfl⟩ (by decide) (by decide) (by decide)

end Exposition

end Telemetry
