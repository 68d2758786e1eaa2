import Telemetry.Registry.Registration
import Telemetry.Proofs.Metadata
import Telemetry.Proofs.Registry.Coherence

/-!
# What a registration does

`getOrCreate` stores metadata before it looks for the instrument, so that a refusal for a duplicate
could come too late. In a coherent registry it does not: a name without metadata has no instrument.
What is left are three cases, a refusal that changes nothing, a live instrument that is shared, and
a new instrument. They are stated here on the look-ups of the registry before the call, and every
later statement about registrations is derived from them.
-/

namespace Telemetry

/-- A request fits stored metadata when it asks for a bare kind, or says the same in every field. -/
def Request.Fits (stored : Metadata) : Request → Prop
  | .ofKind _ => True
  | .explicit metadata => ∀ f, stored.SameIn metadata f

/-- No conflict is found exactly when the request fits. -/
theorem Request.conflict?_eq_none_iff {stored : Metadata} {request : Request} :
    request.conflict? stored = none ↔ request.Fits stored := by
  cases request with
  | ofKind kind => simp [Request.conflict?, Request.Fits]
  | explicit metadata => exact Metadata.conflict?_eq_none_iff

namespace Registry

/-- When a request for an identity succeeds: the name is new, or the stored metadata has the kind
and fits, and a live instrument of the identity may be shared. -/
def Accepts (r : Registry) (id : Identity) (request : Request) : Prop :=
  r.metadataFor? id.name = none ∨
    ∃ stored, r.metadataFor? id.name = some stored ∧ stored.kind = request.kind ∧
      request.Fits stored ∧
      (r.instrument? id = none ∨
        ∃ live, r.instrument? id = some live ∧ stored.reusable = true ∧
          live.kind = request.kind ∧ request.kind ≠ .gauge)

/-- Why a request for an identity is refused. Each reason stands only where the earlier ones do
not. -/
inductive Refuses (r : Registry) (id : Identity) (request : Request) : RegistrationError → Prop
  /-- The stored kind is another one. -/
  | kind {stored : Metadata} (hs : r.metadataFor? id.name = some stored)
      (hk : stored.kind ≠ request.kind) :
      Refuses r id request (.kindConflict id.name stored.kind request.kind)
  /-- The request differs from the stored metadata, first in the field that is named. -/
  | metadata {stored requested : Metadata} {f : Metadata.Field}
      (hs : r.metadataFor? id.name = some stored) (hk : stored.kind = request.kind)
      (hr : request = .explicit requested) (hf : stored.FirstDifference requested f) :
      Refuses r id request
        (.metadataConflict id.name ⟨f, stored.value f, requested.value f⟩)
  /-- The live instrument may not be shared. -/
  | duplicate {stored : Metadata} {live : Handle} (hs : r.metadataFor? id.name = some stored)
      (hk : stored.kind = request.kind) (hf : request.Fits stored)
      (hl : r.instrument? id = some live)
      (hshare : ¬ (stored.reusable = true ∧ live.kind = request.kind ∧ request.kind ≠ .gauge)) :
      Refuses r id request (.duplicate id)

/-- The registry with a new instrument, and with the requested metadata if the name is new. -/
def withInstrument (r : Registry) (id : Identity) (request : Request) (h : Handle) : Registry where
  metadata :=
    match r.metadataFor? id.name with
    | none => r.metadata.insert id.name (request.metadataFor id.name)
    | some _ => r.metadata
  instruments := r.instruments.insert id h

variable {σ : Type} {r : Registry} {id : Identity} {request : Request} {factory : σ → Handle × σ}
  {s : σ} {h : Handle} {e : RegistrationError}

/-- The instruments after a registration. -/
theorem instrument?_withInstrument (r : Registry) (id : Identity) (request : Request) (h : Handle)
    (i : Identity) :
    (r.withInstrument id request h).instrument? i = if i = id then some h else r.instrument? i :=
  Table.get?_insert _ _ _ _

/-- The metadata after a registration: what was stored stays. -/
theorem metadataFor?_withInstrument (r : Registry) (id : Identity) (request : Request) (h : Handle)
    (name : String) :
    (r.withInstrument id request h).metadataFor? name =
      if name = id.name then some ((r.metadataFor? name).getD (request.metadataFor name))
      else r.metadataFor? name := by
  cases hm : r.metadataFor? id.name with
  | none =>
    have hget : (r.withInstrument id request h).metadataFor? name =
        (r.metadata.insert id.name (request.metadataFor id.name)).get? name := by
      simp only [withInstrument, hm]
      rfl
    rw [hget, Table.get?_insert]
    by_cases hn : name = id.name
    · simp [hn, hm]
    · simp only [hn, if_false]
      rfl
  | some stored =>
    have hget : (r.withInstrument id request h).metadataFor? name = r.metadataFor? name := by
      simp only [withInstrument, hm]
      rfl
    rw [hget]
    by_cases hn : name = id.name
    · simp [hn, hm]
    · simp only [hn, if_false]

/-- The names that are live after the registration of an instrument. -/
theorem hasName_withInstrument_iff {name : String} (hl : r.instrument? id = none) :
    (r.withInstrument id request h).hasName name = true ↔
      name = id.name ∨ r.hasName name = true := by
  simp only [hasName_iff_instrument?, instrument?_withInstrument]
  constructor
  · rintro ⟨i, x, hi, rfl⟩
    split at hi
    · rename_i he
      exact .inl (congrArg Identity.name he)
    · exact .inr ⟨i, x, hi, rfl⟩
  · rintro (rfl | ⟨i, x, hi, rfl⟩)
    · exact ⟨id, h, if_pos rfl, rfl⟩
    · have hne : i ≠ id := by
        rintro rfl
        rw [hl] at hi
        contradiction
      exact ⟨i, x, (if_neg hne).trans hi, rfl⟩

/-- The registration of a new instrument keeps a registry coherent. -/
theorem Coherent.withInstrument (hc : r.Coherent) (hl : r.instrument? id = none) (request : Request)
    (h : Handle) : (r.withInstrument id request h).Coherent := by
  intro name
  rw [Bool.eq_iff_iff, hasName_withInstrument_iff hl, Table.contains_iff, ← hc name,
    Table.contains_iff]
  change (∃ m, (r.withInstrument id request h).metadataFor? name = some m) ↔
    _ ∨ ∃ m, r.metadataFor? name = some m
  rw [metadataFor?_withInstrument]
  by_cases hn : name = id.name <;> simp [hn]

/-- What an accepted request has in common with the stored metadata and the live instrument. -/
theorem Accepts.of_metadataFor? {stored : Metadata} (ha : r.Accepts id request)
    (hs : r.metadataFor? id.name = some stored) :
    stored.kind = request.kind ∧ request.Fits stored ∧ ∀ live, r.instrument? id = some live →
      stored.reusable = true ∧ live.kind = request.kind ∧ request.kind ≠ .gauge := by
  obtain hn | ⟨stored', hs', hk, hf, hshare⟩ := ha
  · rw [hs] at hn
    contradiction
  · obtain rfl := Option.some.inj (hs.symm.trans hs')
    refine ⟨hk, hf, fun live hl => ?_⟩
    obtain hn | ⟨live', hl', hshare⟩ := hshare
    · rw [hl] at hn
      contradiction
    · obtain rfl := Option.some.inj (hl.symm.trans hl')
      exact hshare

/-- A refused request is not accepted. -/
theorem Refuses.not_accepts (hr : r.Refuses id request e) : ¬ r.Accepts id request := by
  intro ha
  cases hr with
  | kind hs hk => exact hk (ha.of_metadataFor? hs).1
  | @metadata stored requested f hs _ hr hf =>
    have hfits := (ha.of_metadataFor? hs).2.1
    rw [hr] at hfits
    exact hf.1 (hfits f)
  | duplicate hs _ _ hl hshare => exact hshare ((ha.of_metadataFor? hs).2.2 _ hl)

/-- A conflict with stored metadata of the same kind is a refusal. -/
theorem Refuses.of_conflict? {stored : Metadata} {conflict : Metadata.Conflict}
    (hs : r.metadataFor? id.name = some stored) (hk : stored.kind = request.kind)
    (hf : request.conflict? stored = some conflict) :
    r.Refuses id request (.metadataConflict id.name conflict) := by
  cases request with
  | ofKind kind => simp [Request.conflict?] at hf
  | explicit requested =>
    obtain ⟨f, hfirst, rfl⟩ := Metadata.conflict?_eq_some_iff.mp hf
    exact .metadata hs hk rfl hfirst

/-- A request for a name that is neither described nor live registers the factory's instrument. -/
theorem getOrCreate_of_unknown (hm : r.metadataFor? id.name = none) (hl : r.instrument? id = none)
    (request : Request) (factory : σ → Handle × σ) (s : σ) :
    r.getOrCreate id request factory s =
      ⟨.ok (factory s).1, r.withInstrument id request (factory s).1, (factory s).2⟩ := by
  have hl' : r.instruments.get? id = none := hl
  simp only [getOrCreate, hm, enroll, instrument?, hl', Registry.withInstrument]

/-- The three outcomes of a request in a coherent registry: it is refused and nothing changes, or it
is answered with the live instrument and nothing changes, or the factory's instrument is
registered. -/
theorem Coherent.getOrCreate_cases (hc : r.Coherent) (id : Identity) (request : Request)
    (factory : σ → Handle × σ) (s : σ) :
    (∃ e, r.Refuses id request e ∧
      r.getOrCreate id request factory s = ⟨.error e, r, s⟩) ∨
    (∃ live, r.Accepts id request ∧ r.instrument? id = some live ∧
      r.getOrCreate id request factory s = ⟨.ok live, r, s⟩) ∨
    (r.Accepts id request ∧ r.instrument? id = none ∧
      r.getOrCreate id request factory s =
        ⟨.ok (factory s).1, r.withInstrument id request (factory s).1, (factory s).2⟩) := by
  cases hm : r.metadataFor? id.name with
  | none =>
    -- Metadata is stored before the instrument is looked up, but there is no instrument to find.
    have hl : r.instrument? id = none := hc.instrument?_eq_none hm
    exact .inr (.inr ⟨.inl hm, hl, getOrCreate_of_unknown hm hl request factory s⟩)
  | some stored =>
    by_cases hk : stored.kind = request.kind
    · cases hf : request.conflict? stored with
      | some conflict =>
        refine .inl ⟨_, .of_conflict? hm hk hf, ?_⟩
        simp [getOrCreate, hm, hk, hf]
      | none =>
        have hfits : request.Fits stored := Request.conflict?_eq_none_iff.mp hf
        have hget : r.getOrCreate id request factory s =
            r.enroll id request.kind stored.reusable factory s := by
          simp [getOrCreate, hm, hk, hf]
        rw [hget]
        cases hl : r.instrument? id with
        | none =>
          refine .inr (.inr ⟨.inr ⟨stored, hm, hk, hfits, .inl hl⟩, rfl, ?_⟩)
          simp only [enroll, hl, Registry.withInstrument, hm]
        | some live =>
          by_cases hshare :
              stored.reusable = true ∧ live.kind = request.kind ∧ request.kind ≠ .gauge
          · have ha : r.Accepts id request :=
              .inr ⟨stored, hm, hk, hfits, .inr ⟨live, hl, hshare⟩⟩
            refine .inr (.inl ⟨live, ha, rfl, ?_⟩)
            simp [enroll, hl, hshare]
          · refine .inl ⟨_, .duplicate hm hk hfits hl hshare, ?_⟩
            simp [enroll, hl, hshare, and_assoc]
    · exact .inl ⟨_, .kind hm hk, getOrCreate_of_kind_ne hm hk factory s⟩

end Registry

end Telemetry
