import Telemetry.Proofs.Export.Parallel

/-!
# Worlds that show the same

An export knows a world by the registries of its live scopes. Of metadata it takes the kind and the unit
to read instruments, and of an instrument what it holds once it is brought up to date. Worlds that are the
same so far are carried along by exports, whatever else is in them and wherever their instruments are.
-/

namespace Telemetry

open World (Carries Undisturbed)

/-- Metadata under which instruments are read alike. -/
structure Metadata.ReadsAs (m m' : Metadata) : Prop where
  kind : m'.kind = m.kind
  scaling : MeasureUnit.toBase m'.unit = MeasureUnit.toBase m.unit

/-- Instruments of two stores that hold the same once they are brought up to date. -/
def Store.SameAt (now : UInt64) (s t : Store) (h h' : Handle) : Prop :=
  (t.content h').settled now = (s.content h).settled now

/-- They are of one kind. -/
theorem Store.SameAt.kind_eq {now : UInt64} {s t : Store} {h h' : Handle}
    (hs : s.SameAt now t h h') : h'.kind = h.kind := by
  have hkind := congrArg Content.kind hs
  rwa [Content.kind_settled, Content.kind_settled, kind_content, kind_content] at hkind

namespace World

/-- Worlds with the same live scopes, whose registries have related metadata of the same names and
related instruments of the same identities. Related instruments hold the same. -/
structure Mirror (M : Metadata → Metadata → Prop) (H : Handle → Handle → Prop)
    (L : RegistryKey → Prop) (w v : World) : Prop where
  now : v.now = w.now
  scopes : v.scopes = w.scopes
  size : v.registries.size = w.registries.size
  live : ∀ s k, w.scope? s = some k → L k
  metadata : ∀ k, L k → ∀ name,
    Option.Rel M ((w.registry k).metadataFor? name) ((v.registry k).metadataFor? name)
  instruments : ∀ k, L k → ∀ id,
    Option.Rel H ((w.registry k).instrument? id) ((v.registry k).instrument? id)
  content : ∀ h h', H h h' → w.store.SameAt w.now v.store h h'

variable {M : Metadata → Metadata → Prop} {H : Handle → Handle → Prop} {L : RegistryKey → Prop}
  {w v w' v' : World}

/-- Worlds that show the same still do when neither was disturbed. -/
theorem Mirror.undisturbed (h : Mirror M H L w v) (hw : w.Undisturbed w') (hv : v.Undisturbed v') :
    Mirror M H L w' v' where
  now := hv.now.trans (h.now.trans hw.now.symm)
  scopes := hv.scopes.trans (h.scopes.trans hw.scopes.symm)
  size := by rw [hv.registries, hw.registries, h.size]
  live s k hs := h.live s k (by rwa [scope?, hw.scopes] at hs)
  metadata k hk name := by
    rw [hw.registry_eq, hv.registry_eq]
    exact h.metadata k hk name
  instruments k hk id := by
    rw [hw.registry_eq, hv.registry_eq]
    exact h.instruments k hk id
  content x y hH := by
    have hsame : _ = _ := h.content x y hH
    rw [Store.SameAt, hw.now, hw.settled_eq, ← hsame, ← h.now, hv.settled_eq]

/-- They still do when the same name was removed in both. -/
theorem Mirror.carryOut (h : Mirror M H L w v) (r : Removal) :
    Mirror M H L (w.carryOut r) (v.carryOut r) where
  now := h.now
  scopes := h.scopes
  size := by simp only [World.carryOut, removing, setRegistry, Array.size_setIfInBounds, h.size]
  live := h.live
  metadata k hk name := by
    simp only [World.carryOut, removing, registry_setRegistry, h.size]
    split
    · rename_i hr
      obtain rfl : k = r.registry := congrArg RegistryKey.mk hr.1
      exact Table.rel_filter (h.metadata _ hk) (compare r.name · != .eq) name
    · exact h.metadata k hk name
  instruments k hk id := by
    simp only [World.carryOut, removing, registry_setRegistry, h.size]
    split
    · rename_i hr
      obtain rfl : k = r.registry := congrArg RegistryKey.mk hr.1
      exact Table.rel_filter (h.instruments _ hk) (·.name != r.name) id
    · exact h.instruments k hk id
  content := h.content

/-- Exports carry worlds along that show the same. -/
theorem carries_mirror (hM : ∀ ⦃m m'⦄, M m m' → m.ReadsAs m')
    (hH : ∀ ⦃h h'⦄, H h h' → h'.kind = h.kind) : Carries (Mirror M H L) M H L where
  scopes _ _ h := h.scopes
  live _ _ h := h.live
  metadata _ _ h := h.metadata
  instruments _ _ h := h.instruments
  kind_metadata _ _ h := (hM h).kind
  kind_handle := hH
  read m m' x x' hm hx := by
    intro w v h
    have hcontent : (v.store.content x').settled w.now = (w.store.content x).settled w.now :=
      h.content x x' hx
    have hremoval : (v.store.content x').removal? = (w.store.content x).removal? := by
      rw [← Content.removal?_settled w.now, hcontent, Content.removal?_settled]
    constructor
    · have hreading (c : Content) (now : UInt64) : c.reading m'.unit now = c.reading m.unit now := by
        cases c <;> simp only [Content.reading, (hM hm).scaling, Export.Distribution.of]
      rw [reading_content, reading_content, h.now, hcontent, hreading]
    · obtain ⟨r, hr, hw⟩ | ⟨hr, hw⟩ := readInstrument_cases w m.unit x
      · obtain ⟨r', hr', hv⟩ | ⟨hr', -⟩ := readInstrument_cases v m'.unit x'
        · obtain rfl : r' = r := Option.some.inj (hr'.symm.trans (hremoval.trans hr))
          rw [hw, hv]
          exact h.carryOut r'
        · rw [hremoval, hr] at hr'
          contradiction
      · obtain ⟨r', hr', -⟩ | ⟨-, hv⟩ := readInstrument_cases v m'.unit x'
        · rw [hremoval, hr] at hr'
          contradiction
        · exact h.undisturbed hw hv

end World

end Telemetry
