import Telemetry.Registry.Basic
import Telemetry.Proofs.Table

/-!
# Coherent registries and removal

A registry is coherent when its two tables speak of the same names. Removal works in three different
ways: it looks for another instrument of the name, drops a name with all its instruments, or drops
everything. On coherent registries all of them are one operation, `sweep`, which keeps the
instruments that do not satisfy a condition and the metadata of the names that are left.
-/

namespace Telemetry.Registry

/-- A name has metadata exactly when an instrument of it is live. -/
def Coherent (r : Registry) : Prop := ∀ name, r.metadata.contains name = r.hasName name

/-- The registry without the instruments that satisfy `p`, and without the metadata of the names
that have no instrument any more. -/
def sweep (r : Registry) (p : Identity → Handle → Bool) : Registry :=
  let rest : Registry := { r with instruments := r.instruments.filter fun id h => !p id h }
  { rest with metadata := r.metadata.filter fun name _ => rest.hasName name }

variable {r s : Registry} {p q : Identity → Handle → Bool} {id : Identity} {name : String}
  {h : Handle}

/-- A registry is determined by its look-ups. -/
theorem ext_lookups (hm : ∀ name, r.metadataFor? name = s.metadataFor? name)
    (hi : ∀ id, r.instrument? id = s.instrument? id) : r = s :=
  Registry.ext (Table.ext_get? hm) (Table.ext_get? hi)

/-- An identity is live exactly when a look-up finds its instrument. -/
theorem contains_instruments_iff :
    r.instruments.contains id = true ↔ ∃ h, r.instrument? id = some h := Table.contains_iff

/-- A name is live exactly when a look-up finds an instrument of it. -/
theorem hasName_iff_instrument? :
    r.hasName name = true ↔ ∃ id h, r.instrument? id = some h ∧ id.name = name := by
  simp only [hasName_iff, identities, Table.mem_keys_iff, contains_instruments_iff]
  constructor
  · rintro ⟨id, ⟨h, hl⟩, hn⟩
    exact ⟨id, h, hl, hn⟩
  · rintro ⟨id, h, hl, hn⟩
    exact ⟨id, ⟨h, hl⟩, hn⟩

/-- A name with a live instrument is live. -/
theorem hasName_of_instrument? (hl : r.instrument? id = some h) : r.hasName id.name = true :=
  hasName_iff_instrument?.mpr ⟨id, h, hl, rfl⟩

/-- In a coherent registry a name is live exactly when it has metadata. -/
theorem Coherent.hasName_iff_metadataFor? (hc : r.Coherent) :
    r.hasName name = true ↔ ∃ m, r.metadataFor? name = some m := by
  rw [← hc name, Table.contains_iff]
  rfl

/-- In a coherent registry a name that is not live has no metadata. -/
theorem Coherent.metadataFor?_eq_none (hc : r.Coherent) (hn : r.hasName name = false) :
    r.metadataFor? name = none := by
  rw [← hc name] at hn
  exact Option.not_isSome_iff_eq_none.mp (Bool.eq_false_iff.mp hn)

/-- A name without metadata has no live instrument. -/
theorem Coherent.instrument?_eq_none (hc : r.Coherent) (hn : r.metadataFor? id.name = none) :
    r.instrument? id = none := by
  cases hl : r.instrument? id with
  | none => rfl
  | some h =>
    obtain ⟨m, hm⟩ := hc.hasName_iff_metadataFor?.mp (hasName_of_instrument? hl)
    rw [hn] at hm
    contradiction

/-- The registry in which nothing is registered is coherent. -/
theorem coherent_empty : Coherent empty := fun _ => rfl

/-- The instruments that a sweep leaves. -/
theorem instrument?_sweep (r : Registry) (p : Identity → Handle → Bool) (id : Identity) :
    (r.sweep p).instrument? id = (r.instrument? id).filter fun h => !p id h :=
  Table.get?_filter _ _ _

/-- A sweep leaves an instrument exactly when the instrument was live and does not satisfy the
condition. -/
theorem instrument?_sweep_eq_some_iff :
    (r.sweep p).instrument? id = some h ↔ r.instrument? id = some h ∧ p id h = false := by
  rw [instrument?_sweep, Option.filter_eq_some_iff, Bool.not_eq_true']

/-- The metadata that a sweep leaves. -/
theorem metadataFor?_sweep (r : Registry) (p : Identity → Handle → Bool) (name : String) :
    (r.sweep p).metadataFor? name =
      if (r.sweep p).hasName name then r.metadataFor? name else none := by
  change (Table.filter _ _).get? name = _
  rw [Table.get?_filter]
  change Option.filter (fun _ => (r.sweep p).hasName name) (r.metadataFor? name) = _
  cases r.metadataFor? name <;> cases (r.sweep p).hasName name <;> rfl

/-- A name is left by a sweep exactly when one of its instruments does not satisfy the condition. -/
theorem hasName_sweep_iff :
    (r.sweep p).hasName name = true ↔
      ∃ id h, r.instrument? id = some h ∧ p id h = false ∧ id.name = name := by
  simp only [hasName_iff_instrument?, instrument?_sweep_eq_some_iff, and_assoc]

/-- A sweep brings no name to life. -/
theorem hasName_of_hasName_sweep (hn : (r.sweep p).hasName name = true) :
    r.hasName name = true := by
  obtain ⟨id, h, hl, -, rfl⟩ := hasName_sweep_iff.mp hn
  exact hasName_of_instrument? hl

/-- A sweep keeps a registry coherent. -/
theorem Coherent.sweep (hc : r.Coherent) (p : Identity → Handle → Bool) :
    (r.sweep p).Coherent := by
  intro name
  rw [Table.contains]
  change ((r.sweep p).metadataFor? name).isSome = _
  rw [metadataFor?_sweep]
  cases hn : (r.sweep p).hasName name with
  | false => rfl
  | true => exact (hc name).trans (hasName_of_hasName_sweep hn)

/-- Sweeps whose conditions agree on the live instruments have the same result. -/
theorem sweep_congr (h : ∀ id h, r.instrument? id = some h → p id h = q id h) :
    r.sweep p = r.sweep q := by
  have hi : r.instruments.filter (fun id h => !p id h) =
      r.instruments.filter fun id h => !q id h :=
    Table.filter_congr fun id x hx => congrArg Bool.not (h id x hx)
  simp only [Registry.sweep, hi]

/-- A registry with the instruments of a sweep, and with the earlier metadata of exactly the names
that are left, is the swept registry. -/
theorem eq_sweep (hi : ∀ id, s.instrument? id = (r.sweep p).instrument? id)
    (hlive : ∀ name, s.hasName name = true → s.metadataFor? name = r.metadataFor? name)
    (hdead : ∀ name, s.hasName name = false → s.metadataFor? name = none) : s = r.sweep p := by
  refine ext_lookups (fun name => ?_) hi
  have hn : (r.sweep p).hasName name = s.hasName name := by
    rw [Bool.eq_iff_iff, hasName_iff_instrument?, hasName_iff_instrument?]
    simp only [hi]
  rw [metadataFor?_sweep, hn]
  cases hs : s.hasName name with
  | false => exact hdead name hs
  | true => exact hlive name hs

/-- A sweep that meets no instrument changes nothing in a coherent registry. -/
theorem Coherent.sweep_eq_self (hc : r.Coherent)
    (hp : ∀ id h, r.instrument? id = some h → p id h = false) : r.sweep p = r := by
  refine (eq_sweep (fun id => ?_) (fun _ _ => rfl) fun name hn => ?_).symm
  · rw [instrument?_sweep]
    cases hl : r.instrument? id with
    | none => rfl
    | some h =>
      rw [Option.filter_some, hp id h hl]
      rfl
  · exact hc.metadataFor?_eq_none hn

/-- Two sweeps are one sweep of what satisfies either condition. -/
theorem sweep_sweep (r : Registry) (p q : Identity → Handle → Bool) :
    (r.sweep p).sweep q = r.sweep fun id h => p id h || q id h := by
  refine eq_sweep (fun id => ?_) (fun name hn => ?_) fun name hn => ?_
  · rw [instrument?_sweep, instrument?_sweep, instrument?_sweep, Option.filter_filter]
    simp only [Bool.not_or]
  · rw [metadataFor?_sweep, if_pos hn, metadataFor?_sweep, if_pos (hasName_of_hasName_sweep hn)]
  · rw [metadataFor?_sweep, hn]
    rfl

/-- The registry with one instrument less and all its metadata. -/
def withoutInstrument (r : Registry) (id : Identity) : Registry :=
  { r with instruments := r.instruments.erase id }

/-- Dropping one instrument leaves the instruments that a sweep of its identity leaves. -/
theorem instrument?_withoutInstrument (r : Registry) (id i : Identity) :
    (r.withoutInstrument id).instrument? i = (r.sweep fun i _ => i == id).instrument? i := by
  change (r.instruments.erase id).get? i = _
  rw [Table.get?_erase, instrument?_sweep]
  change _ = Option.filter _ (r.instruments.get? i)
  by_cases hi : i = id
  · simp [hi]
  · cases r.instruments.get? i <;> simp [hi, Option.filter_some]

/-- Only the name of a dropped instrument can lose its last one. -/
theorem hasName_withoutInstrument_of_ne (hne : name ≠ id.name) :
    (r.withoutInstrument id).hasName name = r.hasName name := by
  rw [Bool.eq_iff_iff, hasName_iff_instrument?, hasName_iff_instrument?]
  simp only [instrument?_withoutInstrument, instrument?_sweep_eq_some_iff, beq_eq_false_iff_ne]
  constructor
  · rintro ⟨i, h, ⟨hi, -⟩, hn⟩
    exact ⟨i, h, hi, hn⟩
  · rintro ⟨i, h, hi, hn⟩
    exact ⟨i, h, ⟨hi, fun he => hne (he ▸ hn.symm)⟩, hn⟩

/-- Removal of a live identity drops its instrument, and the metadata only with the name's last
instrument. -/
theorem remove_of_live (hl : r.instruments.contains id = true) :
    (r.remove id).2 =
      if (r.withoutInstrument id).hasName id.name then r.withoutInstrument id
      else { r.withoutInstrument id with metadata := r.metadata.erase id.name } := by
  simp only [remove, hl, if_true]
  rfl

/-- Removal of an identity is a sweep of that identity. -/
theorem Coherent.remove_eq_sweep (hc : r.Coherent) (id : Identity) :
    (r.remove id).2 = r.sweep fun i _ => i == id := by
  cases hl : r.instruments.contains id with
  | false =>
    rw [remove_of_absent hl]
    refine (hc.sweep_eq_self fun i h hi => ?_).symm
    have hne : i ≠ id := by
      rintro rfl
      rw [contains_instruments_iff.mpr ⟨h, hi⟩] at hl
      contradiction
    simpa using hne
  | true =>
    have hdead (name : String) (hne : name ≠ id.name)
        (hn : (r.withoutInstrument id).hasName name = false) : r.metadataFor? name = none :=
      hc.metadataFor?_eq_none (hasName_withoutInstrument_of_ne hne ▸ hn)
    rw [remove_of_live hl]
    cases hlast : (r.withoutInstrument id).hasName id.name with
    | true =>
      rw [if_pos rfl]
      refine eq_sweep (instrument?_withoutInstrument r id) (fun _ _ => rfl) fun name hname => ?_
      refine hdead name (fun he => ?_) hname
      rw [he, hlast] at hname
      contradiction
    | false =>
      rw [if_neg Bool.false_ne_true]
      have herase (name : String) : (r.metadata.erase id.name).get? name =
          if name = id.name then none else r.metadataFor? name := Table.get?_erase _ _ _
      refine eq_sweep (instrument?_withoutInstrument r id) (fun name hname => ?_)
        fun name hname => ?_
      · have hne : name ≠ id.name := by
          rintro rfl
          exact Bool.false_ne_true (hlast.symm.trans hname)
        exact (herase name).trans (if_neg hne)
      · refine (herase name).trans ?_
        split
        · rfl
        · rename_i hne
          exact hdead name hne hname

/-- Removing several identities is one sweep of all of them. -/
theorem Coherent.removeAll_eq_sweep (hc : r.Coherent) (ids : List Identity) :
    (r.removeAll ids).2 = r.sweep fun i _ => ids.contains i := by
  -- Removals one after the other are sweeps one after the other, and these are one sweep.
  induction ids generalizing r with
  | nil => exact (hc.sweep_eq_self fun _ _ _ => rfl).symm
  | cons id rest ih =>
    change ((r.remove id).2.removeAll rest).2 = _
    rw [hc.remove_eq_sweep, ih (hc.sweep _), sweep_sweep]
    simp only [List.contains_cons]

/-- Removal of what satisfies a condition is a sweep of that condition. -/
theorem Coherent.removeMatching_eq_sweep (hc : r.Coherent) (p : Identity → Handle → Bool) :
    (r.removeMatching p).2 = r.sweep p := by
  rw [removeMatching, hc.removeAll_eq_sweep]
  refine sweep_congr fun id h hl => ?_
  rw [Bool.eq_iff_iff, List.contains_iff_mem, Table.mem_keys_iff, Table.contains_iff,
    Table.get?_filter]
  change (∃ v, Option.filter (p id) (r.instrument? id) = some v) ↔ _
  rw [hl]
  cases hp : p id h <;> simp [hp, Option.filter_some]

/-- Removal of a name leaves the instruments that a sweep of its identities leaves. -/
theorem instrument?_removeByName (r : Registry) (name : String) (id : Identity) :
    (r.removeByName name).2.instrument? id =
      (r.sweep fun id _ => id.name == name).instrument? id := rfl

/-- Removal of a name leaves the other names live. -/
theorem hasName_removeByName_iff {n : String} :
    (r.removeByName name).2.hasName n = true ↔ n ≠ name ∧ r.hasName n = true := by
  rw [hasName_iff_instrument?, hasName_iff_instrument?]
  simp only [instrument?_removeByName, instrument?_sweep_eq_some_iff, beq_eq_false_iff_ne]
  constructor
  · rintro ⟨id, h, ⟨hl, hne⟩, rfl⟩
    exact ⟨hne, id, h, hl, rfl⟩
  · rintro ⟨hne, id, h, hl, rfl⟩
    exact ⟨id, h, ⟨hl, hne⟩, rfl⟩

/-- Removal of a name is a sweep of its identities. -/
theorem Coherent.removeByName_eq_sweep (hc : r.Coherent) (name : String) :
    (r.removeByName name).2 = r.sweep fun id _ => id.name == name := by
  have herase (n : String) : (r.removeByName name).2.metadataFor? n =
      if n = name then none else r.metadataFor? n := Table.get?_erase _ _ _
  refine eq_sweep (instrument?_removeByName r name) (fun n hn => ?_) fun n hn => ?_
  · rw [herase, if_neg (hasName_removeByName_iff.mp hn).1]
  · rw [herase]
    split
    · rfl
    · rename_i hne
      refine hc.metadataFor?_eq_none (Bool.eq_false_iff.mpr fun hlive => ?_)
      rw [hasName_removeByName_iff.mpr ⟨hne, hlive⟩] at hn
      contradiction

/-- Removing everything is a sweep of everything. -/
theorem clear_eq_sweep (r : Registry) : r.clear = r.sweep fun _ _ => true := by
  refine eq_sweep (fun id => ?_) (fun n hn => ?_) fun n hn => rfl
  · rw [instrument?_sweep]
    change none = _
    cases r.instrument? id <;> rfl
  · contradiction

end Telemetry.Registry
