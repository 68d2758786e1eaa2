import Telemetry.Proofs.Registry.Consistency

/-!
# All ways to remove agree

An identity, a name and everything are removed by algorithms of their own, and a condition by removing
one identity after the other. What each leaves is one sweep of the instruments that it is meant for;
here the answers are added to that. So a removal can be replaced by any other that is meant for the
same instruments, and the order in which identities are removed makes no difference.
-/

namespace Telemetry.Registry

variable {r : Registry} {p : Identity → Handle → Bool} {id : Identity} {name : String}

/-- Removal of an identity is answered by whether it was live. -/
theorem fst_remove (r : Registry) (id : Identity) : (r.remove id).1 = r.instruments.contains id := by
  rw [remove]
  split
  · rename_i hl
    exact hl.symm
  · rename_i hl
    exact (Bool.eq_false_iff.mpr hl).symm

/-- Removal of several identities is answered by whether one of them was live. -/
theorem fst_removeAll_iff (r : Registry) (ids : List Identity) :
    (r.removeAll ids).1 = true ↔ ∃ id ∈ ids, r.instruments.contains id = true := by
  induction ids generalizing r with
  | nil => simp [removeAll]
  | cons id rest ih =>
    change ((r.remove id).1 || ((r.remove id).2.removeAll rest).1) = true ↔ _
    simp only [Bool.or_eq_true, fst_remove, ih, List.mem_cons, exists_eq_or_imp]
    cases hl : r.instruments.contains id with
    | true => simp
    | false => rw [remove_of_absent hl]

/-- Removal of several identities leaves what their removal one by one leaves. -/
theorem snd_removeAll (r : Registry) (ids : List Identity) :
    (r.removeAll ids).2 = ids.foldl (fun s id => (s.remove id).2) r := by
  induction ids generalizing r with
  | nil => rfl
  | cons id rest ih => exact ih (r.remove id).2

/-- The identities that a condition removes. -/
theorem mem_keys_filter_iff :
    id ∈ (r.instruments.filter p).keys ↔ ∃ h, r.instrument? id = some h ∧ p id h = true := by
  simp only [Table.mem_keys_iff, Table.contains_iff, Table.get?_filter, Option.filter_eq_some_iff]
  rfl

/-- Removal of what satisfies a condition is answered by whether an instrument satisfies it. -/
theorem fst_removeMatching_iff :
    (r.removeMatching p).1 = true ↔ ∃ id h, r.instrument? id = some h ∧ p id h = true := by
  rw [removeMatching, fst_removeAll_iff]
  constructor
  · rintro ⟨id, hid, -⟩
    exact ⟨id, mem_keys_filter_iff.mp hid⟩
  · rintro ⟨id, h, hl, hp⟩
    exact ⟨id, mem_keys_filter_iff.mpr ⟨h, hl, hp⟩, contains_instruments_iff.mpr ⟨h, hl⟩⟩

/-- The metadata that a sweep leaves is that of the names which have an instrument left. -/
theorem metadataFor?_sweep_eq_some_iff {m : Metadata} :
    (r.sweep p).metadataFor? name = some m ↔ r.metadataFor? name = some m ∧
      ∃ id h, r.instrument? id = some h ∧ p id h = false ∧ id.name = name := by
  rw [metadataFor?_sweep, ← hasName_sweep_iff]
  cases (r.sweep p).hasName name <;> simp

/-- Removal one by one in any order leaves what is left by the removal of all identities that satisfy
a condition. -/
theorem Coherent.foldl_remove_of_perm (hc : r.Coherent) {ids : List Identity}
    (h : ids.Perm (r.instruments.filter p).keys) :
    ids.foldl (fun s id => (s.remove id).2) r = (r.removeMatching p).2 := by
  rw [removeMatching, ← snd_removeAll, hc.removeAll_eq_sweep, hc.removeAll_eq_sweep]
  apply sweep_congr
  intro id _ _
  rw [Bool.eq_iff_iff, List.contains_iff_mem, List.contains_iff_mem, h.mem_iff]

/-- Removal of a name is removal of all identities that have it. -/
theorem Coherent.removeByName_eq_removeMatching (hc : r.Coherent) (name : String) :
    r.removeByName name = r.removeMatching fun id _ => id.name == name := by
  have hanswer : (r.removeByName name).1 = r.hasName name := by
    change (r.hasName name || r.metadata.contains name) = _
    rw [hc name, Bool.or_self]
  apply Prod.ext
  · rw [hanswer, Bool.eq_iff_iff, fst_removeMatching_iff, hasName_iff_instrument?]
    simp only [beq_iff_eq]
  · rw [hc.removeByName_eq_sweep, hc.removeMatching_eq_sweep]

/-- Removal of an identity is removal of what has this identity. -/
theorem Coherent.remove_eq_removeMatching (hc : r.Coherent) (id : Identity) :
    r.remove id = r.removeMatching fun i _ => i == id := by
  apply Prod.ext
  · rw [fst_remove, Bool.eq_iff_iff, fst_removeMatching_iff, contains_instruments_iff]
    constructor
    · rintro ⟨h, hl⟩
      exact ⟨id, h, hl, beq_self_eq_true id⟩
    · rintro ⟨i, h, hl, hi⟩
      exact ⟨h, beq_iff_eq.mp hi ▸ hl⟩
  · rw [hc.remove_eq_sweep, hc.removeMatching_eq_sweep]

/-- Removal of what satisfies a condition leaves exactly the instruments that do not, with exactly the
metadata of the names that have an instrument left, and is answered by whether there was one that
does. The removal of a name and of an identity have the answer and the result of the removal of what
they are meant for, removal of everything has its result; and so has the removal of all identities
that satisfy the condition, one by one in any order. -/
theorem removals_agree (hr : r.Reachable) :
    (∀ p : Identity → Handle → Bool,
      (∀ id h, (r.removeMatching p).2.instrument? id = some h ↔
        r.instrument? id = some h ∧ p id h = false) ∧
      (∀ name m, (r.removeMatching p).2.metadataFor? name = some m ↔
        r.metadataFor? name = some m ∧
          ∃ id h, r.instrument? id = some h ∧ p id h = false ∧ id.name = name) ∧
      ((r.removeMatching p).1 = true ↔ ∃ id h, r.instrument? id = some h ∧ p id h = true) ∧
      ∀ ids : List Identity, ids.Perm (r.instruments.filter p).keys →
        ids.foldl (fun s id => (s.remove id).2) r = (r.removeMatching p).2) ∧
    (∀ name, r.removeByName name = r.removeMatching fun id _ => id.name == name) ∧
    (∀ id, r.remove id = r.removeMatching fun i _ => i == id) ∧
    r.clear = (r.removeMatching fun _ _ => true).2 := by
  have hc : r.Coherent := hr.coherent
  refine ⟨fun p => ⟨?_, ?_, fst_removeMatching_iff, fun ids => hc.foldl_remove_of_perm⟩,
    hc.removeByName_eq_removeMatching, hc.remove_eq_removeMatching, ?_⟩
  · intro id h
    rw [hc.removeMatching_eq_sweep, instrument?_sweep_eq_some_iff]
  · intro name m
    rw [hc.removeMatching_eq_sweep, metadataFor?_sweep_eq_some_iff]
  · rw [clear_eq_sweep, hc.removeMatching_eq_sweep]

/-- A condition thins out one name and empties another, whichever of its identities goes first. -/
theorem removals_agree_jobs :
    let load : Identity := .of "load" []
    let high : Identity := (jobsOf "high").identity
    let r := (runAll .empty 0 [.register (jobsOf "high"), .register (jobsOf "low"),
      .register (.registerGauge (.name "load") [] 0)]).1
    let p : Identity → Handle → Bool := fun id h => h.kind == .gauge || id == high
    r.Reachable ∧ [load, high].Perm (r.instruments.filter p).keys ∧
      [load, high].foldl (fun s id => (s.remove id).2) r = (r.removeMatching p).2 ∧
      (r.removeMatching p).2.names = ["jobs"] ∧
      r.removeByName "load" = r.removeMatching fun id _ => id.name == "load" := by
  intro load high r p
  have hr : r.Reachable := Reachable.empty.runAll 0 _
  have hids : [load, high].Perm (r.instruments.filter p).keys := by decide
  obtain ⟨hmatching, hname, -, -⟩ := removals_agree hr
  obtain ⟨-, -, -, horder⟩ := hmatching p
  exact ⟨hr, hids, horder _ hids, by decide, hname "load"⟩

end Telemetry.Registry
