import Telemetry.Proofs.Export.Mirror
import Telemetry.Proofs.World.Following

/-!
# Scopes keep to themselves

A registry outlives its scope for those who hold on to it, and the scope can be asked for again. Such a
registry never comes back to a scope: what is done in it is not seen by any export. What is done in the
registry of one scope leaves the other scopes alone.
-/

namespace Telemetry.World

variable {w v : World} {k : RegistryKey}

section Inside

/-- A registration in a registry, or a removal from it. -/
def Act.Within (k : RegistryKey) : Act → Prop
  | .enrol i _ | .remove i _ | .removeByName i _ | .removeMatching i _ | .clear i => i = k
  | _ => False

/-- A world that differs in one registry only, and in instruments that were not there before. -/
structure Inside (k : RegistryKey) (w v : World) : Prop where
  now : v.now = w.now
  scopes : v.scopes = w.scopes
  size : v.registries.size = w.registries.size
  registry : ∀ i, i ≠ k → v.registry i = w.registry i
  content : ∀ h, w.store.Gave h → v.store.content h = w.store.content h

/-- A world with another registry, and with the instruments that were there. -/
theorem inside_replace {s : Store} (r : Registry)
    (hcontent : ∀ h, w.store.Gave h → s.content h = w.store.content h) :
    Inside k w ({ w with store := s }.setRegistry k r) where
  now := rfl
  scopes := rfl
  size := Array.size_setIfInBounds
  registry i hi := by
    rw [registry_setRegistry, if_neg fun h => hi (congrArg RegistryKey.mk h.1)]
    rfl
  content := hcontent

/-- Registrations and removals stay inside their registry. -/
theorem Act.Within.inside {a : Act} (ha : a.Within k) (w : World) : Inside k w (a.run w).2 := by
  cases a with
  | enrol i e =>
    obtain rfl : i = k := ha
    apply inside_replace
    intro h hw
    obtain ⟨-, hs⟩ | ⟨source, -, -, hs⟩ := e.run_instruments w (w.registry i) w.store
    · exact congrArg (·.content h) hs
    · exact (congrArg (·.content h) hs).trans (source.content_factory w hw)
  | remove i id =>
    obtain rfl : i = k := ha
    exact inside_replace _ fun _ _ => rfl
  | removeByName i name =>
    obtain rfl : i = k := ha
    exact inside_replace _ fun _ _ => rfl
  | removeMatching i p =>
    obtain rfl : i = k := ha
    exact inside_replace _ fun _ _ => rfl
  | clear i =>
    obtain rfl : i = k := ha
    exact inside_replace _ fun _ _ => rfl
  | _ => contradiction

/-- Scrapes are answered alike if the registry is none of a live scope. -/
theorem Inside.scrape_eq (hi : Inside k w v) (ht : w.Tidy) (hk : ∀ s, w.scope? s ≠ some k)
    (e : Scrape) : (e.run v).1 = (e.run w).1 := by
  have hmirror : Mirror Eq (fun h h' => h' = h ∧ w.store.Gave h) (· ≠ k) w v :=
    { now := hi.now
      scopes := hi.scopes
      size := hi.size
      live := by
        rintro s _ hs rfl
        exact hk s hs
      metadata := fun i hne name => Related.rel_eq_iff.mpr (by rw [hi.registry i hne])
      instruments := fun i hne id => by
        rw [hi.registry i hne]
        cases hl : (w.registry i).instrument? id with
        | none => exact .none
        | some h => exact .some ⟨rfl, ht.gave i id h hl⟩
      content := by
        rintro h _ ⟨rfl, hgave⟩
        rw [Store.SameAt, hi.content _ hgave] }
  have hcarries : Carries (Mirror Eq (fun h h' => h' = h ∧ w.store.Gave h) (· ≠ k)) Eq
      (fun h h' => h' = h ∧ w.store.Gave h) (· ≠ k) := by
    apply carries_mirror
    · rintro m _ rfl
      exact ⟨rfl, rfl⟩
    · rintro h _ ⟨rfl, -⟩
      rfl
  exact (along_scrape hcarries e hmirror).1.symm

end Inside

section Runs

/-- What is done in a registry will not be seen: whatever is done first, a registration in it or a removal
from it then leaves the live scopes and their registries as they are, and the answers of all scrapes. -/
def Unheeded (w : World) (k : RegistryKey) : Prop :=
  ∀ later, w.Offers later → ∀ a : Act, a.Within k →
    let u := w.after later
    let v := (a.run u).2
    v.scopes = u.scopes ∧
      (∀ s i, u.scope? s = some i → i ≠ k ∧ v.registry i = u.registry i) ∧
      ∀ e : Scrape, (e.run v).1 = (e.run u).1

/-- A retired registry is unheeded. -/
theorem Tidy.unheeded (ht : w.Tidy) (hk : w.Retired k) : w.Unheeded k := by
  intro later hlater a ha u v
  have hfollows := ht.follows_after hlater
  have hu := ht.follows hfollows
  have hretired := hk.follows hfollows
  have hinside := ha.inside u
  refine ⟨hinside.scopes, fun s i hs => ?_, hinside.scrape_eq hu hretired.2⟩
  have hne : i ≠ k := by
    rintro rfl
    exact hretired.2 s hs
  exact ⟨hne, hinside.registry i hne⟩

end Runs

/-- How scopes keep to themselves. -/
structure Separate (w : World) : Prop where
  /-- Two live scopes never share a registry. -/
  apart : ∀ s s' k, w.scope? s = some k → w.scope? s' = some k → s' = s
  /-- A live scope keeps its registry when it is asked for. -/
  again : ∀ s k, w.scope? s = some k → w.init s = (k, w)
  /-- Another scope becomes live with an empty registry that nobody had before. -/
  fresh : ∀ s, w.scope? s = none →
    let (k, v) := w.init s
    k.index = w.registries.size ∧ v.scope? s = some k ∧ v.registry k = .empty ∧
      (∀ s', s' ≠ s → v.scope? s' = w.scope? s') ∧ ∀ i, v.registry i = w.registry i
  /-- The registry of a dropped scope is emptied, and unheeded from then on. -/
  dropped : ∀ s k, w.scope? s = some k →
    let v := (w.dropScope s).2
    v.scope? s = none ∧ v.registry k = .empty ∧ v.Unheeded k
  /-- So it is when all scopes are dropped. -/
  droppedAll : ∀ s k, w.scope? s = some k →
    w.dropAll.scope? s = none ∧ w.dropAll.registry k = .empty ∧ w.dropAll.Unheeded k
  /-- A registry that is made for no scope is unheeded. -/
  standAlone : w.newRegistry.2.Unheeded w.newRegistry.1
  /-- What is done in the registry of a live scope leaves the others alone. -/
  others : ∀ s k, w.scope? s = some k → ∀ a : Act, a.Within k →
    let v := (a.run w).2
    v.scopes = w.scopes ∧
      ∀ s' i, s' ≠ s → w.scope? s' = some i → v.registry i = w.registry i ∧
        ∀ id h, (w.registry i).instrument? id = some h → v.store.content h = w.store.content h

section Dropping

/-- A registry was emptied, and no other. -/
theorem registry_clearRegistry (w : World) (k i : RegistryKey) :
    (w.clearRegistry k).registry i = if i = k then .empty else w.registry i := by
  rw [clearRegistry, registry_setRegistry]
  by_cases hi : i = k
  · subst hi
    rw [if_pos rfl]
    split
    · rfl
    · rename_i hsize
      have hnone : w.registries[i.index]? = none :=
        Array.getElem?_eq_none (Nat.le_of_not_lt fun h => hsize ⟨rfl, h⟩)
      rw [registry, Array.getD_eq_getD_getElem?, hnone]
      rfl
  · rw [if_neg hi, if_neg fun h => hi (congrArg RegistryKey.mk h.1)]

/-- Registries were emptied one after the other, and no others. -/
theorem registry_clearRegistries (w : World) (ks : List RegistryKey) (i : RegistryKey) :
    (ks.foldl World.clearRegistry w).registry i = if i ∈ ks then .empty else w.registry i := by
  induction ks generalizing w with
  | nil => rfl
  | cons k rest ih =>
    rw [List.foldl_cons, ih, registry_clearRegistry]
    by_cases hrest : i ∈ rest
    · simp [hrest]
    · by_cases hk : i = k <;> simp [hrest, hk]

/-- A dropped scope is not live, and its registry is retired. -/
theorem Tidy.dropScope (ht : w.Tidy) {s : Scope} (hs : w.scope? s = some k) :
    let v := (w.dropScope s).2
    v.scope? s = none ∧ v.registry k = .empty ∧ v.Retired k := by
  have hsize := (w.follows_dropScope s).size
  have hdrop : (w.dropScope s).2 = { w with scopes := w.scopes.erase s }.clearRegistry k := by
    simp only [World.dropScope, hs]
  have hscope (s' : Scope) :
      (w.dropScope s).2.scope? s' = if s' = s then none else w.scope? s' := by
    rw [hdrop]
    exact Table.get?_erase _ _ _
  refine ⟨(hscope s).trans (if_pos rfl), ?_, (ht.made s k hs).trans_le hsize, fun s' hs' => ?_⟩
  · rw [hdrop, registry_clearRegistry, if_pos rfl]
  · rw [hscope] at hs'
    split at hs'
    · contradiction
    · rename_i hne
      exact hne (ht.apart s s' k hs hs')

/-- When all scopes are dropped none is live, and their registries are retired. -/
theorem Tidy.dropAll (ht : w.Tidy) {s : Scope} (hs : w.scope? s = some k) :
    w.dropAll.scope? s = none ∧ w.dropAll.registry k = .empty ∧ w.dropAll.Retired k := by
  have hscopes (v : World) (ks : List RegistryKey) :
      (ks.foldl World.clearRegistry v).scopes = v.scopes := by
    induction ks generalizing v with
    | nil => rfl
    | cons k rest ih => exact ih (v.clearRegistry k)
  have hnone (s' : Scope) : w.dropAll.scope? s' = none := by
    rw [scope?, World.dropAll, hscopes]
    rfl
  have hmem : k ∈ w.scopes.values :=
    List.mem_map.mpr ⟨(s, k), Table.get?_eq_some_iff.mp hs, rfl⟩
  refine ⟨hnone s, ?_, (ht.made s k hs).trans_le w.follows_dropAll.size, fun s' hs' => ?_⟩
  · rw [World.dropAll, registry_clearRegistries, if_pos hmem]
  · rw [hnone] at hs'
    contradiction

/-- A registry that is made for no scope is retired. -/
theorem Tidy.newRegistry (ht : w.Tidy) : w.newRegistry.2.Retired w.newRegistry.1 := by
  refine ⟨?_, ht.ne_next⟩
  simp only [World.newRegistry, Array.size_push, Nat.lt_add_one]

end Dropping

/-- In a tidy world scopes keep to themselves. -/
theorem Tidy.separate (ht : w.Tidy) : w.Separate where
  apart := ht.apart
  again _ _ := init_of_live
  fresh s hs := by
    have hscope := scope?_init_of_not_live hs
    rw [init_of_not_live hs] at hscope ⊢
    have hregistry (i : RegistryKey) := registry_push w i
    refine ⟨rfl, (hscope s).trans (if_pos rfl), (hregistry _).trans ?_, fun s' hs' => ?_, hregistry⟩
    · exact Array.getD_eq_getD_getElem?.trans (by rw [Array.getElem?_size]; rfl)
    · exact (hscope s').trans (if_neg hs')
  dropped s k hs := by
    obtain ⟨hnone, hempty, hretired⟩ := ht.dropScope hs
    exact ⟨hnone, hempty, (ht.follows (w.follows_dropScope s)).unheeded hretired⟩
  droppedAll s k hs := by
    obtain ⟨hnone, hempty, hretired⟩ := ht.dropAll hs
    exact ⟨hnone, hempty, (ht.follows w.follows_dropAll).unheeded hretired⟩
  standAlone := (ht.follows w.follows_newRegistry).unheeded ht.newRegistry
  others s k hs a ha := by
    have hinside := ha.inside w
    refine ⟨hinside.scopes, fun s' i hne hs' => ?_⟩
    have hi : i ≠ k := by
      rintro rfl
      exact hne (ht.apart s s' i hs hs')
    exact ⟨hinside.registry i hi, fun id h hl => hinside.content h (ht.gave i id h hl)⟩

/-- Scopes keep to themselves after every run in which only instruments are handed over that were made:
live scopes never share a registry, a scope that is not live gets a new and empty one when it is asked for,
the registry of a dropped scope is emptied and what is done in it later is not seen, and what is done in
the registry of one scope leaves the others alone. -/
theorem separate_after (capacity : Nat) (acts : List Act) (hacts : (start capacity).Offers acts) :
    ((start capacity).after acts).Separate :=
  ((tidy_start capacity).follows ((tidy_start capacity).follows_after hacts)).separate

/-- A counter is registered in a scope, in the registry that it had before it was dropped, and in the one
that it has now. -/
theorem separate_after_drop :
    let acts : List Act := [.init "s", .create (.counter 5),
      .enrol ⟨0⟩ (.register (.name "hits") [] (.counter 0)), .dropScope "s", .init "s",
      .enrol ⟨0⟩ (.instrument (.name "stale") [] .meter),
      .enrol ⟨1⟩ (.register (.name "hits") [] (.counter 0))]
    let w := (start 16).after acts
    (start 16).Offers acts ∧ w.scope? "s" = some ⟨1⟩ ∧ w.Separate := by
  intro acts w
  have hoffers : (start 16).Offers acts := by
    refine ⟨trivial, trivial, ?_, trivial, trivial, ?_, ?_, trivial⟩
    · rintro _ rfl
      exact Nat.one_pos
    · rintro _ rfl
      trivial
    · rintro _ rfl
      exact Nat.one_pos
  exact ⟨hoffers, by decide, separate_after 16 acts hoffers⟩

end Telemetry.World
