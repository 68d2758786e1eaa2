import Mathlib.Data.List.Perm.Subperm
import Mathlib.Data.UInt
import Telemetry.Sampling.Reservoir

/-!
# What a reservoir retains

A reservoir takes every value into a slot of its own as long as there is a vacant one. From then on a
value takes the place of another one or is let go of, so what is retained is part of what was pushed,
each push at most once, whatever numbers are drawn. Snapshots may be taken at any time.
-/

namespace Telemetry.Sampling.Reservoir

/-- What is done with a reservoir. -/
inductive Use where
  /-- A value is pushed, with the number drawn for it. -/
  | push (x : Float) (draw : Nat)
  /-- A snapshot is taken. -/
  | snapshot

/-- What a use pushes. -/
def Use.pushed? : Use → Option Float
  | .push x _ => some x
  | .snapshot => none

/-- A reservoir after a use. -/
def after (r : Reservoir) : Use → Reservoir
  | .push x draw => r.push x draw
  | .snapshot => r

/-- The values that a history pushes, in order. -/
def pushed (uses : List Use) : List Float := uses.filterMap Use.pushed?

/-- What a reservoir for `n` values holds after some values were pushed: these in order, as long as
there are slots for all of them, and part of them afterwards. -/
structure Keeps (n : Nat) (done : List Float) (r : Reservoir) : Prop where
  capacity : r.capacity = max n 1
  pushes : r.pushes.toNat = done.length
  filling : done.length ≤ max n 1 →
    r.slots.toList = done ++ List.replicate (max n 1 - done.length) vacant
  full : max n 1 ≤ done.length → r.slots.toList.Subperm done

variable {n : Nat} {done : List Float} {r : Reservoir}

/-- A value that takes the place of another one leaves the rest as it was. -/
theorem set_subperm {l m : List Float} (h : l.Subperm m) (i : Nat) (x : Float) :
    (l.set i x).Subperm (m ++ [x]) := by
  by_cases hi : i < l.length
  · have hset : (l.set i x).Perm (x :: l.eraseIdx i) := List.set_perm_cons_eraseIdx hi x
    have hrest : (l.eraseIdx i).Subperm m := (List.eraseIdx_sublist l i).subperm.trans h
    have hlast : (x :: m).Perm (m ++ [x]) := (List.perm_append_singleton x m).symm
    exact hset.subperm.trans (((List.subperm_cons x).mpr hrest).trans hlast.subperm)
  · rw [List.set_eq_of_length_le (Nat.le_of_not_lt hi)]
    exact h.trans (List.sublist_append_left m [x]).subperm

/-- A new reservoir has vacant slots only. -/
theorem keeps_ofCapacity (n : Nat) : Keeps n [] (ofCapacity n) where
  capacity := capacity_ofCapacity n
  pushes := rfl
  filling _ := Array.toList_replicate
  full hfull := by
    rw [List.length_nil] at hfull
    omega

/-- A value that is pushed takes a vacant slot if there is one, and the slot of another value or none
otherwise. -/
theorem Keeps.push (h : Keeps n done r) (hsize : done.length + 1 < 2 ^ 64) (x : Float) (draw : Nat) :
    Keeps n (done ++ [x]) (r.push x draw) := by
  have hlength : (done ++ [x]).length = done.length + 1 := List.length_append
  have hslots : (r.push x draw).slots.toList = r.slots.toList.set (r.slotFor draw) x :=
    Array.toList_setIfInBounds
  have hslot : r.slotFor draw = if done.length < max n 1 then done.length else draw := by
    rw [slotFor, h.pushes, h.capacity]
  -- With room for one more value, that one follows the others.
  have hfilling (hroom : done.length < max n 1) : (r.push x draw).slots.toList =
      (done ++ [x]) ++ List.replicate (max n 1 - (done.length + 1)) vacant := by
    have hvacant : max n 1 - done.length = max n 1 - (done.length + 1) + 1 := by omega
    rw [hslots, hslot, if_pos hroom, h.filling (Nat.le_of_lt hroom), hvacant, List.replicate_succ,
      List.set_append_right _ _ (Nat.le_refl _), Nat.sub_self, List.set_cons_zero,
      List.append_cons]
  constructor
  case capacity =>
    rw [capacity_push]
    exact h.capacity
  case pushes =>
    have hone : (1 : UInt64).toNat = 1 := rfl
    change (r.pushes + 1).toNat = _
    rw [UInt64.toNat_add, h.pushes, hone, hlength]
    exact Nat.mod_eq_of_lt hsize
  case filling =>
    intro hroom
    rw [hlength] at hroom ⊢
    exact hfilling hroom
  case full =>
    intro hfull
    rw [hlength] at hfull
    by_cases hroom : done.length < max n 1
    · have hnone : max n 1 - (done.length + 1) = 0 := by omega
      rw [hfilling hroom, hnone, List.replicate_zero, List.append_nil]
    · rw [hslots]
      exact set_subperm (h.full (Nat.le_of_not_lt hroom)) _ x

/-- Snapshots between the pushes of a history make no difference to what is kept. -/
theorem Keeps.run (h : Keeps n done r) (uses : List Use)
    (hsize : (done ++ pushed uses).length < 2 ^ 64) :
    Keeps n (done ++ pushed uses) (uses.foldl after r) := by
  induction uses generalizing done r with
  | nil =>
    rw [pushed, List.filterMap_nil, List.append_nil]
    exact h
  | cons use rest ih =>
    cases use with
    | push x draw =>
      have hpushed : pushed (.push x draw :: rest) = x :: pushed rest := rfl
      rw [hpushed, List.append_cons] at hsize ⊢
      have hroom : done.length + 1 < 2 ^ 64 := by
        rw [List.length_append, List.length_append, List.length_singleton] at hsize
        omega
      exact ih (h.push hroom x draw) hsize
    | snapshot => exact ih h hsize

/-- While there are slots for all values, they are all retained. -/
theorem Keeps.retained_eq (h : Keeps n done r) (hroom : done.length ≤ max n 1) :
    r.retained = done := by
  rw [retained, h.pushes, h.capacity, h.filling hroom, Nat.min_eq_left hroom]
  exact List.take_left

/-- Once there is a value for each slot, all slots are read. -/
theorem Keeps.retained_eq_slots (h : Keeps n done r) (hfull : max n 1 ≤ done.length) :
    r.retained = r.slots.toList := by
  have hlength : r.slots.toList.length = max n 1 := h.capacity
  rw [retained, h.pushes, h.capacity, Nat.min_eq_right hfull]
  exact List.take_of_length_le (Nat.le_of_eq hlength)

/-- What is retained is part of what was pushed. -/
theorem Keeps.subperm (h : Keeps n done r) : r.retained.Subperm done := by
  obtain hroom | hfull := Nat.le_total done.length (max n 1)
  · rw [h.retained_eq hroom]
  · rw [h.retained_eq_slots hfull]
    exact h.full hfull

/-- As many values are retained as were pushed, or as there are slots for. -/
theorem Keeps.length_retained (h : Keeps n done r) :
    r.retained.length = min done.length (max n 1) := by
  have hlength : r.slots.toList.length = max n 1 := h.capacity
  rw [retained, List.length_take, hlength, h.pushes, h.capacity]
  omega

/-- Vacant slots would be left out of a snapshot if they were read. -/
theorem Keeps.snapshot_eq (h : Keeps n done r) : r.snapshot = .ofList r.slots.toList := by
  obtain hroom | hfull := Nat.le_total done.length (max n 1)
  · have hvacant (k : Nat) : (List.replicate k vacant).filter (fun x => !x.isNaN) = [] := by
      apply List.filter_eq_nil_iff.mpr
      intro x hx
      rw [List.eq_of_mem_replicate hx, isNaN_vacant]
      decide
    rw [snapshot, h.retained_eq hroom, h.filling hroom, Snapshot.ofList, Snapshot.ofList,
      List.filter_append, hvacant, List.append_nil]
  · rw [snapshot, h.retained_eq_slots hfull]

/-- A history without its snapshots leads to the same reservoir. -/
theorem foldl_after_pushes (r : Reservoir) (uses : List Use) :
    (uses.filter fun use => use.pushed?.isSome).foldl after r = uses.foldl after r := by
  induction uses generalizing r with
  | nil => rfl
  | cons use rest ih =>
    cases use with
    | push x draw => exact ih (r.push x draw)
    | snapshot => exact ih r

/-- After any history a snapshot is in total order, has no NaN and is part of what was pushed, each push
at most once, whatever numbers were drawn. If no NaN was pushed, it has as many values as there are pushes
or slots, whichever are fewer; while there are slots for all pushes, it has everything but the NaNs. Vacant
slots do not show, nor do earlier snapshots. -/
theorem snapshot_of_pushed (n : Nat) (uses : List Use) (hsize : (pushed uses).length < 2 ^ 64) :
    let r := uses.foldl after (ofCapacity n)
    let values := r.snapshot.values
    values.Pairwise (fun a b => rankKey a ≤ rankKey b) ∧
      (∀ x ∈ values, x.isNaN = false) ∧
      values.Subperm (pushed uses) ∧
      ((∀ x ∈ pushed uses, x.isNaN = false) → values.length = min (pushed uses).length (max n 1)) ∧
      ((pushed uses).length ≤ max n 1 → values.Perm ((pushed uses).filter fun x => !x.isNaN)) ∧
      r.snapshot = .ofList r.slots.toList ∧
      (uses.filter fun use => use.pushed?.isSome).foldl after (ofCapacity n) = r := by
  intro r values
  have h : Keeps n (pushed uses) r := (keeps_ofCapacity n).run uses hsize
  have hvalues : values.Perm (r.retained.filter fun x => !x.isNaN) := Snapshot.ofList_perm r.retained
  refine ⟨Snapshot.ofList_ordered r.retained, ?_, ?_, ?_, ?_, h.snapshot_eq, foldl_after_pushes _ uses⟩
  · intro x hx
    obtain ⟨-, hkept⟩ := List.mem_filter.mp (hvalues.mem_iff.mp hx)
    rwa [Bool.not_eq_true'] at hkept
  · exact hvalues.subperm.trans (List.filter_sublist.subperm.trans h.subperm)
  · intro hnumbers
    have hall : (r.retained.filter fun x => !x.isNaN) = r.retained := by
      apply List.filter_eq_self.mpr
      intro x hx
      rw [hnumbers x (h.subperm.subset hx)]
      rfl
    rw [hvalues.length_eq, hall, h.length_retained]
  · intro hroom
    rw [h.retained_eq hroom] at hvalues
    exact hvalues

/-- Four values are pushed into a reservoir for two: a NaN takes the second slot, a negative zero takes
it over, and the last value is not retained. -/
theorem snapshot_of_pushed_replacing :
    let uses : List Use :=
      [.push 1.0 0, .snapshot, .push vacant 1, .push (-0.0) 1, .snapshot, .push 0.0 2]
    let values := (uses.foldl after (ofCapacity 2)).snapshot.values
    (pushed uses).length < 2 ^ 64 ∧ values = [-0.0, 1.0] ∧ values.Subperm (pushed uses) := by
  intro uses values
  have hsize : (pushed uses).length < 2 ^ 64 := by decide
  have hretained : (uses.foldl after (ofCapacity 2)).retained = [1.0, -0.0] := by decide
  have hnumbers : ([1.0, -0.0] : List Float).filter (fun x => !x.isNaN) = [1.0, -0.0] := by decide
  have hle : totalLe 1.0 (-0.0) = false := by decide
  have hvalues : values = [-0.0, 1.0] := by
    change (Snapshot.ofList (uses.foldl after (ofCapacity 2)).retained).values = _
    rw [hretained, Snapshot.ofList, hnumbers]
    simp [sortTotal, List.mergeSort, hle]
  obtain ⟨-, -, hsubperm, -⟩ := snapshot_of_pushed 2 uses hsize
  exact ⟨hsize, hvalues, hsubperm⟩

end Telemetry.Sampling.Reservoir
