import Mathlib.Data.List.GetD
import Mathlib.Data.List.Perm.Basic
import Telemetry.Sampling.Snapshot

/-!
# The nearest rank

The value of a snapshot at a rank is an order statistic: the smallest sample, in total order, that at
least so many samples are not above. Ranks below one and beyond the number of samples are brought to the
nearest one, so the value is found at every rank as long as there are samples.

A quantile has a rank by a product of doubles; nothing is said here about how it is rounded.
-/

namespace Telemetry.Sampling

/-- The samples that a snapshot is made of. -/
def numbers (xs : List Float) : List Float := xs.filter fun x => !x.isNaN

/-- The smallest of some samples that at least `k` of them are not above. -/
structure NearestRank (samples : List Float) (k : Nat) (v : Float) : Prop where
  mem : v ∈ samples
  enough : k ≤ samples.countP (totalLe · v)
  least : ∀ w ∈ samples, k ≤ samples.countP (totalLe · w) → rankKey v ≤ rankKey w

/-- Different doubles have different places in the total order. -/
theorem rankKey_injective {x y : Float} (h : rankKey x = rankKey y) : x = y := by
  have hx : x.toBits.toNat < 2 * signBit := x.toBits.toNat_lt
  have hy : y.toBits.toNat < 2 * signBit := y.toBits.toNat_lt
  have hbits : x.toBits.toNat = y.toBits.toNat := by
    unfold rankKey at h
    dsimp only at h
    split at h <;> split at h <;> omega
  obtain ⟨⟨b, _⟩⟩ := x
  obtain ⟨⟨c, _⟩⟩ := y
  obtain rfl : b = c := UInt64.toNat_inj.mp hbits
  rfl

/-- The smallest such sample is determined. -/
theorem NearestRank.eq {samples : List Float} {k : Nat} {v w : Float} (hv : NearestRank samples k v)
    (hw : NearestRank samples k w) : v = w :=
  rankKey_injective (Nat.le_antisymm (hv.least w hw.mem hw.enough) (hw.least v hv.mem hv.enough))

/-- The order of the samples is of no importance. -/
theorem NearestRank.of_perm {samples others : List Float} {k : Nat} {v : Float}
    (h : NearestRank samples k v) (hperm : samples.Perm others) : NearestRank others k v where
  mem := hperm.mem_iff.mp h.mem
  enough := by
    rw [← hperm.countP_eq]
    exact h.enough
  least w hw hcount := by
    rw [← hperm.countP_eq] at hcount
    exact h.least w (hperm.mem_iff.mpr hw) hcount

section Ordered

variable {l : List Float}

/-- In an ordered list the samples that are not above a value come first. -/
theorem lt_countP_iff (hl : l.Pairwise fun a b => rankKey a ≤ rankKey b) (w : Float) {i : Nat}
    (hi : i < l.length) : i < l.countP (totalLe · w) ↔ rankKey l[i] ≤ rankKey w := by
  induction l generalizing i with
  | nil => simp at hi
  | cons a rest ih =>
    obtain ⟨ha, hrest⟩ := List.pairwise_cons.mp hl
    by_cases hle : rankKey a ≤ rankKey w
    · have hcount : (a :: rest).countP (totalLe · w) = rest.countP (totalLe · w) + 1 :=
        List.countP_cons_of_pos (by simpa [totalLe] using hle)
      rw [hcount]
      cases i with
      | zero => simp [hle]
      | succ i =>
        rw [Nat.add_lt_add_iff_right]
        exact ih hrest (Nat.lt_of_succ_lt_succ hi)
    · -- Whoever follows a sample that is above the value is above it as well.
      have habove : ∀ x ∈ a :: rest, ¬ rankKey x ≤ rankKey w := by
        intro x hx hxw
        rcases List.mem_cons.mp hx with rfl | hx
        · exact hle hxw
        · exact hle (Nat.le_trans (ha x hx) hxw)
      have hcount : (a :: rest).countP (totalLe · w) = 0 := by
        apply List.countP_eq_zero.mpr
        intro x hx
        simpa [totalLe] using habove x hx
      rw [hcount]
      simpa using habove _ (List.getElem_mem hi)

/-- The sample in the place of a number is the smallest that so many samples are not above. -/
theorem nearestRank_getD (hl : l.Pairwise fun a b => rankKey a ≤ rankKey b) {i : Nat}
    (hi : i < l.length) : NearestRank l (i + 1) (l.getD i 0) := by
  rw [List.getD_eq_getElem l 0 hi]
  exact ⟨List.getElem_mem hi, (lt_countP_iff hl l[i] hi).mpr (Nat.le_refl _),
    fun w _ hcount => (lt_countP_iff hl w hi).mp hcount⟩

/-- Later samples are not smaller. -/
theorem rankKey_getD_mono (hl : l.Pairwise fun a b => rankKey a ≤ rankKey b) {i j : Nat}
    (hij : i ≤ j) (hj : j < l.length) : rankKey (l.getD i 0) ≤ rankKey (l.getD j 0) := by
  have hi : i < l.length := Nat.lt_of_le_of_lt hij hj
  obtain rfl | hlt := Nat.eq_or_lt_of_le hij
  · exact Nat.le_refl _
  · rw [List.getD_eq_getElem l 0 hi, List.getD_eq_getElem l 0 hj]
    exact List.pairwise_iff_getElem.mp hl i j hi hj hlt

end Ordered

section Snapshots

variable {s : Snapshot}

/-- The place of a rank is within the samples. -/
theorem place_lt (hs : s.values ≠ []) (rank : Nat) :
    min (rank - 1) (s.size - 1) < s.values.length := by
  have hpos : 0 < s.values.length := List.length_pos_iff.mpr hs
  rw [Snapshot.size]
  omega

/-- The value at a rank is found in its place. -/
theorem getElem?_place (hs : s.values ≠ []) (rank : Nat) :
    s.values[min (rank - 1) (s.size - 1)]? = some (s.atRank rank) := by
  rw [Snapshot.atRank, List.getD_eq_getElem _ _ (place_lt hs rank),
    List.getElem?_eq_getElem (place_lt hs rank)]

/-- The value at a rank is the smallest that so many samples are not above. -/
theorem nearestRank_atRank (hordered : s.values.Pairwise fun a b => rankKey a ≤ rankKey b)
    (hs : s.values ≠ []) (rank : Nat) :
    NearestRank s.values (min (max rank 1) s.size) (s.atRank rank) := by
  have hpos : 0 < s.values.length := List.length_pos_iff.mpr hs
  have hplace : min (max rank 1) s.size = min (rank - 1) (s.size - 1) + 1 := by
    rw [Snapshot.size]
    omega
  rw [Snapshot.atRank, hplace]
  exact nearestRank_getD hordered (place_lt hs rank)

/-- Rank zero is brought to the first sample, and a rank beyond the samples to the last one. -/
example : (⟨[-0.0, 0.0, 1.0]⟩ : Snapshot).atRank 0 = -0.0 ∧
    (⟨[-0.0, 0.0, 1.0]⟩ : Snapshot).atRank 7 = 1.0 := by decide

/-- The value at a greater rank is not smaller. -/
theorem rankKey_atRank_mono (hordered : s.values.Pairwise fun a b => rankKey a ≤ rankKey b)
    (hs : s.values ≠ []) {rank rank' : Nat} (h : rank ≤ rank') :
    rankKey (s.atRank rank) ≤ rankKey (s.atRank rank') := by
  have hplace : min (rank - 1) (s.size - 1) ≤ min (rank' - 1) (s.size - 1) := by omega
  rw [Snapshot.atRank, Snapshot.atRank]
  exact rankKey_getD_mono hordered hplace (place_lt hs rank')

/-- The least value of a snapshot is the first one. -/
theorem min_eq_getD (s : Snapshot) : s.min = s.values.getD 0 0 := by
  rw [Snapshot.min, List.head?_eq_getElem?, List.getD]

/-- The greatest value of a snapshot is the last one. -/
theorem max_eq_getD (s : Snapshot) : s.max = s.values.getD (s.size - 1) 0 := by
  rw [Snapshot.max, List.getLast?_eq_getElem?, List.getD, Snapshot.size]

/-- The value at a rank is between the least and the greatest. -/
theorem rankKey_atRank_between (hordered : s.values.Pairwise fun a b => rankKey a ≤ rankKey b)
    (hs : s.values ≠ []) (rank : Nat) :
    rankKey s.min ≤ rankKey (s.atRank rank) ∧ rankKey (s.atRank rank) ≤ rankKey s.max := by
  have hlast : s.size - 1 < s.values.length := Nat.sub_one_lt_of_lt (List.length_pos_iff.mpr hs)
  rw [min_eq_getD, max_eq_getD, Snapshot.atRank]
  constructor
  · exact rankKey_getD_mono hordered (Nat.zero_le _) (place_lt hs rank)
  · exact rankKey_getD_mono hordered (Nat.min_le_right _ _) hlast

end Snapshots

/-- The value of a snapshot at a quantile, NaN and numbers outside the unit interval included, is a
sample if there are samples: the smallest in total order that at least as many samples are not above as
the rank says, but one at least and all at most. The rank is the quantile, brought into the unit interval,
times the number of samples, rounded up. The value is found within the snapshot, lies between the least and
the greatest, and is not smaller where the rank is greater. Without samples it is zero. -/
theorem quantile_nearest_rank (xs : List Float) (q : Float) :
    (numbers xs = [] → (Snapshot.ofList xs).quantile q = 0) ∧
      (numbers xs ≠ [] →
        let s := Snapshot.ofList xs
        let n := (numbers xs).length
        let rank (q : Float) : Nat := (Snapshot.toUnit q * Float.ofNat n).ceil.toUInt64.toNat
        let r := rank q
        s.values[min (r - 1) (n - 1)]? = some (s.quantile q) ∧
          (∀ v, NearestRank (numbers xs) (min (max r 1) n) v ↔ v = s.quantile q) ∧
          rankKey s.min ≤ rankKey (s.quantile q) ∧ rankKey (s.quantile q) ≤ rankKey s.max ∧
          ∀ q', r ≤ rank q' → rankKey (s.quantile q) ≤ rankKey (s.quantile q')) := by
  have hperm : (Snapshot.ofList xs).values.Perm (numbers xs) := Snapshot.ofList_perm xs
  have hordered := Snapshot.ofList_ordered xs
  constructor
  · intro hnone
    have hempty : Snapshot.ofList xs = ⟨[]⟩ := by
      rw [hnone] at hperm
      exact congrArg Snapshot.mk hperm.eq_nil
    rw [hempty]
    exact Snapshot.atRank_nil _
  · intro hsome s n rank r
    have hs : s.values ≠ [] := fun hnone => hsome (hnone ▸ hperm).symm.eq_nil
    have hsize : s.size = n := hperm.length_eq
    have hquantile (q : Float) : s.quantile q = s.atRank (rank q) := by
      change s.atRank (Snapshot.rank q s.size) = s.atRank (Snapshot.rank q n)
      rw [hsize]
    have hr : s.quantile q = s.atRank r := hquantile q
    have hnearest : NearestRank (numbers xs) (min (max r 1) n) (s.quantile q) := by
      rw [hr, ← hsize]
      exact (nearestRank_atRank hordered hs r).of_perm hperm
    obtain ⟨hmin, hmax⟩ := rankKey_atRank_between hordered hs r
    rw [← hr] at hmin hmax
    refine ⟨?_, ?_, hmin, hmax, ?_⟩
    · rw [hr, ← hsize]
      exact getElem?_place hs r
    · intro v
      constructor
      · intro hv
        exact hv.eq hnearest
      · intro hv
        rw [hv]
        exact hnearest
    · intro q' hle
      rw [hr, hquantile q']
      exact rankKey_atRank_mono hordered hs hle

end Telemetry.Sampling
