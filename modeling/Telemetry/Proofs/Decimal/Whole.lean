import Telemetry.Decimal.Style
import Mathlib.Algebra.Group.Nat.Defs
import Mathlib.Data.Int.Order.Basic
import Mathlib.Data.Nat.Basic

/-!
# Whole numbers as doubles

A double has 53 bits. A whole number below `2 ^ 53` is a double as it is, and is got back from it; a
greater one is rounded, to a double that is not below `2 ^ 53`. Only the first two of these become
`2 ^ 53` itself.
-/

namespace Telemetry.Decimal

open Float.Model (Format totalExponent UnpackedFloat)
open Float.Model.UnpackedFloat

/-- Moving a mantissa to the right divides it by a power of two. -/
theorem mantissa_shiftRight (x : ExtendedMantissa) (k : Nat) :
    (x >>> k).mantissa = x.mantissa / 2 ^ k := by
  induction k with
  | zero => exact (Nat.div_one _).symm
  | succ k ih =>
    change (x >>> k).mantissa / 2 = _
    rw [ih, Nat.div_div_eq_div_mul, Nat.pow_succ]

/-- Rounding goes to the mantissa or to the next one. -/
theorem roundedMantissa_bounds (x : ExtendedMantissa) :
    x.mantissa ≤ x.roundedMantissa ∧ x.roundedMantissa ≤ x.mantissa + 1 := by
  obtain ⟨m, half, rest⟩ := x
  unfold ExtendedMantissa.roundedMantissa ExtendedMantissa.accuracy Accuracy.roundToNearestEven
  cases half <;> cases rest <;> dsimp only <;> omega

/-- The exponent at which a number keeps 53 bits. -/
theorem targetExponent_binary64 (e : Int) :
    Format.binary64.targetExponent e = max (e - 53) (-1074) := rfl

/-- A mantissa of at most 53 bits stays as it is. -/
theorem shiftToTargetExponent_of_log2_le {m : Nat} {e : Int} (hm : m.log2 ≤ 52) (he : -1074 ≤ e) :
    shiftToTargetExponent Format.binary64 m e .exact = (⟨m, false, false⟩, e) := by
  have hshift : (max ((m.log2 : Int) + 1 + e - 53) (-1074) - e).toNat = 0 := by omega
  rw [shiftToTargetExponent, totalExponent, targetExponent_binary64, shiftToExponent, hshift]
  simp only [Int.natCast_zero, Int.add_zero]
  rfl

/-- A mantissa of at most 53 bits is not rounded. -/
theorem roundWithAccuracy_of_log2_le {m : Nat} {e : Int} (hpos : 0 < m) (hm : m.log2 ≤ 52)
    (he : -1074 ≤ e) :
    roundWithAccuracy Format.binary64 .positive m e .exact = .finite .positive m e hpos := by
  unfold roundWithAccuracy
  rw [shiftToTargetExponent_of_log2_le hm he]
  dsimp only
  have hround : (ExtendedMantissa.mk m false false).roundedMantissa = m := rfl
  rw [hround, shiftToTargetExponent_of_log2_le hm he]
  exact dif_neg (Nat.ne_of_gt hpos)

/-- Rounding to 54 bits is carried over. -/
theorem shiftToTargetExponent_carry {e : Int} (he : -1074 ≤ e) :
    shiftToTargetExponent Format.binary64 (2 ^ 53) e .exact = (⟨2 ^ 52, false, false⟩, e + 1) := by
  have hshift : (max ((53 : Nat) + 1 + e - 53) (-1074) - e).toNat = 1 := by omega
  rw [shiftToTargetExponent, totalExponent, targetExponent_binary64, Nat.log2_two_pow,
    shiftToExponent, hshift]
  rfl

/-- A whole number of at most 53 bits is rounded to itself. -/
theorem round_of_log2_le {n : Nat} (hpos : 0 < n) (hn : n.log2 ≤ 52) :
    ∃ hm, (n * 2 ^ (52 - n.log2)).log2 = 52 ∧ UnpackedFloat.round Format.binary64 .positive n 0 =
      .finite .positive (n * 2 ^ (52 - n.log2)) (-((52 - n.log2 : Nat) : Int)) hm := by
  have hm : 0 < n * 2 ^ (52 - n.log2) := Nat.mul_pos hpos (Nat.two_pow_pos _)
  have hlog : (n * 2 ^ (52 - n.log2)).log2 = 52 := by
    have hsum : 2 ^ n.log2 * 2 ^ (52 - n.log2) = 2 ^ 52 := by
      rw [← Nat.pow_add, Nat.add_sub_cancel' hn]
    have hlow := Nat.mul_le_mul_right (2 ^ (52 - n.log2)) (Nat.log2_self_le (Nat.ne_of_gt hpos))
    have hhigh := Nat.mul_lt_mul_of_pos_right (Nat.lt_log2_self (n := n))
      (Nat.two_pow_pos (52 - n.log2))
    rw [Nat.pow_succ, Nat.mul_right_comm] at hhigh
    exact (Nat.log2_eq_iff (Nat.ne_of_gt hm)).mpr ⟨by omega, by omega⟩
  have hshift : (0 - max ((n.log2 : Int) + 1 + 0 - 53) (-1074)).toNat = 52 - n.log2 := by omega
  refine ⟨hm, hlog, ?_⟩
  rw [UnpackedFloat.round, totalExponent, targetExponent_binary64, decreaseExponent, hshift]
  dsimp only
  rw [Nat.shiftLeft_eq, Int.zero_sub]
  exact roundWithAccuracy_of_log2_le hm (Nat.le_of_eq hlog) (by omega)

/-- A whole number of more than 53 bits is rounded to the 53 bits in front or to the next such number. -/
theorem exists_round_eq {n d : Nat} (hd : n.log2 = 52 + d) :
    ∃ r, n / 2 ^ d ≤ r ∧ r ≤ n / 2 ^ d + 1 ∧
      UnpackedFloat.round Format.binary64 .positive n 0 =
        let x := shiftToTargetExponent Format.binary64 r d .exact
        if h : x.1.mantissa = 0 then .zero .positive
        else .finite .positive x.1.mantissa x.2 (Nat.pos_of_ne_zero h) := by
  have hstay : (0 - max ((n.log2 : Int) + 1 + 0 - 53) (-1074)).toNat = 0 := by omega
  have hshift : (max ((n.log2 : Int) + 1 + 0 - 53) (-1074) - 0).toNat = d := by omega
  let x : ExtendedMantissa := (⟨n, false, false⟩ : ExtendedMantissa) >>> d
  have hx : x.mantissa = n / 2 ^ d := mantissa_shiftRight _ d
  obtain ⟨hle, hge⟩ := roundedMantissa_bounds x
  rw [hx] at hle hge
  refine ⟨x.roundedMantissa, hle, hge, ?_⟩
  rw [UnpackedFloat.round, totalExponent, targetExponent_binary64, decreaseExponent, hstay]
  dsimp only
  rw [Nat.shiftLeft_zero, Int.natCast_zero, Int.sub_zero, roundWithAccuracy, shiftToTargetExponent,
    totalExponent, targetExponent_binary64, shiftToExponent, hshift, Int.zero_add]
  rfl

/-- What a whole number of more than 53 bits is rounded to has 53 bits and is not below `2 ^ 53`; where
it is below `2 ^ 54`, no more than the last bit of the number is lost. -/
theorem round_of_le {n : Nat} (hn : 2 ^ 53 ≤ n) (hsize : n < 2 ^ 64) :
    ∃ m e hm, UnpackedFloat.round Format.binary64 .positive n 0 = .finite .positive m e hm ∧ m.log2 = 52 ∧
      1 ≤ e ∧ e ≤ 12 ∧ (e = 1 → n / 2 ≤ m) := by
  have hlog : 53 ≤ n.log2 := (Nat.le_log2 (by omega)).mpr hn
  have hlog' : n.log2 < 64 := (Nat.log2_lt (by omega)).mpr hsize
  obtain ⟨d, hd⟩ : ∃ d, n.log2 = 52 + d := ⟨n.log2 - 52, by omega⟩
  have hlow : 2 ^ 52 ≤ n / 2 ^ d := by
    rw [Nat.le_div_iff_mul_le (Nat.two_pow_pos d), ← Nat.pow_add, ← hd]
    exact Nat.log2_self_le (by omega)
  have hhigh : n / 2 ^ d < 2 ^ 53 := by
    rw [Nat.div_lt_iff_lt_mul (Nat.two_pow_pos d), ← Nat.pow_add, Nat.add_right_comm 52 1 d, ← hd]
    exact Nat.lt_log2_self
  obtain ⟨r, hle, hge, hround⟩ := exists_round_eq hd
  rw [hround]
  by_cases hcarry : r < 2 ^ 53
  · have hpos : 0 < r := by omega
    have hbits : r.log2 = 52 := (Nat.log2_eq_iff (by omega)).mpr ⟨by omega, hcarry⟩
    rw [shiftToTargetExponent_of_log2_le (Nat.le_of_eq hbits) (by omega)]
    refine ⟨r, d, hpos, dif_neg (Nat.ne_of_gt hpos), hbits, by omega, by omega, fun he => ?_⟩
    have hone : d = 1 := by omega
    rwa [hone] at hle
  · have hfull : r = 2 ^ 53 := by omega
    rw [hfull, shiftToTargetExponent_carry (by omega)]
    exact ⟨2 ^ 52, d + 1, by decide, rfl, by decide, by omega, by omega, fun he => by omega⟩

/-- The sign of a positive number is read back as it was packed. -/
theorem unpackSign_packComponents_positive (exponent : BitVec 11) (fraction : BitVec 52) :
    unpackSign (packComponents Format.binary64 .positive exponent fraction) = 0#1 := by
  change (0#1 ++ exponent ++ fraction : BitVec (1 + 11 + 52)).extractLsb' 63 1 = 0#1
  rw [BitVec.extractLsb'_append_eq_of_le (by omega), BitVec.extractLsb'_append_eq_of_le (by omega)]
  rfl

/-- What is packed with an exponent between the least and the greatest is read back as a mantissa with its
first bit put in front. -/
theorem unpack_packComponents {exponent : BitVec 11} {fraction : BitVec 52}
    (hinfinite : exponent ≠ -1#11) (hsmall : exponent ≠ 0#11) (hpos : 0 < (1#1 ++ fraction).toNat) :
    UnpackedFloat.unpack Format.binary64
        (packComponents Format.binary64 .positive exponent fraction) =
      .finite .positive (1#1 ++ fraction).toNat (exponent.toNat - (1023 + 52)) hpos := by
  have hexponent : unpackExponent (packComponents Format.binary64 .positive exponent fraction) =
      exponent := unpackExponent_packComponents
  have hfraction : unpackMantissa (packComponents Format.binary64 .positive exponent fraction) =
      fraction := unpackMantissa_packComponents
  refine (if_neg fun h => hinfinite (hexponent.symm.trans h)).trans
    ((if_neg fun h => hsmall (hexponent.symm.trans h)).trans ?_)
  rw [UnpackedFloat.finite.injEq]
  exact ⟨congrArg Sign.ofBitVec (unpackSign_packComponents_positive exponent fraction),
    congrArg (fun bits : BitVec 52 => (1#1 ++ bits).toNat) hfraction,
    congrArg (fun bits : BitVec 11 => (bits.toNat : Int) - (1023 + 52)) hexponent⟩

/-- A mantissa of 53 bits is read back as it was packed. -/
theorem unpack_pack {m : Nat} {e : Int} (hpos : 0 < m) (hm : m.log2 = 52) (he : -1074 ≤ e)
    (he' : e ≤ 971) :
    (Float.Model.pack (.finite .positive m e hpos)).unpack = .finite .positive m e hpos := by
  obtain ⟨hlow, hhigh⟩ := (Nat.log2_eq_iff (Nat.ne_of_gt hpos)).mp hm
  let exponent : BitVec 11 := BitVec.ofNat 11 (e + 1023 + 52).toNat
  let fraction : BitVec 52 := BitVec.ofNat 52 m
  have hpack : UnpackedFloat.pack Format.binary64 (.finite .positive m e hpos) =
      packComponents Format.binary64 .positive exponent fraction := by
    exact (if_neg (show ¬ 2 ^ 11 ≤ (e + 1023 + 52).toNat + 1 by omega)).trans
      (if_pos (show m.log2 + 1 = 53 by omega))
  have hexponent : exponent.toNat = (e + 1023 + 52).toNat := by
    rw [BitVec.toNat_ofNat]
    exact Nat.mod_eq_of_lt (by omega)
  have hinfinite : exponent ≠ -1#11 := by
    intro h
    rw [h] at hexponent
    have : (-1#11).toNat = 2047 := by decide
    omega
  have hsmall : exponent ≠ 0#11 := by
    intro h
    rw [h] at hexponent
    have : (0#11).toNat = 0 := rfl
    omega
  have hmantissa : (1#1 ++ fraction).toNat = m := by
    rw [BitVec.toNat_append, ← Nat.shiftLeft_add_eq_or_of_lt fraction.isLt, BitVec.toNat_ofNat]
    change 2 ^ 52 + m % 2 ^ 52 = m
    omega
  change UnpackedFloat.unpack Format.binary64 (UnpackedFloat.pack Format.binary64 _) = _
  rw [hpack, unpack_packComponents hinfinite hsmall (hmantissa ▸ hpos), UnpackedFloat.finite.injEq]
  exact ⟨rfl, hmantissa, by omega⟩

/-- A positive whole number is made a double by rounding. -/
theorem toModel_toFloat {n : UInt64} (hpos : 0 < n.toNat) :
    n.toFloat.toModel = Float.Model.pack (UnpackedFloat.round Format.binary64 .positive n.toNat 0) := by
  have hcompare : compare (n.toNat : Int) 0 = .gt := compare_gt_iff_gt.mpr (by omega)
  change Float.Model.pack (normalize Format.binary64 (n.toNat : Int) 0 .positive) = _
  rw [UnpackedFloat.normalize, hcompare]
  rfl

/-- A whole number below `2 ^ 53` is a double as it is. -/
theorem unpack_toFloat_of_lt {n : UInt64} (hpos : 0 < n.toNat) (hn : n.toNat < 2 ^ 53) :
    ∃ (s : Nat) (hm : _),
      n.toFloat.toModel.unpack = .finite .positive (n.toNat * 2 ^ s) (-(s : Int)) hm := by
  have hlog : n.toNat.log2 < 53 := (Nat.log2_lt (Nat.ne_of_gt hpos)).mpr hn
  obtain ⟨hm, hlog', hround⟩ := round_of_log2_le hpos (by omega)
  refine ⟨52 - n.toNat.log2, hm, ?_⟩
  rw [toModel_toFloat hpos, hround]
  exact unpack_pack hm hlog' (by omega) (by omega)

/-- What a greater whole number becomes as a double is not below `2 ^ 53`. -/
theorem unpack_toFloat_of_le {n : UInt64} (hn : 2 ^ 53 ≤ n.toNat) :
    ∃ m e hm, n.toFloat.toModel.unpack = .finite .positive m e hm ∧ 2 ^ 52 ≤ m ∧ 1 ≤ e ∧
      (e = 1 → n.toNat / 2 ≤ m) := by
  obtain ⟨m, e, hm, hround, hlog, he, he', hlast⟩ := round_of_le hn n.toNat_lt
  refine ⟨m, e, hm, ?_, ((Nat.log2_eq_iff (Nat.ne_of_gt hm)).mp hlog).1, he, hlast⟩
  rw [toModel_toFloat (by omega), hround]
  exact unpack_pack hm hlog (by omega) (by omega)

/-- Doubles are compared as the numbers they stand for. -/
theorem le_iff_of_unpack {x y : Float} {m m' : Nat} {e e' : Int} {hm : 0 < m} {hm' : 0 < m'}
    (hx : x.toModel.unpack = .finite .positive m e hm)
    (hy : y.toModel.unpack = .finite .positive m' e' hm') :
    x ≤ y ↔ ((compare e e').then (compare m m')).isLE = true := by
  have hle : x ≤ y ↔ x.toModel.unpack.le y.toModel.unpack = true := decide_eq_true_iff
  rw [hle, hx, hy]
  rfl

/-- The greatest of the whole numbers that are doubles as all below them are. -/
theorem unpack_limit :
    (9007199254740992 : Float).toModel.unpack = .finite .positive (2 ^ 52) 1 (by decide) := by
  rfl

/-- A whole number below `2 ^ 53` is made an integer again without loss. -/
theorem toUInt64_toFloat_of_lt {n : UInt64} (hn : n.toNat < 2 ^ 53) : n.toFloat.toUInt64 = n := by
  obtain hzero | hpos := Nat.eq_zero_or_pos n.toNat
  · obtain rfl : n = 0 := UInt64.toNat_inj.mp hzero
    decide +kernel
  · obtain ⟨s, hm, hunpack⟩ := unpack_toFloat_of_lt hpos hn
    have hshift : (0 - (-(s : Int))).toNat = s := by omega
    have hstay : (-(s : Int) - 0).toNat = 0 := by omega
    have hint : roundToInt .positive (n.toNat * 2 ^ s) (-(s : Int)) = n.toNat := by
      rw [roundToInt, decreaseExponent, hstay]
      dsimp only
      rw [Nat.shiftLeft_zero, Int.natCast_zero, Int.sub_zero, shiftToExponent, hshift]
      change (((⟨n.toNat * 2 ^ s, false, false⟩ : ExtendedMantissa) >>> s).mantissa : Int) = _
      rw [mantissa_shiftRight, Nat.mul_div_cancel _ (Nat.two_pow_pos s)]
    change n.toFloat.toModel.unpack.toUInt64 = n
    rw [hunpack]
    change UInt64.ofNatClamp (roundToInt .positive (n.toNat * 2 ^ s) (-(s : Int))).toNat = n
    rw [hint, Int.toNat_natCast, UInt64.ofNatClamp_toNat]

/-- A positive whole number becomes a positive double. -/
theorem exists_unpack_toFloat {n : UInt64} (hpos : 0 < n.toNat) :
    ∃ m e hm, n.toFloat.toModel.unpack = .finite .positive m e hm := by
  obtain hn | hn := Nat.lt_or_ge n.toNat (2 ^ 53)
  · obtain ⟨s, hm, hunpack⟩ := unpack_toFloat_of_lt hpos hn
    exact ⟨_, _, hm, hunpack⟩
  · obtain ⟨m, e, hm, hunpack, -⟩ := unpack_toFloat_of_le hn
    exact ⟨m, e, hm, hunpack⟩

/-- A double made of a whole number is finite. -/
theorem isFinite_toFloat (n : UInt64) : n.toFloat.isFinite = true := by
  obtain hzero | hpos := Nat.eq_zero_or_pos n.toNat
  · obtain rfl : n = 0 := UInt64.toNat_inj.mp hzero
    decide +kernel
  · obtain ⟨m, e, hm, hunpack⟩ := exists_unpack_toFloat hpos
    change n.toFloat.toModel.unpack.isFinite = true
    rw [hunpack]
    rfl

/-- A double made of a whole number is not negative. -/
theorem zero_le_toFloat (n : UInt64) : 0 ≤ n.toFloat := by
  obtain hzero | hpos := Nat.eq_zero_or_pos n.toNat
  · obtain rfl : n = 0 := UInt64.toNat_inj.mp hzero
    decide +kernel
  · obtain ⟨m, e, hm, hunpack⟩ := exists_unpack_toFloat hpos
    have hle : 0 ≤ n.toFloat ↔ (0 : Float).toModel.unpack.le n.toFloat.toModel.unpack = true :=
      decide_eq_true_iff
    have hzero : (0 : Float).toModel.unpack = .zero .positive := rfl
    rw [hle, hzero, hunpack]
    rfl

/-- A finite double is a number. -/
theorem isNaN_of_isFinite {x : Float} (hx : x.isFinite = true) : x.isNaN = false := by
  change x.toModel.unpack.isFinite = true at hx
  change x.toModel.unpack.isNaN = false
  cases h : x.toModel.unpack with
  | notANumber => rw [h] at hx; contradiction
  | infinity sign => rfl
  | zero sign => rfl
  | finite sign m e hm => rfl

/-- A finite double is no infinity. -/
theorem isInf_of_isFinite {x : Float} (hx : x.isFinite = true) : x.isInf = false := by
  change x.toModel.unpack.isFinite = true at hx
  change x.toModel.unpack.isInf = false
  cases h : x.toModel.unpack with
  | notANumber => rfl
  | infinity sign => rw [h] at hx; contradiction
  | zero sign => rfl
  | finite sign m e hm => rfl

/-- A finite double is equal to itself. -/
theorem beq_self_of_isFinite {x : Float} (hx : x.isFinite = true) : (x == x) = true := by
  change x.toModel.unpack.isFinite = true at hx
  change x.toModel.unpack.beq x.toModel.unpack = true
  cases h : x.toModel.unpack with
  | notANumber => rw [h] at hx; contradiction
  | infinity sign => rw [h] at hx; contradiction
  | zero sign => rfl
  | finite sign m e hm =>
    have hequal : (compare e e).then (compare m m) = .eq := by simp
    cases sign with
    | negative =>
      change (some ((compare e e).then (compare m m)).swap == some .eq) = true
      rw [hequal]
      rfl
    | positive =>
      change (some ((compare e e).then (compare m m)) == some .eq) = true
      rw [hequal]
      rfl

/-- What a number that is greater by two or more becomes as a double is greater than `2 ^ 53`. -/
theorem limit_lt_toFloat {n : UInt64} (hn : 2 ^ 53 + 2 ≤ n.toNat) :
    ¬ n.toFloat ≤ 9007199254740992 := by
  obtain ⟨m, e, hm, hunpack, hlow, he, hlast⟩ := unpack_toFloat_of_le (n := n) (by omega)
  rw [le_iff_of_unpack hunpack unpack_limit]
  obtain hbeyond | hone := Int.lt_or_eq_of_le he
  · have hexponent : compare e 1 = .gt := compare_gt_iff_gt.mpr hbeyond
    rw [hexponent]
    exact Bool.false_ne_true
  · have hhalf := hlast hone.symm
    have hexponent : compare e 1 = .eq := compare_eq_iff_eq.mpr hone.symm
    have hmantissa : compare m (2 ^ 52) = .gt := compare_gt_iff_gt.mpr (by omega)
    rw [hexponent, hmantissa]
    decide

/-- A whole number below `2 ^ 53` becomes a double that is not greater than this. -/
theorem toFloat_le_limit {n : UInt64} (hn : n.toNat < 2 ^ 53) : n.toFloat ≤ 9007199254740992 := by
  obtain hzero | hpos := Nat.eq_zero_or_pos n.toNat
  · obtain rfl : n = 0 := UInt64.toNat_inj.mp hzero
    decide +kernel
  · obtain ⟨s, hm, hunpack⟩ := unpack_toFloat_of_lt hpos hn
    have hexponent : compare (-(s : Int)) 1 = .lt := compare_lt_iff_lt.mpr (by omega)
    rw [le_iff_of_unpack hunpack unpack_limit, hexponent]
    rfl

end Telemetry.Decimal
