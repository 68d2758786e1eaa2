/-!
# The shortest decimal of a double

The decimal with the fewest digits among those that read back as a given double, and of these the
nearest to it. A finite double is `mantissa * 2 ^ exponent`; the reals that round to it form an
interval around it, with its ends when the mantissa is even. For one digit, two digits and so on up
to seventeen, the two decimals next to the double on that grid are tested against the interval in
exact arithmetic, and the first grid with a hit decides. A grid with a point in the interval has one
of these two in it, and seventeen digits always suffice.
-/

namespace Telemetry.Decimal

/-- A power of two. -/
def twoTo (k : Nat) : Nat := Nat.pow 2 k

/-- A power of ten. -/
def tenTo (k : Nat) : Nat := Nat.pow 10 k

/-- The leading bit of normal mantissas: two to the power 52. -/
def leadingBit : Nat := 0x10000000000000

/-- The power of two of the last bit of the least doubles. -/
def leastExponent : Int := -1074

/-- The magnitude of a finite double: `mantissa * 2 ^ exponent`. -/
structure Magnitude where
  /-- The significant bits. -/
  mantissa : Nat
  /-- The power of two of the last bit. -/
  exponent : Int
  deriving DecidableEq, Repr

/-- The magnitude that the bits of a finite double encode: 52 bits of mantissa below 11 bits of
exponent, where the least exponent stands for mantissas without a leading bit. -/
def Magnitude.ofBits (bits : UInt64) : Magnitude :=
  let fraction := bits.toNat % leadingBit
  let biased := bits.toNat / leadingBit % 0x800
  if biased = 0 then ⟨fraction, leastExponent⟩
  else ⟨leadingBit + fraction, leastExponent + ((biased - 1 : Nat) : Int)⟩

/-- The reals that read back as one double, as fractions of a common denominator. -/
structure Interval where
  /-- Numerator of the lower end. -/
  low : Nat
  /-- Numerator of the double itself. -/
  value : Nat
  /-- Numerator of the upper end. -/
  high : Nat
  den : Nat
  /-- Whether the ends read back as the double too. -/
  closed : Bool
  deriving DecidableEq, Repr

/-- The interval of a magnitude. The gap below a power of two is half the gap above it, except at
the least normal number. -/
def Magnitude.interval (x : Magnitude) : Interval :=
  let up := twoTo x.exponent.toNat
  let gapBelow := if x.mantissa = leadingBit ∧ leastExponent < x.exponent then 1 else 2
  { low := (4 * x.mantissa - gapBelow) * up
    value := 4 * x.mantissa * up
    high := (4 * x.mantissa + 2) * up
    den := 4 * twoTo (-x.exponent).toNat
    closed := x.mantissa % 2 = 0 }

/-- Whether `d * 10 ^ k` lies in the interval. -/
def Interval.contains (i : Interval) (d : Nat) (k : Int) : Bool :=
  let point := d * tenTo k.toNat * i.den
  let scale := tenTo (-k).toNat
  if i.closed then decide (i.low * scale ≤ point) && decide (point ≤ i.high * scale)
  else decide (i.low * scale < point) && decide (point < i.high * scale)

/-- The number of decimal digits of a number. -/
def digitCount (n : Nat) : Nat := (Nat.toDigits 10 n).length

/-- The power of ten of the double's leading digit. -/
def Interval.leading (i : Interval) : Int :=
  if i.den ≤ i.value then (digitCount (i.value / i.den) : Int) - 1
  else -(digitCount ((i.den + i.value - 1) / i.value - 1) : Int)

/-- The decimal on the grid of `10 ^ k` that reads back and is nearest to the double; of two that
are equally near, the even one. -/
def Interval.onGrid? (i : Interval) (k : Int) : Option Nat :=
  let num := i.value * tenTo (-k).toNat
  let den := i.den * tenTo k.toNat
  let d := num / den
  let twiceRest := 2 * (num % den)
  match i.contains d k, i.contains (d + 1) k with
  | true, true =>
    some (if twiceRest < den ∨ (twiceRest = den ∧ d % 2 = 0) then d else d + 1)
  | true, false => some d
  | false, true => some (d + 1)
  | false, false => none

/-- Decimal digits with the power of ten of the first one. The last digit is not zero. -/
structure Digits where
  /-- The digits, most significant first. -/
  digits : List Char
  /-- The power of ten of the first digit. -/
  exponent : Int
  deriving DecidableEq, Repr

/-- The digits of `d * 10 ^ k`, without zeros at the end. -/
def Digits.of (d : Nat) (k : Int) : Digits :=
  let cs := Nat.toDigits 10 d
  ⟨(cs.reverse.dropWhile (· == '0')).reverse, k + cs.length - 1⟩

/-- The digits of the first grid with a hit. -/
def Interval.shortest (i : Interval) : Digits :=
  let hit? := (List.range 17).findSome? fun more : Nat =>
    let k := i.leading - (more : Int)
    (i.onGrid? k).map fun d => Digits.of d k
  hit?.getD ⟨[], 0⟩

/-- The shortest digits of a positive finite double. -/
def shortest (x : Float) : Digits := (Magnitude.ofBits x.toBits).interval.shortest

/-- One tenth needs one digit. -/
example : (Magnitude.ofBits 0x3fb999999999999a).interval.shortest = ⟨['1'], -1⟩ := by
  decide +kernel

/-- The least positive double needs one digit. -/
example : (Magnitude.ofBits 1).interval.shortest = ⟨['5'], -324⟩ := by
  decide +kernel

end Telemetry.Decimal
