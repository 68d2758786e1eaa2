import Telemetry.Decimal.Shortest

/-!
# Writing numbers

The decisions a format makes about the text of a double once its digits are known: which powers of
ten are written with the point in place and which with an exponent, whether a whole number shows a
point, and how a positive exponent is signed.
-/

namespace Telemetry.Decimal

/-- How a format writes doubles. -/
structure Style where
  /-- The least power of ten of the first digit that is written in place; none means all. -/
  placedFrom : Option Int
  /-- The greatest power of ten of the first digit that is written in place; none means all. -/
  placedTo : Option Int
  /-- Whether a whole number written in place ends with a point and a zero. -/
  wholePoint : Bool
  /-- Whether a positive exponent has a plus sign. -/
  plusExponent : Bool
  /-- The text of what is no number. -/
  nan : String
  /-- The text of positive infinity; the negative one differs in its sign. -/
  infinity : String
  /-- The text of negative infinity. -/
  negativeInfinity : String
  deriving DecidableEq, Repr

/-- Text documents: in place from a hundred-thousandth up to below ten quadrillion. -/
def Style.document : Style := ⟨some (-5), some 15, true, false, "NaN", "+Inf", "-Inf"⟩

/-- JSON documents write as text documents do, with a sign on positive exponents. -/
def Style.json : Style := ⟨some (-5), some 15, true, true, "null", "null", "null"⟩

/-- Labels of quantiles: never an exponent, and no point in whole numbers. -/
def Style.plain : Style := ⟨none, none, false, false, "NaN", "inf", "-inf"⟩

/-- Whether a first digit at this power of ten is written in place. -/
def Style.places (s : Style) (exponent : Int) : Bool :=
  s.placedFrom.all (· ≤ exponent) && s.placedTo.all (exponent ≤ ·)

/-- Digits with the point in place. -/
def Digits.placed (d : Digits) (wholePoint : Bool) : List Char :=
  if d.exponent < 0 then
    '0' :: '.' :: (List.replicate (-d.exponent - 1).toNat '0' ++ d.digits)
  else
    let width := d.exponent.toNat + 1
    let whole := d.digits.take width ++ List.replicate (width - d.digits.length) '0'
    match d.digits.drop width with
    | [] => if wholePoint then whole ++ ['.', '0'] else whole
    | fraction => whole ++ '.' :: fraction

/-- Digits with an exponent: the point stands after the first digit. -/
def Digits.scientific (d : Digits) (plusExponent : Bool) : List Char :=
  let head := d.digits.take 1
  let fraction := match d.digits.drop 1 with
    | [] => []
    | rest => '.' :: rest
  let sign := if d.exponent < 0 then ['-'] else if plusExponent then ['+'] else []
  head ++ fraction ++ 'e' :: (sign ++ Nat.toDigits 10 d.exponent.natAbs)

/-- The text of digits in a style. -/
def Digits.write (s : Style) (d : Digits) : List Char :=
  if s.places d.exponent then d.placed s.wholePoint else d.scientific s.plusExponent

/-- The digits of zero. -/
def Digits.zero : Digits := ⟨['0'], 0⟩

/-- Whether the sign bit of a double is set. -/
def isNegative (x : Float) : Bool := decide (0x8000000000000000 ≤ x.toBits.toNat)

/-- The text of a double in a style. -/
def Style.write (s : Style) (x : Float) : String :=
  if x.isNaN then s.nan
  else if x.isInf then if isNegative x then s.negativeInfinity else s.infinity
  else
    let digits := if x == 0 then Digits.zero else shortest x
    String.ofList ((if isNegative x then ['-'] else []) ++ digits.write s)

/-- Whole numbers of text documents show a point. -/
example : (Digits.of 2 0).write .document = ['2', '.', '0'] := by decide +kernel

/-- A millionth is the first power of ten that text documents write with an exponent. -/
example : (Digits.of 1 (-6)).write .document = ['1', 'e', '-', '6'] := by
  decide +kernel

end Telemetry.Decimal
