import SyntaxTree.Decimal

/-!
# Binary floating-point numbers

A 64-bit number is kept as its sign and its magnitude, the 63 bits below the sign. Magnitudes are
ordered as the absolute values they stand for, and every finite one is a whole number of units of
`2⁻¹⁰⁷⁴`, so reading a decimal and rounding it need natural numbers only. All digits of a decimal
count: what is read is the number nearest to it, and never only one close by.
-/

namespace SyntaxTree

-- Powers are those of the core library, whatever other powers are in scope.
attribute [default_instance 20000] instPowNat

instance (priority := high) powNat : Pow Nat Nat := instPowNat

/-- A 64-bit binary floating-point number, with its infinities and all its nans. -/
structure Binary64 where
  negative : Bool
  magnitude : Fin (2 ^ 63)
deriving DecidableEq

namespace Binary64

/-- The magnitude above every finite one; those above it are nans. -/
def infiniteMagnitude : Nat := 2047 * 2 ^ 52

def ofBits (bits : Nat) : Binary64 :=
  ⟨bits.testBit 63, Fin.ofNat (2 ^ 63) bits⟩

def infinity (negative : Bool) : Binary64 := ⟨negative, Fin.ofNat (2 ^ 63) infiniteMagnitude⟩

/-- The quiet nan with no payload. -/
def nan : Binary64 := ⟨false, Fin.ofNat (2 ^ 63) (infiniteMagnitude + 2 ^ 51)⟩

def isFinite (real : Binary64) : Bool := real.magnitude.val < infiniteMagnitude

def isNaN (real : Binary64) : Bool := infiniteMagnitude < real.magnitude.val

/-- The same number, all nans counted as one and the two zeros as two. -/
def same (first second : Binary64) : Bool :=
  first == second || (first.isNaN && second.isNaN)

/-- How many units of `2⁻¹⁰⁷⁴` a finite magnitude amounts to. -/
def unitsOf (magnitude : Nat) : Nat :=
  match magnitude / 2 ^ 52 with
  | 0 => magnitude
  | scale + 1 => (magnitude % 2 ^ 52 + 2 ^ 52) * 2 ^ scale

def units (real : Binary64) : Nat := unitsOf real.magnitude.val

/-- The quotient rounded to the nearest whole number, halves to the even one. -/
def roundedQuotient (numerator denominator : Nat) : Nat :=
  let quotient := numerator / denominator
  let twice := 2 * (numerator % denominator)
  if denominator < twice || (twice == denominator && quotient % 2 == 1) then
    quotient + 1
  else
    quotient

/--
The magnitude nearest to a fraction, ties to the even one. Rounding up from the largest
significand carries into the scale, which gives the next magnitude as it should.
-/
def nearestMagnitude (numerator denominator : Nat) : Nat :=
  let numerator := numerator * 2 ^ 1074
  let scale := (numerator / denominator).log2 - 52
  scale * 2 ^ 52 + roundedQuotient numerator (denominator * 2 ^ scale)

/-- A number of the given sign, or none when the magnitude is past the finite ones. -/
def ofMagnitude? (negative : Bool) (magnitude : Nat) : Option Binary64 :=
  if magnitude < infiniteMagnitude then
    some ⟨negative, Fin.ofNat (2 ^ 63) magnitude⟩
  else
    none

/--
The number nearest to a decimal, none when that is past the finite ones. Exponents far outside
the range are settled first, so that no power is computed for them.
-/
def ofDecimal? (negative : Bool) (decimal : Decimal) : Option Binary64 :=
  if decimal.significand = 0 then
    ofMagnitude? negative 0
  else
    match decimal.exponent with
    | .ofNat exponent =>
        if 400 < exponent then
          none
        else
          ofMagnitude? negative (nearestMagnitude (decimal.significand * 10 ^ exponent) 1)
    | .negSucc exponent =>
        if decimal.significand.log2 + 400 < exponent then
          ofMagnitude? negative 0
        else
          ofMagnitude? negative (nearestMagnitude decimal.significand (10 ^ (exponent + 1)))

end Binary64

end SyntaxTree
