import SyntaxTree.Text.Integer

/-!
# Decimals

A decimal is written either positionally or with an exponent. Which of the two, and how an
exponent looks, is up to a format, one record that says all in which formats differ.
-/

namespace SyntaxTree

/-- A nonnegative decimal, `significand · 10 ^ exponent`. -/
structure Decimal where
  significand : Nat
  exponent : Int
deriving DecidableEq

/-- Which of two equally near decimals is written. -/
inductive TieRule where
  | toEven
  | upward
deriving DecidableEq

/-- How a format writes finite floating-point numbers. -/
structure RealFormat where
  tie : TieRule
  /-- Positional writing takes the powers of ten of the leading digit from here on. -/
  least : Int
  /-- The first power of ten of the leading digit that is too large for positional writing. -/
  bound : Int
  /-- Whether a positive exponent shows its sign. -/
  showsPlus : Bool
deriving DecidableEq

namespace Decimal

def digits (decimal : Decimal) : List Char := Nat.toDigits 10 decimal.significand

/-- The power of ten that the leading digit counts. -/
def leadingPower (decimal : Decimal) : Int :=
  decimal.exponent + (decimal.digits.length - 1 : Nat)

/-- Digits with a point in them and at least one digit on either side of it. -/
def positional (decimal : Decimal) : List Char :=
  let digits := decimal.digits
  match decimal.exponent with
  | .ofNat exponent => digits ++ List.replicate exponent '0' ++ ['.', '0']
  | .negSucc places =>
      let padded := List.replicate (places + 2 - digits.length) '0' ++ digits
      let whole := padded.length - (places + 1)
      padded.take whole ++ '.' :: padded.drop whole

/-- One digit, the others behind a point if there are any, and the power of the first. -/
def scientific (showsPlus : Bool) (decimal : Decimal) : List Char :=
  let power := decimal.leadingPower
  let sign := if showsPlus && decide (0 ≤ power) then ['+'] else []
  let mantissa :=
    match decimal.digits with
    | first :: second :: rest => first :: '.' :: second :: rest
    | short => short
  mantissa ++ 'e' :: (sign ++ Text.integer power)

/-- The text of a decimal whose last digit is not a zero, in the given format. -/
def text (format : RealFormat) (decimal : Decimal) : List Char :=
  if format.least ≤ decimal.leadingPower && decimal.leadingPower < format.bound then
    decimal.positional
  else
    decimal.scientific format.showsPlus

end Decimal

end SyntaxTree
