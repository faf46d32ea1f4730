import SyntaxTree.Binary64

/-!
# The shortest decimal of a floating-point number

A finite number is written with the fewest digits that read back to it, and of those with the
digits nearest to it. The way an exact tie goes is left to the format.
-/

namespace SyntaxTree

namespace Binary64

/-- The two neighbours of a magnitude among the multiples of a power of ten, the nearer first. -/
def neighbours (tie : TieRule) (units : Nat) (exponent : Int) : List Decimal :=
  let numerator := units * 10 ^ (-exponent).toNat
  let denominator := 2 ^ 1074 * 10 ^ exponent.toNat
  let lower := numerator / denominator
  let twice := 2 * (numerator % denominator)
  let roundsUp :=
    denominator < twice ||
      (twice == denominator && (tie == .upward || lower % 2 == 1))
  if roundsUp then
    [⟨lower + 1, exponent⟩, ⟨lower, exponent⟩]
  else
    [⟨lower, exponent⟩, ⟨lower + 1, exponent⟩]

/-- A power of ten above a number of so many units, by no more than three places. -/
def powerAbove (units : Nat) : Int :=
  ((units.log2 : Int) - 1073) * 30103 / 100000 + 1

/-- All digits of a number of units, which is a decimal since `2⁻¹` is. -/
def exactDecimal (units : Nat) : Decimal := ⟨units * 5 ^ 1074, -1074⟩

/--
The decimal that stands for a finite number: on the coarsest decimal grid that has a point
reading back to it, the nearest such point. Seventeen digits always suffice, so the exact decimal at
the end is never taken.
-/
def shortestDecimal (tie : TieRule) (real : Binary64) : Decimal :=
  let start := powerAbove real.units
  let candidates :=
    (List.range 20).flatMap (fun (step : Nat) => neighbours tie real.units (start - step))
  (candidates.find? (fun decimal => ofDecimal? real.negative decimal == some real)).getD
    (exactDecimal real.units)

/-- The text of a finite number in a format. -/
def text (format : RealFormat) (real : Binary64) : List Char :=
  let sign := if real.negative then ['-'] else []
  if real.magnitude.val = 0 then
    sign ++ ['0', '.', '0']
  else
    sign ++ (real.shortestDecimal format.tie).text format

end Binary64

end SyntaxTree
