import SyntaxTree.ShortestDecimal
import SyntaxTree.Text.Quoted

/-!
# Literals

The primitive values carried by tokens and by value nodes. One of them is the sentinel, which
stands for a value that was not supplied.
-/

namespace SyntaxTree

inductive Literal where
  | sentinel
  | bool (value : Bool)
  | int (value : Int64)
  | real (value : Binary64)
  | text (value : String)
deriving DecidableEq

namespace Literal

def isSentinel : Literal → Bool
  | .sentinel => true
  | _ => false

def int? : Literal → Option Int64
  | .int value => some value
  | _ => none

def text? : Literal → Option String
  | .text value => some value
  | _ => none

def typeName : Literal → String
  | .sentinel => "none"
  | .bool _ => "bool"
  | .int _ => "int"
  | .real _ => "real"
  | .text _ => "string"

/-- Equal values, where all nans are equal and the two zeros are not. -/
def same : Literal → Literal → Bool
  | .real first, .real second => first.same second
  | first, second => first == second

/--
Canonical reals are positional from `1e-4` up to `1e16`, show no plus sign, and send an exact tie
to the decimal above.
-/
def canonicalReal : RealFormat where
  tie := .upward
  least := -4
  bound := 16
  showsPlus := false

end Literal

namespace Binary64

/-- The word for a number that is not finite. -/
def nonFiniteName (real : Binary64) : String :=
  if real.isNaN then "nan" else if real.negative then "-inf" else "inf"

def ofNonFiniteName? : String → Option Binary64
  | "inf" => some (infinity false)
  | "-inf" => some (infinity true)
  | "nan" => some nan
  | _ => none

end Binary64

namespace Literal

/-- The canonical text of a literal, which always fits on one line. -/
def canonical : Literal → List Char
  | .sentinel => ['n', 'o', 'n', 'e']
  | .bool true => ['t', 'r', 'u', 'e']
  | .bool false => ['f', 'a', 'l', 's', 'e']
  | .int value => Text.integer value.toInt
  | .real value =>
      if value.isFinite then value.text canonicalReal else value.nonFiniteName.toList
  | .text value => Text.quoted value

end Literal

end SyntaxTree
