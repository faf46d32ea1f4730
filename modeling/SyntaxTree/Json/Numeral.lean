import SyntaxTree.Json

/-!
# JSON numbers

A number is scanned character by character into its sign, its digits and its exponent. What value
it has depends on how it is written: numbers without point and exponent are integers as long as 64
bits hold them.
-/

namespace SyntaxTree.Json

/-- A number as written: its sign, its digits, and whether it has neither point nor exponent. -/
structure Numeral where
  negative : Bool
  decimal : Decimal
  isWhole : Bool
deriving DecidableEq

/--
The value of a number. Whole numbers are integers within the two 64-bit ranges, minus zero
excepted; all others are reals, and none when past the finite ones.
-/
def Numeral.value? (numeral : Numeral) : Option Json :=
  let natural := numeral.decimal.significand
  if numeral.isWhole && !numeral.negative && natural < 2 ^ 64 then
    some (.integer natural)
  else if numeral.isWhole && numeral.negative && natural != 0 && natural ≤ 2 ^ 63 then
    some (.integer (-natural))
  else
    (Binary64.ofDecimal? numeral.negative numeral.decimal).map .real

/-- Where a number that is being scanned stands. -/
inductive NumeralPhase where
  | sign
  | zero
  | whole
  | point
  | fraction
  | mark
  | markSign
  | power
deriving DecidableEq

/-- A number that is being scanned. -/
structure NumeralScan where
  phase : NumeralPhase
  negative : Bool
  significand : Nat := 0
  places : Nat := 0
  negativePower : Bool := false
  power : Nat := 0
deriving DecidableEq

namespace NumeralScan

def digitValue (digit : Char) : Nat := digit.toNat - '0'.toNat

def isExponentMark (char : Char) : Bool := char == 'e' || char == 'E'

/-- What a character does to a number: it goes on, it ends before the character, or it is wrong. -/
inductive Outcome where
  | more (scan : NumeralScan)
  | done
  | wrong

def withDigit (phase : NumeralPhase) (digit : Char) (scan : NumeralScan) : Outcome :=
  .more { scan with phase := phase, significand := 10 * scan.significand + digitValue digit }

def withPlace (digit : Char) (scan : NumeralScan) : Outcome :=
  .more
    { scan with
      phase := .fraction
      significand := 10 * scan.significand + digitValue digit
      places := scan.places + 1 }

def withPower (digit : Char) (scan : NumeralScan) : Outcome :=
  .more { scan with phase := .power, power := 10 * scan.power + digitValue digit }

def step (scan : NumeralScan) (char : Char) : Outcome :=
  match scan.phase with
  | .sign =>
      if char == '0' then .more { scan with phase := .zero }
      else if char.isDigit then scan.withDigit .whole char
      else .wrong
  | .zero =>
      if char.isDigit then .wrong
      else if char == '.' then .more { scan with phase := .point }
      else if isExponentMark char then .more { scan with phase := .mark }
      else .done
  | .whole =>
      if char.isDigit then scan.withDigit .whole char
      else if char == '.' then .more { scan with phase := .point }
      else if isExponentMark char then .more { scan with phase := .mark }
      else .done
  | .point => if char.isDigit then scan.withPlace char else .wrong
  | .fraction =>
      if char.isDigit then scan.withPlace char
      else if isExponentMark char then .more { scan with phase := .mark }
      else .done
  | .mark =>
      if char.isDigit then scan.withPower char
      else if char == '+' then .more { scan with phase := .markSign }
      else if char == '-' then .more { scan with phase := .markSign, negativePower := true }
      else .wrong
  | .markSign => if char.isDigit then scan.withPower char else .wrong
  | .power => if char.isDigit then scan.withPower char else .done

/-- The number scanned so far, none where more must follow. -/
def numeral? (scan : NumeralScan) : Option Numeral :=
  let power : Int := if scan.negativePower then -scan.power else scan.power
  let numeral (isWhole : Bool) : Numeral :=
    ⟨scan.negative, ⟨scan.significand, power - scan.places⟩, isWhole⟩
  match scan.phase with
  | .zero | .whole => some (numeral true)
  | .fraction | .power => some (numeral false)
  | _ => none

end NumeralScan

end SyntaxTree.Json
