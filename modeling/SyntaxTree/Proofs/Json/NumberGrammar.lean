import SyntaxTree.Proofs.Json.NumeralScanning
import SyntaxTree.Proofs.Overflow

/-!
# The grammar of numbers

A JSON number is a sign, digits without a zero too many in front, and maybe a point with places and
a power. However it is written, the scanner finds the decimal that its digits, its places and its
power stand for. Numbers without a point and a power are the whole ones. A number has a value unless
its decimal overflows.
-/

namespace SyntaxTree.Json

open NumeralScan (Digital begun)

/-- Digits, one at least. -/
structure DigitRun where
  digits : List Char
  digital : Digital digits
  nonempty : digits ≠ []

/-- The number that a run of digits stands for. -/
def DigitRun.value (run : DigitRun) : Nat := Nat.ofDigitChars 10 run.digits 0

inductive PowerSign where
  | unsigned
  | plus
  | minus

def PowerSign.text : PowerSign → List Char
  | .unsigned => []
  | .plus => ['+']
  | .minus => ['-']

structure PowerText where
  isCapital : Bool
  sign : PowerSign
  run : DigitRun

namespace PowerText

def mark (power : PowerText) : Char := if power.isCapital then 'E' else 'e'

def text (power : PowerText) : List Char := power.mark :: (power.sign.text ++ power.run.digits)

def value (power : PowerText) : Int :=
  match power.sign with
  | .minus => -(power.run.value : Int)
  | _ => power.run.value

end PowerText

/-- The parts of a number as JSON writes them. -/
structure NumberText where
  negative : Bool
  whole : DigitRun
  unpadded : whole.digits = ['0'] ∨ whole.digits.head? ≠ some '0'
  places? : Option DigitRun
  power? : Option PowerText

namespace NumberText

def places (number : NumberText) : List Char := (number.places?.map DigitRun.digits).getD []

def text (number : NumberText) : List Char :=
  (if number.negative then ['-'] else []) ++
    (number.whole.digits ++
      ((number.places?.map (fun places => '.' :: places.digits)).getD [] ++
        (number.power?.map PowerText.text).getD []))

def isWhole (number : NumberText) : Bool := number.places?.isNone && number.power?.isNone

/-- What the parts of a number stand for. -/
def numeral (number : NumberText) : Numeral where
  negative := number.negative
  decimal :=
    ⟨Nat.ofDigitChars 10 (number.whole.digits ++ number.places) 0,
      (number.power?.map PowerText.value).getD 0 - number.places.length⟩
  isWhole := number.isWhole

end NumberText

/-! ### Scanning -/

namespace NumeralScan

/-- The digits of a power are scanned behind its mark or its sign. -/
theorem after?_powerRun (scan : NumeralScan) (run : DigitRun)
    (phase : scan.phase = .mark ∨ scan.phase = .markSign) (fresh : scan.power = 0) :
    scan.after? run.digits = some { scan with phase := .power, power := run.value } := by
  obtain ⟨digits, digital, nonempty⟩ := run
  cases digits with
  | nil => exact absurd rfl nonempty
  | cons digit rest =>
      obtain ⟨isDigit, others⟩ := List.forall_mem_cons.mp digital
      have started : scan.after? (digit :: rest) =
          ({ scan with phase := .power, power := digitValue digit } : NumeralScan).after? rest := by
        rcases phase with phase | phase <;>
          simp only [after?, step, phase, isDigit, withPower, if_true, fresh] <;> simp
      rw [started, after?_power others rfl]
      simp [DigitRun.value, Nat.ofDigitChars_cons, digitValue]

/-- A power may follow the digits of a number. -/
theorem step_exponentMark {scan : NumeralScan}
    (phase : scan.phase = .whole ∨ scan.phase = .zero ∨ scan.phase = .fraction) {mark : Char}
    (isMark : isExponentMark mark = true) :
    scan.step mark = .more { scan with phase := .mark } := by
  have letter : mark = 'e' ∨ mark = 'E' := by simpa [isExponentMark] using isMark
  rcases letter with rfl | rfl <;> rcases phase with phase | phase | phase <;>
    simp [step, phase, isExponentMark]

theorem after?_powerText (scan : NumeralScan) (power : PowerText)
    (phase : scan.phase = .whole ∨ scan.phase = .zero ∨ scan.phase = .fraction)
    (fresh : scan.power = 0) (unsigned : scan.negativePower = false) :
    ∃ negativePower, (if negativePower then -(power.run.value : Int) else power.run.value) =
        power.value ∧
      scan.after? power.text =
        some { scan with phase := .power, negativePower, power := power.run.value } := by
  obtain ⟨isCapital, sign, run⟩ := power
  have isMark : isExponentMark (if isCapital then 'E' else 'e') = true := by
    cases isCapital <;> rfl
  have begins : scan.after? (PowerText.text ⟨isCapital, sign, run⟩) =
      ({ scan with phase := .mark } : NumeralScan).after? (sign.text ++ run.digits) := by
    rw [PowerText.text, after?, PowerText.mark, step_exponentMark phase isMark]
  rw [begins]
  cases sign with
  | unsigned =>
      have scanned := after?_powerRun { scan with phase := .mark } run (.inl rfl) fresh
      exact ⟨false, rfl, by simpa [PowerSign.text, unsigned] using scanned⟩
  | plus =>
      have scanned :=
        after?_powerRun { scan with phase := .markSign } run (.inr rfl) fresh
      exact ⟨false, rfl, by simpa [PowerSign.text, after?, step, unsigned] using scanned⟩
  | minus =>
      have scanned := after?_powerRun
        { scan with phase := .markSign, negativePower := true } run (.inr rfl) fresh
      exact ⟨true, rfl, by simpa [PowerSign.text, after?, step] using scanned⟩

/-- The digits in front of a point, a zero alone among them. -/
theorem after?_wholePart (number : NumberText) :
    ∃ phase, (phase = .whole ∨ phase = .zero) ∧
      (begun number.negative).after? number.whole.digits =
        some { phase, negative := number.negative, significand := number.whole.value } := by
  obtain ⟨negative, ⟨digits, digital, nonempty⟩, unpadded, -, -⟩ := number
  rcases unpadded with zero | nonzero
  · dsimp only at zero
    subst zero
    exact ⟨.zero, .inr rfl, rfl⟩
  · cases digits with
    | nil => exact absurd rfl nonempty
    | cons first rest =>
        refine ⟨.whole, .inl rfl, after?_begun negative digital ?_⟩
        rintro rfl
        exact nonzero rfl

end NumeralScan

/-! ### Where a scan stands -/

namespace NumeralScan

theorem digitValue_pos {digit : Char} (isDigit : digit.isDigit = true) (nonzero : digit ≠ '0') :
    0 < digitValue digit := by
  have least : '0'.toNat ≤ digit.toNat := by
    simp only [Char.isDigit, Bool.and_eq_true, decide_eq_true_eq, ge_iff_le,
      UInt32.le_iff_toNat_le] at isDigit
    exact isDigit.1
  have other : digit.toNat ≠ '0'.toNat := fun equal => nonzero (Char.toNat_inj.mp equal)
  unfold digitValue
  omega

/-- The parts that a number has where its scan stands. -/
structure Standing (scan : NumeralScan) : Prop where
  unpowered : scan.phase ≠ .markSign → scan.phase ≠ .power → scan.power = 0
  pointless : scan.phase = .sign ∨ scan.phase = .zero ∨ scan.phase = .whole → scan.places = 0
  blank : scan.phase = .sign ∨ scan.phase = .zero → scan.significand = 0
  positive : scan.phase = .whole → 0 < scan.significand

theorem Standing.begun (negative : Bool) : (begun negative).Standing where
  unpowered _ _ := rfl
  pointless _ := rfl
  blank _ := rfl
  positive := nofun

theorem Standing.step {scan next : NumeralScan} {char : Char} (standing : scan.Standing)
    (stepped : scan.step char = .more next) : next.Standing := by
  obtain ⟨unpowered, pointless, blank, positive⟩ := standing
  have longer (begun : 0 < scan.significand) (digit : Nat) :
      0 < 10 * scan.significand + digit := by omega
  unfold NumeralScan.step withDigit withPlace withPower at stepped
  split at stepped <;> rename_i phase <;>
    simp only [phase] at unpowered pointless blank positive <;> repeat' split at stepped
  all_goals cases stepped <;> constructor <;> simp_all
  exact digitValue_pos ‹_› ‹_›

/-- What every step keeps is kept by all of them. -/
theorem after?_induction {motive : NumeralScan → Prop}
    (step : ∀ scan char next, motive scan → scan.step char = .more next → motive next)
    {scan after : NumeralScan} {text : List Char} (start : motive scan)
    (scanned : scan.after? text = some after) : motive after := by
  induction text generalizing scan with
  | nil =>
      cases scanned
      exact start
  | cons char rest ih =>
      simp only [after?] at scanned
      split at scanned
      · rename_i next stepped
        exact ih (step scan char next start stepped) scanned
      · cases scanned

theorem Standing.after? {scan after : NumeralScan} {text : List Char} (standing : scan.Standing)
    (scanned : scan.after? text = some after) : after.Standing :=
  after?_induction (fun _ _ _ => Standing.step) standing scanned

/-- A whole number has no power of ten. -/
theorem Standing.exponent {scan : NumeralScan} (standing : scan.Standing) {numeral : Numeral}
    (complete : scan.numeral? = some numeral) (whole : numeral.isWhole = true) :
    numeral.decimal.exponent = 0 := by
  have unscaled (placeless : scan.places = 0) (unpowered : scan.power = 0) :
      (if scan.negativePower then -(scan.power : Int) else scan.power) - scan.places = 0 := by
    simp [placeless, unpowered]
  cases phase : scan.phase <;> simp only [numeral?, phase] at complete <;> cases complete
  · exact unscaled (standing.pointless (.inr (.inl phase)))
      (standing.unpowered (by simp [phase]) (by simp [phase]))
  · exact unscaled (standing.pointless (.inr (.inr phase)))
      (standing.unpowered (by simp [phase]) (by simp [phase]))
  · cases whole
  · cases whole

end NumeralScan

theorem Scans.exponent {text : List Char} {numeral : Numeral} (scans : Scans text numeral)
    (whole : numeral.isWhole = true) : numeral.decimal.exponent = 0 := by
  obtain ⟨negative, digits, scan, -, scanned, complete⟩ := scans
  exact ((NumeralScan.Standing.begun negative).after? scanned).exponent complete whole

/-! ### Values -/

namespace Numeral

/-- A whole number within 64 bits is far from overflowing. -/
theorem not_overflows_of_small {decimal : Decimal} (whole : decimal.exponent = 0)
    (small : decimal.significand < 2 ^ 64) : ¬decimal.Overflows := by
  have bound : 2 ^ 64 ≤ Binary64.overflowBound := by decide +kernel
  unfold Decimal.Overflows
  simp only [whole, Int.neg_zero, Int.toNat_zero, Nat.pow_zero, Nat.mul_one]
  omega

/-- A number has no value if and only if it overflows. -/
theorem value?_eq_none_iff {numeral : Numeral}
    (sound : numeral.isWhole = true → numeral.decimal.exponent = 0) :
    numeral.value? = none ↔ numeral.decimal.Overflows := by
  unfold value?
  dsimp only
  split
  case isTrue unsigned =>
      simp only [Bool.and_eq_true, decide_eq_true_eq] at unsigned
      exact iff_of_false nofun (not_overflows_of_small (sound unsigned.1.1) unsigned.2)
  case isFalse =>
      split
      case isTrue signed =>
          simp only [Bool.and_eq_true, decide_eq_true_eq] at signed
          exact iff_of_false nofun (not_overflows_of_small (sound signed.1.1.1) (by omega))
      case isFalse =>
          rw [Option.map_eq_none_iff, Binary64.ofDecimal?_eq_none_iff]

end Numeral

/-! ### The grammar -/

namespace NumberText

open NumeralScan

/-- The digits up to a power. -/
theorem after?_mantissa (number : NumberText) :
    ∃ phase, (phase = .whole ∨ phase = .zero ∨ phase = .fraction) ∧
      (number.places? = none ↔ phase ≠ .fraction) ∧
      (begun number.negative).after? (number.whole.digits ++
          (number.places?.map (fun places => '.' :: places.digits)).getD []) =
        some { phase, negative := number.negative,
               significand := Nat.ofDigitChars 10 (number.whole.digits ++ number.places) 0,
               places := number.places.length } := by
  obtain ⟨phase, either, scanned⟩ := after?_wholePart number
  unfold places
  cases number.places? with
  | none =>
      refine ⟨phase, either.imp_right .inl, ?_, by simpa [DigitRun.value] using scanned⟩
      rcases either with rfl | rfl <;> simp
  | some run =>
      have pointed := after?_pointed scanned either run.digital run.nonempty
      exact ⟨.fraction, .inr (.inr rfl), by simp,
        by simpa [Nat.ofDigitChars_append, DigitRun.value] using pointed⟩

/-- A number as JSON writes it is scanned as what its parts stand for. -/
theorem scans (number : NumberText) : Scans number.text number.numeral := by
  obtain ⟨phase, phases, fractional, scanned⟩ := number.after?_mantissa
  have whole : number.places?.isNone = decide (phase ≠ .fraction) := by
    rw [Bool.eq_iff_iff, Option.isNone_iff_eq_none, fractional, decide_eq_true_iff]
  unfold text numeral isWhole
  rw [← List.append_assoc number.whole.digits, whole]
  cases number.power? with
  | none =>
      refine ⟨number.negative, _, _, rfl, by simpa using scanned, ?_⟩
      rcases phases with rfl | rfl | rfl <;> simp [numeral?]
  | some power =>
      obtain ⟨negativePower, value, powered⟩ := after?_powerText
        { phase, negative := number.negative,
          significand := Nat.ofDigitChars 10 (number.whole.digits ++ number.places) 0,
          places := number.places.length } power phases rfl rfl
      refine ⟨number.negative, _, _, rfl, (after?_append scanned _).trans powered, ?_⟩
      simp [numeral?, value]

end NumberText

end SyntaxTree.Json
