import SyntaxTree.Json.Lexeme
import SyntaxTree.Proofs.DecimalReading

/-!
# Scanning numbers

The texts of integers and of finite numbers are numerals for the scanner, in every format. What
is scanned is the number's own digits and exponent, up to zeros that a positional text adds.
-/

namespace SyntaxTree.Json

namespace NumeralScan

/-- Where a number stands that has nothing yet, but maybe a sign. -/
def begun (negative : Bool) : NumeralScan := { phase := .sign, negative := negative }

/-- The number after more characters that all belong to it. -/
def after? (scan : NumeralScan) : List Char → Option NumeralScan
  | [] => some scan
  | char :: rest =>
      match scan.step char with
      | .more scan => scan.after? rest
      | _ => none

theorem after?_append {scan between : NumeralScan} {first : List Char}
    (goes : scan.after? first = some between) (second : List Char) :
    scan.after? (first ++ second) = between.after? second := by
  induction first generalizing scan with
  | nil =>
      cases goes
      rfl
  | cons char rest ih =>
      simp only [after?, List.cons_append] at goes ⊢
      split at goes
      · exact ih goes
      · cases goes

/-! ### Runs of digits -/

/-- All of the characters are digits. -/
def Digital (chars : List Char) : Prop := ∀ char ∈ chars, char.isDigit = true

theorem digital_toDigits (natural : Nat) : Digital (Nat.toDigits 10 natural) :=
  fun _ member => Nat.isDigit_of_mem_toDigits (by decide) (by decide) member

theorem digital_replicate_zero (count : Nat) : Digital (List.replicate count '0') := by
  intro char member
  rw [List.eq_of_mem_replicate member]
  rfl

theorem Digital.append {first second : List Char} (start : Digital first) (rest : Digital second) :
    Digital (first ++ second) :=
  fun char member => (List.mem_append.mp member).elim (start char) (rest char)

theorem toDigits_ne_zero_cons {natural : Nat} (positive : natural ≠ 0) :
    ∃ first rest, Nat.toDigits 10 natural = first :: rest ∧ first ≠ '0' := by
  induction natural using Nat.strongRecOn with
  | ind natural ih =>
      by_cases small : natural < 10
      · have table : ∀ digit < 10, digit ≠ 0 → digit.digitChar ≠ '0' := by decide
        exact ⟨natural.digitChar, [], Nat.toDigits_of_lt_base small, table natural small positive⟩
      · obtain ⟨first, rest, equal, nonzero⟩ := ih (natural / 10) (by omega) (by omega)
        refine ⟨first, rest ++ [(natural % 10).digitChar], ?_, nonzero⟩
        rw [Nat.toDigits_of_base_le (by decide) (by omega), equal, List.cons_append]

theorem after?_whole {scan : NumeralScan} {digits : List Char} (digital : Digital digits)
    (phase : scan.phase = .whole) :
    scan.after? digits =
      some { scan with significand := Nat.ofDigitChars 10 digits scan.significand } := by
  induction digits generalizing scan with
  | nil => rfl
  | cons digit rest ih =>
      have isDigit := digital digit List.mem_cons_self
      simp only [after?, step, phase, isDigit, withDigit, if_true]
      rw [ih (fun char member => digital char (List.mem_cons_of_mem digit member)) rfl]
      simp [Nat.ofDigitChars_cons, digitValue]

theorem after?_fraction {scan : NumeralScan} {digits : List Char} (digital : Digital digits)
    (phase : scan.phase = .fraction) :
    scan.after? digits =
      some { scan with
        significand := Nat.ofDigitChars 10 digits scan.significand
        places := scan.places + digits.length } := by
  induction digits generalizing scan with
  | nil => rfl
  | cons digit rest ih =>
      have isDigit := digital digit List.mem_cons_self
      simp only [after?, step, phase, isDigit, withPlace, if_true]
      rw [ih (fun char member => digital char (List.mem_cons_of_mem digit member)) rfl]
      simp [Nat.ofDigitChars_cons, digitValue, Nat.add_assoc, Nat.add_comm 1]

theorem after?_point {scan : NumeralScan} {digits : List Char} (digital : Digital digits)
    (nonempty : digits ≠ []) (phase : scan.phase = .point) :
    scan.after? digits =
      some { scan with
        phase := .fraction
        significand := Nat.ofDigitChars 10 digits scan.significand
        places := scan.places + digits.length } := by
  cases digits with
  | nil => exact absurd rfl nonempty
  | cons digit rest =>
      have isDigit := digital digit List.mem_cons_self
      simp only [after?, step, phase, isDigit, withPlace, if_true]
      rw [after?_fraction (fun char member => digital char (List.mem_cons_of_mem digit member)) rfl]
      simp [Nat.ofDigitChars_cons, digitValue, Nat.add_assoc, Nat.add_comm 1]

theorem after?_power {scan : NumeralScan} {digits : List Char} (digital : Digital digits)
    (phase : scan.phase = .power) :
    scan.after? digits = some { scan with power := Nat.ofDigitChars 10 digits scan.power } := by
  induction digits generalizing scan with
  | nil => rfl
  | cons digit rest ih =>
      have isDigit := digital digit List.mem_cons_self
      simp only [after?, step, phase, isDigit, withPower, if_true]
      rw [ih (fun char member => digital char (List.mem_cons_of_mem digit member)) rfl]
      simp [Nat.ofDigitChars_cons, digitValue]

theorem after?_mark (scan : NumeralScan) (natural : Nat)
    (phase : scan.phase = .mark ∨ scan.phase = .markSign) (fresh : scan.power = 0) :
    scan.after? (Nat.toDigits 10 natural) =
      some { scan with phase := .power, power := natural } := by
  have digital := digital_toDigits natural
  have value := Nat.ofDigitChars_ten_toDigits (n := natural)
  generalize spelled : Nat.toDigits 10 natural = digits at digital value
  cases digits with
  | nil => exact absurd spelled Nat.toDigits_ne_nil
  | cons digit rest =>
      have isDigit := digital digit List.mem_cons_self
      have started : scan.after? (digit :: rest) =
          ({ scan with phase := .power, power := digitValue digit } : NumeralScan).after? rest := by
        rcases phase with phase | phase <;>
          simp only [after?, step, phase, isDigit, withPower, if_true, fresh] <;> simp
      rw [started, after?_power
        (fun char member => digital char (List.mem_cons_of_mem digit member)) rfl]
      simp only [Nat.ofDigitChars_cons, Nat.mul_zero, Nat.zero_add] at value
      simpa [digitValue] using value

/-! ### Whole numbers -/

/-- Digits that do not start with a zero are scanned as a whole number. -/
theorem after?_begun (negative : Bool) {first : Char} {rest : List Char}
    (digital : Digital (first :: rest)) (nonzero : first ≠ '0') :
    (begun negative).after? (first :: rest) =
      some { phase := .whole, negative := negative,
             significand := Nat.ofDigitChars 10 (first :: rest) 0 } := by
  have isDigit := digital first List.mem_cons_self
  have other : (first == '0') = false := by simpa using nonzero
  simp only [after?, begun, step, other, isDigit, withDigit, if_true, Bool.false_eq_true, if_false]
  rw [after?_whole (fun char member => digital char (List.mem_cons_of_mem first member)) rfl]
  simp [Nat.ofDigitChars_cons, digitValue]

theorem after?_toDigits (negative : Bool) {natural : Nat} (positive : natural ≠ 0) :
    (begun negative).after? (Nat.toDigits 10 natural) =
      some { phase := .whole, negative := negative, significand := natural } := by
  obtain ⟨first, rest, spelled, nonzero⟩ := toDigits_ne_zero_cons positive
  have digital := digital_toDigits natural
  have value := Nat.ofDigitChars_ten_toDigits (n := natural)
  rw [spelled] at digital value ⊢
  rw [after?_begun negative digital nonzero, value]

/-! ### Decimals -/

/-- The power of a number, with or without its sign. -/
theorem after?_integer (scan : NumeralScan) (showsPlus : Bool) (power : Int)
    (phase : scan.phase = .mark) (fresh : scan.power = 0) (unsigned : scan.negativePower = false) :
    scan.after? ((if showsPlus && decide (0 ≤ power) then ['+'] else []) ++ Text.integer power) =
      some { scan with
        phase := .power
        negativePower := decide (power < 0)
        power := power.natAbs } := by
  cases power with
  | ofNat natural =>
      have nonnegative : ¬(natural : Int) < 0 := by omega
      cases showsPlus with
      | false =>
          have scanned := after?_mark scan natural (.inl phase) fresh
          simpa [Text.integer, unsigned, nonnegative] using scanned
      | true =>
          have scanned := after?_mark { scan with phase := .markSign } natural (.inr rfl) fresh
          have signed : scan.step '+' = .more { scan with phase := .markSign } := by
            simp [step, phase]
          simpa [Text.integer, unsigned, after?, signed, nonnegative] using scanned
  | negSucc natural =>
      have scanned := after?_mark { scan with phase := .markSign, negativePower := true }
        (natural + 1) (.inr rfl) fresh
      have signed : scan.step '-' = .more { scan with phase := .markSign, negativePower := true } := by
        simp [step, phase]
      simpa [Text.integer, after?, signed] using scanned

/-- Digits behind a point, after the digits in front of it. -/
theorem after?_pointed {start scan : NumeralScan} {whole places : List Char}
    (scanned : start.after? whole = some scan) (phase : scan.phase = .whole ∨ scan.phase = .zero)
    (digital : Digital places) (nonempty : places ≠ []) :
    start.after? (whole ++ '.' :: places) =
      some { scan with
        phase := .fraction
        significand := Nat.ofDigitChars 10 places scan.significand
        places := scan.places + places.length } := by
  have pointed : scan.step '.' = .more { scan with phase := .point } := by
    rcases phase with phase | phase <;> simp [step, phase]
  rw [after?_append scanned, after?, pointed]
  exact after?_point digital nonempty rfl

/-- One digit, and the others behind a point if there are any. -/
theorem after?_mantissa (negative : Bool) {decimal : Decimal} (nonzero : decimal.significand ≠ 0) :
    ∃ scan, (begun negative).after? (match decimal.digits with
        | first :: second :: rest => first :: '.' :: second :: rest
        | short => short) = some scan ∧
      scan.step 'e' = .more { scan with phase := .mark } ∧ scan.negative = negative ∧
      scan.significand = decimal.significand ∧ scan.places = decimal.digits.length - 1 ∧
      scan.power = 0 ∧ scan.negativePower = false := by
  obtain ⟨first, rest, spelled, notZero⟩ := toDigits_ne_zero_cons nonzero
  have digital := digital_toDigits decimal.significand
  have value := Nat.ofDigitChars_ten_toDigits (n := decimal.significand)
  rw [Decimal.digits]
  rw [spelled] at digital value ⊢
  obtain ⟨isDigit, othersDigital⟩ := List.forall_mem_cons.mp digital
  have lead := after?_begun negative (List.forall_mem_singleton.mpr isDigit) notZero
  cases rest with
  | nil => exact ⟨_, lead, rfl, rfl, value, rfl, rfl, rfl⟩
  | cons second others =>
      have pointed := after?_pointed lead (.inl rfl) othersDigital (List.cons_ne_nil second others)
      refine ⟨_, pointed, rfl, rfl, value, ?_, rfl, rfl⟩
      simp

theorem after?_scientific (negative showsPlus : Bool) {decimal : Decimal}
    (nonzero : decimal.significand ≠ 0) :
    ∃ scan, (begun negative).after? (decimal.scientific showsPlus) = some scan ∧
      scan.numeral? = some ⟨negative, decimal, false⟩ := by
  obtain ⟨mantissa, scanned, marked, sign, significand, places, fresh, unsigned⟩ :=
    after?_mantissa negative nonzero
  have powered := after?_integer { mantissa with phase := .mark } showsPlus decimal.leadingPower
    rfl fresh unsigned
  have onward (rest : List Char) :
      mantissa.after? ('e' :: rest) = after? { mantissa with phase := .mark } rest := by
    rw [after?, marked]
  refine ⟨_, ((after?_append scanned _).trans (onward _)).trans powered, ?_⟩
  have power (value : Int) :
      (if decide (value < 0) = true then -(value.natAbs : Int) else value.natAbs) = value := by
    simp only [decide_eq_true_eq]
    omega
  simp only [numeral?, sign, significand, places, power]
  rw [Decimal.leadingPower, Int.add_sub_cancel]

/-- The digits in front of the point, where zeros fill up what is short of one digit there. -/
theorem after?_padded (negative : Bool) {first : Char} {rest : List Char}
    (digital : Digital (first :: rest)) (nonzero : first ≠ '0') (places : Nat) :
    let digits := List.replicate (places + 2 - (first :: rest).length) '0' ++ first :: rest
    let whole := digits.take (digits.length - (places + 1))
    ∃ phase, (phase = .whole ∨ phase = .zero) ∧
      (begun negative).after? whole =
        some { phase := phase, negative := negative,
               significand := Nat.ofDigitChars 10 whole 0 } := by
  intro digits whole
  by_cases short : (first :: rest).length < places + 2
  · have one : whole = ['0'] := by
      obtain ⟨count, missing⟩ : ∃ count, places + 2 - (first :: rest).length = count + 1 :=
        ⟨places + 1 - (first :: rest).length, by omega⟩
      have length : digits.length - (places + 1) = 1 := by
        simp only [digits, List.length_append, List.length_replicate]
        omega
      have padded : digits = '0' :: (List.replicate count '0' ++ first :: rest) := by
        simp only [digits, missing, List.replicate_succ, List.cons_append]
      change digits.take (digits.length - (places + 1)) = ['0']
      rw [length, padded, List.take_succ_cons, List.take_zero]
    rw [one]
    exact ⟨.zero, .inr rfl, rfl⟩
  · have unpadded : digits = first :: rest := by
      simp only [digits, show places + 2 - (first :: rest).length = 0 by omega,
        List.replicate_zero, List.nil_append]
    obtain ⟨count, length⟩ : ∃ count, digits.length - (places + 1) = count + 1 :=
      ⟨digits.length - (places + 2), by rw [unpadded]; omega⟩
    have shown : whole = first :: rest.take count := by
      change digits.take (digits.length - (places + 1)) = first :: rest.take count
      rw [length, unpadded, List.take_succ_cons]
    rw [shown]
    refine ⟨.whole, .inl rfl, after?_begun negative (fun char member => digital char ?_) nonzero⟩
    exact (List.mem_cons.mp member).elim (fun equal => equal ▸ List.mem_cons_self)
      (fun later => List.mem_cons_of_mem first (List.mem_of_mem_take later))

theorem after?_positional (negative : Bool) {decimal : Decimal}
    (nonzero : decimal.significand ≠ 0) :
    ∃ scan, (begun negative).after? decimal.positional = some scan ∧
      scan.numeral? = some ⟨negative, decimal.withPlace, false⟩ := by
  obtain ⟨significand, exponent⟩ := decimal
  cases exponent with
  | ofNat exponent =>
      have whole : (begun negative).after?
            (Nat.toDigits 10 significand ++ List.replicate exponent '0') =
          some { phase := .whole, negative := negative,
                 significand := significand * 10 ^ exponent } := by
        rw [after?_append (after?_toDigits negative nonzero),
          after?_whole (digital_replicate_zero exponent) rfl, Nat.ofDigitChars_replicate_zero,
          Nat.mul_comm]
      have pointed := after?_pointed whole (.inl rfl) (digital_replicate_zero 1) (by decide)
      refine ⟨_, pointed, ?_⟩
      have shifted : 10 * (significand * 10 ^ exponent) = significand * 10 ^ (exponent + 1) := by
        rw [Nat.pow_succ]
        ac_rfl
      simp [numeral?, Decimal.withPlace, Nat.ofDigitChars_cons, shifted]
  | negSucc places =>
      obtain ⟨first, rest, spelled, notZero⟩ := toDigits_ne_zero_cons nonzero
      have digital := digital_toDigits significand
      have value := Nat.ofDigitChars_ten_toDigits (n := significand)
      dsimp only at spelled
      rw [spelled] at digital value
      obtain ⟨phase, either, scanned⟩ := after?_padded negative digital notZero places
      simp only [Decimal.positional, Decimal.digits, spelled]
      generalize padding : List.replicate (places + 2 - (first :: rest).length) '0' = zeros at *
      have zerosDigital : Digital zeros := padding ▸ digital_replicate_zero _
      have length : places + 1 < (zeros ++ first :: rest).length := by
        simp only [← padding, List.length_append, List.length_replicate]
        omega
      have total : Nat.ofDigitChars 10 (zeros ++ first :: rest) 0 = significand := by
        rw [Nat.ofDigitChars_append, ← padding, Nat.ofDigitChars_replicate_zero, Nat.mul_zero,
          value]
      have allDigital := zerosDigital.append digital
      generalize zeros ++ first :: rest = digits at *
      have placesDigital : Digital (digits.drop (digits.length - (places + 1))) :=
        fun char member => allDigital char (List.mem_of_mem_drop member)
      have nonempty : digits.drop (digits.length - (places + 1)) ≠ [] := by
        rw [Ne, List.drop_eq_nil_iff]
        omega
      have pointed := after?_pointed scanned either placesDigital nonempty
      have count : digits.length - (digits.length - (places + 1)) = places + 1 := by omega
      simp only [← Nat.ofDigitChars_append, List.take_append_drop, total, List.length_drop,
        count] at pointed
      refine ⟨_, pointed, ?_⟩
      simp [numeral?, Decimal.withPlace, Int.negSucc_eq]

theorem after?_text (negative : Bool) (format : RealFormat) {decimal : Decimal}
    (nonzero : decimal.significand ≠ 0) :
    ∃ scan, (begun negative).after? (decimal.text format) = some scan ∧
      scan.numeral? = some ⟨negative, decimal.shown format, false⟩ := by
  unfold Decimal.text Decimal.shown
  split
  · exact after?_positional negative nonzero
  · exact after?_scientific negative format.showsPlus nonzero

end NumeralScan

/-! ### The scanner on numbers -/

/-- What follows a number directly, in a text in which nothing is blank, does not go on with it. -/
def Delimited : List Char → Prop
  | [] => True
  | char :: _ => char = ',' ∨ char = ']' ∨ char = '}'

/-- The text is cut into the lexemes, whatever was found before it and whatever follows it. -/
def Lexes (text : List Char) (spelled : List Lexeme) : Prop :=
  ∀ found rest, Delimited rest →
    ((text ++ rest).foldl Scanner.step ⟨found, .between⟩).finish =
      (rest.foldl Scanner.step ⟨spelled.reverse ++ found, .between⟩).finish

open NumeralScan in
theorem foldl_numeral {scan after : NumeralScan} {text : List Char}
    (scanned : scan.after? text = some after) (found : List Lexeme) :
    text.foldl Scanner.step ⟨found, .numeral scan⟩ = ⟨found, .numeral after⟩ := by
  induction text generalizing scan with
  | nil =>
      cases scanned
      rfl
  | cons char rest ih =>
      simp only [after?] at scanned
      split at scanned
      · rename_i next stepped
        rw [List.foldl_cons, ← ih scanned]
        simp only [Scanner.step, stepped, Scanner.enter]
      · cases scanned

open NumeralScan in
theorem start_digit (scanner : Scanner) {char : Char} (digit : char.isDigit = true) :
    ∃ scan, (begun false).step char = .more scan ∧
      scanner.start char = scanner.enter (.numeral scan) := by
  by_cases zero : char = '0'
  · subst zero
    exact ⟨_, rfl, rfl⟩
  · have other : (char == '0') = false := by simpa using zero
    refine ⟨{ phase := .whole, negative := false, significand := digitValue char }, ?_, ?_⟩
    · simp [begun, step, other, digit, withDigit]
    · unfold Scanner.start
      split <;> first | exact absurd digit (by decide) | exact absurd rfl zero | simp [digit]

open NumeralScan in
/-- A number that is complete ends before what cannot go on with it. -/
theorem step_delimiter {scan : NumeralScan} {numeral : Numeral}
    (complete : scan.numeral? = some numeral) {char : Char} {rest : List Char}
    (delimited : Delimited (char :: rest)) : scan.step char = .done := by
  have phases : scan.phase = .zero ∨ scan.phase = .whole ∨ scan.phase = .fraction ∨
      scan.phase = .power := by
    cases phase : scan.phase <;> simp_all [numeral?]
  rcases delimited with rfl | rfl | rfl <;> rcases phases with phase | phase | phase | phase <;>
    simp [step, phase, isExponentMark]

open NumeralScan in
/-- What is complete starts with a digit. -/
theorem isDigit_of_complete {negative : Bool} {text : List Char} {scan : NumeralScan}
    {numeral : Numeral} (scanned : (begun negative).after? text = some scan)
    (complete : scan.numeral? = some numeral) :
    ∃ first rest, text = first :: rest ∧ first.isDigit = true := by
  cases text with
  | nil =>
      cases scanned
      cases complete
  | cons first rest =>
      refine ⟨first, rest, rfl, ?_⟩
      by_cases zero : first = '0'
      · rw [zero]
        rfl
      · cases digit : first.isDigit with
        | true => rfl
        | false => simp [after?, begun, step, zero, digit] at scanned

/-- The text is that of a complete number, behind a sign or not. -/
def Scans (text : List Char) (numeral : Numeral) : Prop :=
  ∃ negative digits scan, text = (if negative then ['-'] else []) ++ digits ∧
    (NumeralScan.begun negative).after? digits = some scan ∧ scan.numeral? = some numeral

open NumeralScan in
/-- The scanner is in the middle of a complete number behind the text of one. -/
theorem Scans.reaches {text : List Char} {numeral : Numeral} (scans : Scans text numeral)
    (found : List Lexeme) :
    ∃ scan, text.foldl Scanner.step ⟨found, .between⟩ = ⟨found, .numeral scan⟩ ∧
      scan.numeral? = some numeral := by
  obtain ⟨negative, digits, scan, rfl, scanned, complete⟩ := scans
  refine ⟨scan, ?_, complete⟩
  cases negative with
  | true => exact foldl_numeral scanned found
  | false =>
      obtain ⟨first, others, rfl, digit⟩ := isDigit_of_complete scanned complete
      obtain ⟨next, stepped, started⟩ := start_digit ⟨found, .between⟩ digit
      rw [after?, stepped] at scanned
      have onward := foldl_numeral scanned found
      change others.foldl Scanner.step (Scanner.start ⟨found, .between⟩ first) = _
      rw [started]
      exact onward

open NumeralScan in
/-- What is scanned as a number is the lexeme of the number. -/
theorem Scans.lexes {text : List Char} {numeral : Numeral} (scans : Scans text numeral) :
    Lexes text [.numeral numeral] := by
  intro found rest delimited
  obtain ⟨scan, reaches, complete⟩ := scans.reaches found
  have shown : scan.lexeme = .numeral numeral := by rw [NumeralScan.lexeme, complete]
  rw [List.foldl_append, reaches]
  cases rest with
  | nil => simp [Scanner.finish, shown]
  | cons char rest =>
      have ends : Scanner.step ⟨found, .numeral scan⟩ char =
          Scanner.step ⟨.numeral numeral :: found, .between⟩ char := by
        simp only [Scanner.step, step_delimiter complete delimited, shown, Scanner.emit]
      rw [List.foldl_cons, List.foldl_cons, ends]
      rfl

/-- What is scanned of a whole number. -/
def Numeral.ofInt (value : Int) : Numeral := ⟨decide (value < 0), ⟨value.natAbs, 0⟩, true⟩

open NumeralScan in
theorem scans_integer (value : Int) : Scans (Text.integer value) (.ofInt value) := by
  cases value with
  | ofNat natural =>
      by_cases zero : natural = 0
      · subst zero
        exact ⟨false, ['0'], _, rfl, rfl, rfl⟩
      · have nonnegative : ¬(natural : Int) < 0 := by omega
        refine ⟨false, _, _, rfl, after?_toDigits false zero, ?_⟩
        simp [numeral?, Numeral.ofInt, nonnegative]
  | negSucc natural =>
      refine ⟨true, _, _, rfl, after?_toDigits true (Nat.succ_ne_zero natural), ?_⟩
      simp [numeral?, Numeral.ofInt]

/-- What is scanned of a floating-point number in a format. -/
def Numeral.ofReal (format : RealFormat) (real : Binary64) : Numeral where
  negative := real.negative
  decimal :=
    if real.magnitude.val = 0 then ⟨0, -1⟩ else (real.shortestDecimal format.tie).shown format
  isWhole := false

open NumeralScan in
theorem scans_real (format : RealFormat) (real : Binary64) :
    Scans (real.text format) (.ofReal format real) := by
  unfold Binary64.text Numeral.ofReal
  by_cases zero : real.magnitude.val = 0
  · simp only [zero, if_true]
    exact ⟨real.negative, _, _, rfl, rfl, rfl⟩
  · simp only [zero, if_false]
    have nonzero := Binary64.significand_shortestDecimal_ne_zero format.tie zero
    obtain ⟨scan, scanned, complete⟩ := after?_text real.negative format nonzero
    exact ⟨real.negative, _, scan, rfl, scanned, complete⟩

/-- The values of whole numbers within the two 64-bit ranges are these numbers. -/
theorem Numeral.value?_ofInt {value : Int} (least : -2 ^ 63 ≤ value) (bound : value < 2 ^ 64) :
    (Numeral.ofInt value).value? = some (.integer value) := by
  unfold Numeral.ofInt Numeral.value?
  by_cases negative : value < 0
  · have nonzero : value.natAbs ≠ 0 := by omega
    have small : value.natAbs ≤ 2 ^ 63 := by omega
    have back : -(value.natAbs : Int) = value := by omega
    simp only [negative, decide_true, Bool.true_and, Bool.not_true, Bool.false_and,
      Bool.false_eq_true, if_false, Bool.and_eq_true, bne_iff_ne, ne_eq, nonzero,
      not_false_eq_true, small, and_self, if_true, back]
  · have small : value.natAbs < 2 ^ 64 := by omega
    have back : (value.natAbs : Int) = value := by omega
    simp only [negative, decide_false, Bool.not_false, Bool.and_self, Bool.true_and, small,
      decide_true, if_true, back]

/-- The value of what is scanned of a finite number is the number. -/
theorem Numeral.value?_ofReal {format : RealFormat} (moderate : format.bound ≤ 400)
    {real : Binary64} (finite : real.isFinite = true) :
    (Numeral.ofReal format real).value? = some (.real real) := by
  have reads : Binary64.ofDecimal? (Numeral.ofReal format real).negative
      (Numeral.ofReal format real).decimal = some real := by
    unfold Numeral.ofReal
    by_cases zero : real.magnitude.val = 0
    · have magnitude := Binary64.ofMagnitude?_magnitude finite
      simp only [zero, if_true, Binary64.ofDecimal?] at magnitude ⊢
      exact magnitude
    · simp only [zero, if_false]
      rw [Binary64.ofDecimal?_shown moderate]
      exact Binary64.ofDecimal?_shortestDecimal format.tie finite zero
  have fractional : (Numeral.ofReal format real).isWhole = false := rfl
  simp [Numeral.value?, reads, fractional]

end SyntaxTree.Json
