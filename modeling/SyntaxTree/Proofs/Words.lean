import SyntaxTree.Form
import SyntaxTree.Proofs.Json.NumeralScanning
import SyntaxTree.Proofs.Shape

/-!
# Words

Names and operators are words of few characters, none of which ends an item or opens one. Numbers
are words as well, and begin as no name does.
-/

namespace SyntaxTree

namespace Shape

instance (word : List Char) : Decidable (Readable word) :=
  decidable_of_iff (word ≠ [] ∧ word.all isPlain = true ∧
      (word.head? = some '.' → word = ['.'] ∨ word = ['.', '.', '.']))
    ⟨fun ⟨nonempty, plain, dots⟩ => ⟨nonempty, List.all_eq_true.mp plain, dots⟩,
      fun readable =>
        ⟨readable.nonempty, List.all_eq_true.mpr readable.plain, readable.dots⟩⟩

/-- Words are readable that are made of characters without delimiters and that begin with no dot. -/
theorem Readable.of_chars (allowed : Char → Bool)
    (clear : delimiters.any allowed = false) {word : List Char}
    (nonempty : word ≠ []) (chars : ∀ char ∈ word, allowed char = true)
    (head : word.head? ≠ some '.') : Readable word where
  nonempty := nonempty
  plain char member := by
    have allows := chars char member
    cases plain : isPlain char with
    | true => rfl
    | false =>
        have delimiter : char ∈ delimiters := by simpa [isPlain] using plain
        rw [Bool.eq_false_iff.mpr (List.any_eq_false.mp clear char delimiter)] at allows
        cases allows
  dots first := absurd first head

end Shape

namespace Text

def isNameChar (char : Char) : Bool := char.isAlphanum || char == '_'

def isSymbolChar (char : Char) : Bool :=
  ['+', '-', '*', '/', '%', '<', '>', '&', '|', '^', '~'].contains char

/-- The words that stand for values. -/
def valueWords : List String := ["none", "true", "false", "inf", "nan"]

/-- A name of letters, digits and underscores that is taken neither for a number nor for a value. -/
structure Identifier (name : String) : Prop where
  nonempty : name ≠ ""
  chars : ∀ char ∈ name.toList, isNameChar char = true
  start : ∀ char, name.toList.head? = some char → char.isDigit = false
  free : name ∉ valueWords

structure Symbolic (name : String) : Prop where
  nonempty : name ≠ ""
  chars : ∀ char ∈ name.toList, isSymbolChar char = true

/-- The operator of a case is a name or is made of symbols and equals signs. -/
def CaseOperator (name : String) : Prop :=
  Identifier name ∨ name ≠ "" ∧ ∀ char ∈ name.toList, (isSymbolChar char || char == '=') = true

/-- The characters of names and operators, with the marks that are put around names. -/
def isWordChar (char : Char) : Bool :=
  isNameChar char || isSymbolChar char || ['=', '!', ':'].contains char

theorem readable_of_wordChars {word : List Char} (nonempty : word ≠ [])
    (chars : ∀ char ∈ word, isWordChar char = true) : Shape.Readable word := by
  refine .of_chars isWordChar (by decide) nonempty chars (fun dot => ?_)
  have allowed := chars '.' (List.mem_of_mem_head? dot)
  exact absurd allowed (by decide)

theorem toList_ne_nil {name : String} (nonempty : name ≠ "") : name.toList ≠ [] :=
  fun empty => nonempty (String.toList_eq_nil_iff.mp empty)

theorem Identifier.wordChars {name : String} (identifier : Identifier name) :
    ∀ char ∈ name.toList, isWordChar char = true := by
  intro char member
  simp [isWordChar, identifier.chars char member]

theorem Symbolic.wordChars {name : String} (symbolic : Symbolic name) :
    ∀ char ∈ name.toList, isWordChar char = true := by
  intro char member
  simp [isWordChar, symbolic.chars char member]

theorem Identifier.readable {name : String} (identifier : Identifier name) :
    Shape.Readable name.toList :=
  readable_of_wordChars (toList_ne_nil identifier.nonempty) identifier.wordChars

theorem Symbolic.readable {name : String} (symbolic : Symbolic name) :
    Shape.Readable name.toList :=
  readable_of_wordChars (toList_ne_nil symbolic.nonempty) symbolic.wordChars

theorem CaseOperator.readable {name : String} (operator : CaseOperator name) :
    Shape.Readable name.toList := by
  rcases operator with identifier | ⟨nonempty, chars⟩
  · exact identifier.readable
  · refine readable_of_wordChars (toList_ne_nil nonempty) (fun char member => ?_)
    have allowed := chars char member
    simp only [Bool.or_eq_true, beq_iff_eq] at allowed
    rcases allowed with symbol | rfl
    · simp [isWordChar, symbol]
    · rfl

end Text

/-! ### Numbers -/

namespace Json

def isNumeralChar (char : Char) : Bool :=
  char.isDigit || ['-', '+', '.', 'e', 'E'].contains char

theorem isNumeralChar_of_step {scan next : NumeralScan} {char : Char}
    (stepped : scan.step char = .more next) : isNumeralChar char = true := by
  cases numeral : isNumeralChar char with
  | true => rfl
  | false =>
      simp only [isNumeralChar, List.contains_cons, Bool.or_eq_false_iff] at numeral
      obtain ⟨digit, minus, plus, point, small, large, -⟩ := numeral
      have notZero : (char == '0') = false := Bool.eq_false_iff.mpr (fun zero => by
        rw [eq_of_beq zero] at digit
        cases digit)
      cases phase : scan.phase <;>
        simp [NumeralScan.step, NumeralScan.isExponentMark, phase, digit, minus, plus, point, small,
          large, notZero] at stepped

theorem numeralChars_of_after? {scan after : NumeralScan} {text : List Char}
    (scanned : scan.after? text = some after) : ∀ char ∈ text, isNumeralChar char = true := by
  induction text generalizing scan with
  | nil => exact fun char member => absurd member List.not_mem_nil
  | cons char rest ih =>
      rw [NumeralScan.after?] at scanned
      cases stepped : scan.step char with
      | more next =>
          rw [stepped] at scanned
          rw [List.forall_mem_cons]
          exact ⟨isNumeralChar_of_step stepped, ih scanned⟩
      | _ =>
          rw [stepped] at scanned
          cases scanned

/-- A number begins with a digit, or with a minus sign and a digit. -/
theorem Scans.head {text : List Char} {numeral : Numeral} (scans : Scans text numeral) :
    ∃ digit rest, digit.isDigit = true ∧ (text = digit :: rest ∨ text = '-' :: digit :: rest) := by
  obtain ⟨negative, digits, scan, rfl, scanned, complete⟩ := scans
  obtain ⟨digit, rest, rfl, isDigit⟩ := isDigit_of_complete scanned complete
  refine ⟨digit, rest, isDigit, ?_⟩
  cases negative with
  | false => exact .inl rfl
  | true => exact .inr rfl

theorem Scans.chars {text : List Char} {numeral : Numeral} (scans : Scans text numeral) :
    ∀ char ∈ text, isNumeralChar char = true := by
  obtain ⟨negative, digits, scan, rfl, scanned, -⟩ := scans
  rw [List.forall_mem_append]
  constructor
  · cases negative <;> simp [isNumeralChar]
  · exact numeralChars_of_after? scanned

theorem Scans.readable {text : List Char} {numeral : Numeral} (scans : Scans text numeral) :
    Shape.Readable text := by
  obtain ⟨digit, rest, isDigit, begins⟩ := scans.head
  refine .of_chars isNumeralChar (by decide) ?_ scans.chars ?_
  · rcases begins with text | text <;> simp [text]
  · rcases begins with text | text <;> rw [text]
    · rintro ⟨⟩
      cases isDigit
    · nofun

end Json
end SyntaxTree
