import SyntaxTree.Interchange
import SyntaxTree.Proofs.Json.NumberGrammar
import SyntaxTree.Proofs.Json.Phrases
import SyntaxTree.Proofs.Json.SpacedText
import SyntaxTree.Proofs.Rereading

/-!
# The grammar of literals

Which literal a JSON text spells is a relation of the value as it is written, apart from the way it
is read: numbers without a point and a power are the integers that they show as far as 64 bits with
a sign go, all others the nearest reals, and the numbers that are not finite have two spellings with
their names. Reading finds the literal that is spelled, fails for what the text says when there is
none, and fails for the text when a number in it overflows.
-/

namespace SyntaxTree

open Json (CharsText Lexeme LexemeText NumberText Numeral Phrase Reader Scans Spaced)

namespace Json

/-! ### Sound lexemes -/

/-- A text has a content, and a number without a point and a power has no power of ten. -/
def Lexeme.Sound : Lexeme → Prop
  | .text content => content.isSome = true
  | .numeral written => written.isWhole = true → written.decimal.exponent = 0
  | _ => True

theorem LexemeText.sound {lexeme : Lexeme} {text : List Char} (written : LexemeText lexeme text) :
    lexeme.Sound := by
  cases written with
  | numeral scans => exact scans.exponent
  | text _ => exact rfl
  | _ => exact trivial

theorem Spaced.sound {lexemes : List Lexeme} {text : List Char} (spaced : Spaced lexemes text) :
    ∀ lexeme ∈ lexemes, lexeme.Sound := by
  induction spaced with
  | nil => nofun
  | blank _ _ ih => exact ih
  | lexeme written _ _ ih => exact List.forall_mem_cons.mpr ⟨written.sound, ih⟩

namespace Numeral

/-- The number is written as the integer. Minus zero is none. -/
def IsInteger (numeral : Numeral) (value : Int) : Prop :=
  numeral.isWhole = true ∧ ¬(numeral.negative = true ∧ numeral.decimal.significand = 0) ∧
    value = if numeral.negative then -(numeral.decimal.significand : Int)
      else numeral.decimal.significand

end Numeral

namespace Phrase

/-- A number within a phrase overflows. -/
def Overflows (phrase : Phrase) : Prop :=
  ∃ numeral, .numeral numeral ∈ phrase.lexemes ∧ numeral.decimal.Overflows

end Phrase

end Json

/-! ### What a text spells -/

namespace Json.Phrase

/-- The literal that is written as the phrase. -/
inductive Spells : Phrase → Literal → Prop
  | sentinel : Spells .null .sentinel
  | bool (value : Bool) : Spells (.bool value) (.bool value)
  | int {numeral : Numeral} {value : Int64} (exact : numeral.IsInteger value.toInt) :
      Spells (.numeral numeral) (.int value)
  | real {numeral : Numeral} {value : Binary64}
      (noInteger : ∀ integer : Int64, ¬numeral.IsInteger integer.toInt)
      (nearest : Binary64.ofDecimal? numeral.negative numeral.decimal = some value)
      (finite : value.isFinite = true) : Spells (.numeral numeral) (.real value)
  | text (content : String) : Spells (.text (some content)) (.text content)
  | namedMember {name : String} {value : Binary64}
      (names : Binary64.ofNonFiniteName? name = some value) :
      Spells (.object [(some "real", .text (some name))]) (.real value)
  | namedElement {name : String} {value : Binary64}
      (names : Binary64.ofNonFiniteName? name = some value) :
      Spells (.array [.text (some name)]) (.real value)

/-- A phrase spells one literal at most. -/
theorem Spells.unique {phrase : Phrase} {first second : Literal} (one : phrase.Spells first)
    (other : phrase.Spells second) : first = second := by
  cases one with
  | int exact =>
      cases other with
      | int same => exact congrArg _ (Int64.toInt_inj.mp (exact.2.2.trans same.2.2.symm))
      | real noInteger => exact absurd exact (noInteger _)
  | real noInteger nearest =>
      cases other with
      | int exact => exact absurd exact (noInteger _)
      | real _ same => exact congrArg _ (Option.some.inj (nearest.symm.trans same))
  | namedMember names =>
      cases other with
      | namedMember same => exact congrArg _ (Option.some.inj (names.symm.trans same))
  | namedElement names =>
      cases other with
      | namedElement same => exact congrArg _ (Option.some.inj (names.symm.trans same))
  | _ =>
      cases other
      rfl

end Json.Phrase

namespace Json.Phrase

end Json.Phrase

namespace Literal

/-- The sign and the digits of an integer are those of the number it is written as. -/
theorem parts_of_isInteger {numeral : Numeral} {value : Int} (exact : numeral.IsInteger value)
    (sound : (Lexeme.numeral numeral).Sound) :
    numeral.negative = decide (value < 0) ∧ numeral.decimal = ⟨value.natAbs, 0⟩ := by
  obtain ⟨negative, ⟨significand, exponent⟩, isWhole⟩ := numeral
  obtain ⟨whole, proper, equal⟩ := exact
  have unscaled : exponent = 0 := sound whole
  dsimp only at proper equal
  subst unscaled
  cases negative with
  | false =>
      simp only [Bool.false_eq_true, if_false] at equal
      subst equal
      exact ⟨by simp, by simp⟩
  | true =>
      simp only [if_true] at equal
      have nonzero : significand ≠ 0 := fun zero => proper ⟨rfl, zero⟩
      subst equal
      exact ⟨by simp; omega, by simp⟩

/-- A number that is written as an integer is one of 64 bits with a sign, or the nearest real. -/
theorem ofJson_integer_spelled {numeral : Numeral} {value : Int} (exact : numeral.IsInteger value)
    (sound : (Lexeme.numeral numeral).Sound) (bounded : ¬numeral.decimal.Overflows) :
    ∃ literal, ofJson (.integer value) = .ok literal ∧
      (Phrase.numeral numeral).Spells literal := by
  unfold ofJson
  dsimp only
  split
  case isTrue range =>
      simp only [Bool.and_eq_true, decide_eq_true_eq] at range
      refine ⟨_, rfl, .int ?_⟩
      rwa [Int64.toInt_ofInt_of_le range.1 range.2]
  case isFalse range =>
      obtain ⟨sign, digits⟩ := parts_of_isInteger exact sound
      rw [← sign, ← digits]
      cases nearest : Binary64.ofDecimal? numeral.negative numeral.decimal with
      | none => exact absurd (Binary64.ofDecimal?_eq_none_iff.mp nearest) bounded
      | some real =>
          refine ⟨_, rfl, .real (fun integer same => range ?_) nearest
            (Binary64.isFinite_of_ofDecimal? nearest)⟩
          have equal : value = integer.toInt := exact.2.2.trans same.2.2.symm
          have least := integer.le_toInt
          have greatest := integer.toInt_lt
          simp only [Bool.and_eq_true, decide_eq_true_eq]
          omega

/-- Every number that does not overflow spells what it is read as. -/
theorem ofJson_numeral_spelled {numeral : Numeral} {json : Json}
    (sound : (Lexeme.numeral numeral).Sound) (valued : numeral.value? = some json) :
    ∃ literal, ofJson json = .ok literal ∧ (Phrase.numeral numeral).Spells literal := by
  have bounded : ¬numeral.decimal.Overflows := fun overflows => by
    rw [Numeral.value?_eq_none_iff sound |>.mpr overflows] at valued
    cases valued
  unfold Numeral.value? at valued
  dsimp only at valued
  split at valued
  case isTrue unsigned =>
      cases valued
      simp only [Bool.and_eq_true, Bool.not_eq_true'] at unsigned
      exact ofJson_integer_spelled ⟨unsigned.1.1, by simp [unsigned.1.2], by simp [unsigned.1.2]⟩
        sound bounded
  case isFalse noUnsigned =>
      split at valued
      case isTrue signed =>
          cases valued
          simp only [Bool.and_eq_true, bne_iff_ne] at signed
          exact ofJson_integer_spelled
            ⟨signed.1.1.1, fun zero => signed.1.2 zero.2, by simp [signed.1.1.2]⟩ sound bounded
      case isFalse noSigned =>
          obtain ⟨real, nearest, rfl⟩ := Option.map_eq_some_iff.mp valued
          refine ⟨_, rfl, .real (fun integer exact => ?_) nearest
            (Binary64.isFinite_of_ofDecimal? nearest)⟩
          obtain ⟨whole, proper, equal⟩ := exact
          have least := integer.le_toInt
          have greatest := integer.toInt_lt
          cases sign : numeral.negative with
          | false =>
              simp only [sign, Bool.false_eq_true, if_false] at equal
              simp only [whole, sign, Bool.not_false, Bool.true_and, decide_eq_true_eq]
                at noUnsigned
              omega
          | true =>
              simp only [sign, if_true] at equal
              simp only [whole, sign, Bool.true_and, Bool.and_eq_true, bne_iff_ne,
                decide_eq_true_eq] at noSigned
              simp only [sign, true_and] at proper
              omega

end Literal

end SyntaxTree
