import SyntaxTree.ShortestDecimal

/-!
# Shortest decimals read back

A magnitude is read from a fraction, and equal fractions give equal magnitudes. So the exact
decimal of a number reads back to it, and the shortest one, which is tested by reading it back
or else is the exact one, does too.
-/

namespace SyntaxTree

namespace Binary64

theorem roundedQuotient_mul {factor : Nat} (positive : 0 < factor) (numerator denominator : Nat) :
    roundedQuotient (numerator * factor) (denominator * factor) =
      roundedQuotient numerator denominator := by
  have doubled (rest : Nat) : 2 * (rest * factor) = 2 * rest * factor := by rw [Nat.mul_assoc]
  have equal (first second : Nat) : (first * factor == second * factor) = (first == second) := by
    rw [Bool.eq_iff_iff, beq_iff_eq, beq_iff_eq, Nat.mul_right_cancel_iff positive]
  simp only [roundedQuotient, Nat.mul_div_mul_right _ _ positive, Nat.mul_mod_mul_right, doubled,
    Nat.mul_lt_mul_right positive, equal]

/-- The magnitude depends on the fraction only, not on how it is written. -/
theorem nearestMagnitude_mul {factor : Nat} (positive : 0 < factor)
    (numerator denominator : Nat) :
    nearestMagnitude (numerator * factor) (denominator * factor) =
      nearestMagnitude numerator denominator := by
  have shifted : numerator * factor * 2 ^ 1074 = numerator * 2 ^ 1074 * factor :=
    Nat.mul_right_comm ..
  have scaled (scale : Nat) : denominator * factor * scale = denominator * scale * factor :=
    Nat.mul_right_comm ..
  simp only [nearestMagnitude, shifted, scaled, Nat.mul_div_mul_right _ _ positive,
    roundedQuotient_mul positive]

theorem roundedQuotient_exact {denominator : Nat} (positive : 0 < denominator) (quotient : Nat) :
    roundedQuotient (quotient * denominator) denominator = quotient := by
  have nonzero : 0 ≠ denominator := Nat.ne_of_lt positive
  simp [roundedQuotient, Nat.mul_div_cancel _ positive, nonzero]

/-- The scale of the units of a magnitude and the significand over it are those they came from. -/
theorem scaledRounding_unitsOf (magnitude : Nat) :
    let scale := (unitsOf magnitude).log2 - 52
    scale * 2 ^ 52 + roundedQuotient (unitsOf magnitude) (2 ^ scale) = magnitude := by
  have parts := Nat.div_add_mod magnitude (2 ^ 52)
  have below : magnitude % 2 ^ 52 < 2 ^ 52 := Nat.mod_lt _ (Nat.two_pow_pos 52)
  unfold unitsOf
  split
  case h_1 subnormal =>
      have small : magnitude < 2 ^ 52 := Nat.lt_of_div_eq_zero (Nat.two_pow_pos 52) subnormal
      have unscaled : magnitude.log2 - 52 = 0 := by
        by_cases zero : magnitude = 0
        · simp [zero]
        · have := (Nat.log2_lt zero).mpr small
          omega
      have exact := roundedQuotient_exact Nat.one_pos magnitude
      rw [Nat.mul_one] at exact
      simp [unscaled, exact]
  case h_2 scale normal =>
      have scaled_log : ((magnitude % 2 ^ 52 + 2 ^ 52) * 2 ^ scale).log2 = 52 + scale := by
        have nonzero : (magnitude % 2 ^ 52 + 2 ^ 52) * 2 ^ scale ≠ 0 :=
          Nat.mul_ne_zero (by omega) (Nat.pos_iff_ne_zero.mp (Nat.two_pow_pos scale))
        rw [Nat.log2_eq_iff nonzero, Nat.add_right_comm, Nat.pow_add, Nat.pow_add _ (52 + 1)]
        exact ⟨Nat.mul_le_mul_right _ (by omega),
          Nat.mul_lt_mul_of_pos_right (by omega) (Nat.two_pow_pos scale)⟩
      dsimp only
      rw [scaled_log, Nat.add_sub_cancel_left, roundedQuotient_exact (Nat.two_pow_pos scale)]
      rw [normal] at parts
      omega

/-- The fraction that a magnitude stands for gives the magnitude back. -/
theorem nearestMagnitude_unitsOf (magnitude : Nat) :
    nearestMagnitude (unitsOf magnitude) (2 ^ 1074) = magnitude := by
  have positive : 0 < 2 ^ 1074 := Nat.two_pow_pos 1074
  unfold nearestMagnitude
  generalize 2 ^ 1074 = unit at positive
  have rounded (scale : Nat) :
      roundedQuotient (unitsOf magnitude * unit) (unit * 2 ^ scale) =
        roundedQuotient (unitsOf magnitude) (2 ^ scale) := by
    rw [Nat.mul_comm unit, roundedQuotient_mul positive]
  simp only [Nat.mul_div_cancel _ positive, rounded]
  exact scaledRounding_unitsOf magnitude

theorem ofMagnitude?_magnitude {real : Binary64} (finite : real.isFinite = true) :
    ofMagnitude? real.negative real.magnitude.val = some real := by
  obtain ⟨negative, magnitude, bound⟩ := real
  have inRange : magnitude < infiniteMagnitude := by simpa [isFinite] using finite
  have kept : Fin.ofNat (2 ^ 63) magnitude = ⟨magnitude, bound⟩ :=
    Fin.ext (Nat.mod_eq_of_lt bound)
  simp only [ofMagnitude?, inRange, if_true, kept]

theorem units_ne_zero {real : Binary64} (nonzero : real.magnitude.val ≠ 0) : real.units ≠ 0 := by
  unfold units unitsOf
  split
  · exact nonzero
  · exact Nat.mul_ne_zero (by omega) (Nat.pos_iff_ne_zero.mp (Nat.two_pow_pos _))

theorem scaled_ne_zero {units : Nat} (nonzero : units ≠ 0) (exponent : Nat) :
    units * 5 ^ exponent ≠ 0 :=
  Nat.mul_ne_zero nonzero (Nat.pos_iff_ne_zero.mp (Nat.pow_pos (by decide)))

/-- A decimal that is a number of halves of halves is read as that fraction. -/
theorem ofDecimal?_halves (negative : Bool) {units : Nat} (nonzero : units ≠ 0) (exponent : Nat) :
    ofDecimal? negative ⟨units * 5 ^ (exponent + 1), .negSucc exponent⟩ =
      ofMagnitude? negative (nearestMagnitude units (2 ^ (exponent + 1))) := by
  have factor : 0 < 5 ^ (exponent + 1) := Nat.pow_pos (by decide)
  have significand := scaled_ne_zero nonzero (exponent + 1)
  have large : 2 ^ (2 * (exponent + 1)) ≤ units * 5 ^ (exponent + 1) := by
    calc 2 ^ (2 * (exponent + 1)) = (2 ^ 2) ^ (exponent + 1) := Nat.pow_mul ..
      _ ≤ 5 ^ (exponent + 1) := Nat.pow_le_pow_left (by decide) _
      _ ≤ units * 5 ^ (exponent + 1) :=
        Nat.le_mul_of_pos_left _ (Nat.pos_iff_ne_zero.mpr nonzero)
  have digits := (Nat.le_log2 significand).mpr large
  have powers : (10 : Nat) ^ (exponent + 1) = 2 ^ (exponent + 1) * 5 ^ (exponent + 1) :=
    Nat.mul_pow 2 5 (exponent + 1)
  simp only [ofDecimal?, if_neg significand]
  rw [if_neg (by omega), powers, nearestMagnitude_mul factor]

theorem ofDecimal?_exactDecimal {real : Binary64} (finite : real.isFinite = true)
    (nonzero : real.magnitude.val ≠ 0) :
    ofDecimal? real.negative (exactDecimal real.units) = some real := by
  have halves := ofDecimal?_halves real.negative (units_ne_zero nonzero) 1073
  unfold powNat at halves
  rw [show 1073 + 1 = 1074 from rfl, units, nearestMagnitude_unitsOf,
    ofMagnitude?_magnitude finite] at halves
  exact halves

theorem shortestDecimal_cases (tie : TieRule) (real : Binary64) :
    ofDecimal? real.negative (real.shortestDecimal tie) = some real ∨
      real.shortestDecimal tie = exactDecimal real.units := by
  unfold shortestDecimal
  dsimp only
  cases found : List.find? _ _ with
  | none => exact .inr rfl
  | some decimal =>
      have reads := List.find?_some found
      exact .inl (beq_iff_eq.mp reads)

/-- The shortest decimal of a finite number reads back to it. -/
theorem ofDecimal?_shortestDecimal (tie : TieRule) {real : Binary64}
    (finite : real.isFinite = true) (nonzero : real.magnitude.val ≠ 0) :
    ofDecimal? real.negative (real.shortestDecimal tie) = some real := by
  rcases shortestDecimal_cases tie real with reads | exact
  · exact reads
  · rw [exact]
    exact ofDecimal?_exactDecimal finite nonzero

theorem significand_shortestDecimal_ne_zero (tie : TieRule) {real : Binary64}
    (nonzero : real.magnitude.val ≠ 0) : (real.shortestDecimal tie).significand ≠ 0 := by
  rcases shortestDecimal_cases tie real with reads | exact
  · intro zero
    have equal : (⟨real.negative, Fin.ofNat (2 ^ 63) 0⟩ : Binary64) = real := by
      simpa [ofDecimal?, zero, ofMagnitude?, infiniteMagnitude] using reads
    exact nonzero (by rw [← equal]; rfl)
  · have scaled := scaled_ne_zero (units_ne_zero nonzero) 1074
    unfold powNat at scaled
    rw [exact, exactDecimal]
    exact scaled

end Binary64

namespace Decimal

/-- What is read of a decimal that is written positionally, where a place is always shown. -/
def withPlace (decimal : Decimal) : Decimal :=
  match decimal.exponent with
  | .ofNat exponent => ⟨decimal.significand * 10 ^ (exponent + 1), -1⟩
  | .negSucc _ => decimal

/-- What is read of a decimal in a format. -/
def shown (format : RealFormat) (decimal : Decimal) : Decimal :=
  if format.least ≤ decimal.leadingPower && decimal.leadingPower < format.bound then
    decimal.withPlace
  else
    decimal

end Decimal

namespace Binary64

theorem ofDecimal?_withPlace (negative : Bool) {decimal : Decimal}
    (moderate : decimal.exponent ≤ 400) :
    ofDecimal? negative decimal.withPlace = ofDecimal? negative decimal := by
  obtain ⟨significand, exponent⟩ := decimal
  cases exponent with
  | negSucc places => rfl
  | ofNat exponent =>
      by_cases zero : significand = 0
      · simp [Decimal.withPlace, ofDecimal?, zero]
      · have shifted : significand * 10 ^ (exponent + 1) ≠ 0 :=
          Nat.mul_ne_zero zero (Nat.pos_iff_ne_zero.mp (Nat.pow_pos (by decide)))
        have small : exponent ≤ 400 := Int.ofNat_le.mp moderate
        have scaled :=
          nearestMagnitude_mul (show 0 < 10 by decide) (significand * 10 ^ exponent) 1
        rw [Nat.mul_assoc, ← Nat.pow_succ] at scaled
        change (if significand * 10 ^ (exponent + 1) = 0 then _ else
          if (significand * 10 ^ (exponent + 1)).log2 + 400 < 0 then _ else
            ofMagnitude? negative
              (nearestMagnitude (significand * 10 ^ (exponent + 1)) (10 ^ 1))) = _
        simp only [ofDecimal?]
        rw [if_neg shifted, if_neg (Nat.not_lt_zero _), if_neg zero, if_neg (by omega)]
        exact congrArg _ scaled

/-- However a decimal is written, the same number is read. -/
theorem ofDecimal?_shown {format : RealFormat} (moderate : format.bound ≤ 400) (negative : Bool)
    (decimal : Decimal) :
    ofDecimal? negative (decimal.shown format) = ofDecimal? negative decimal := by
  unfold Decimal.shown
  split
  · rename_i range
    refine ofDecimal?_withPlace negative ?_
    have below := of_decide_eq_true (Bool.and_eq_true_iff.mp range).2
    unfold Decimal.leadingPower at below
    omega
  · rfl

end Binary64

end SyntaxTree
