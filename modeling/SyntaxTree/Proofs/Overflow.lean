import SyntaxTree.Proofs.DecimalReading

/-!
# Decimals past the finite numbers

A decimal has no nearest finite number if and only if it lies at least half a unit above the
greatest of them, at `2¹⁰²⁴ - 2⁹⁷⁰` or above: a tie there goes to the even significand, which is the
one past the finite numbers.
-/

namespace SyntaxTree

namespace Binary64

/-- A quotient is rounded below an even number if it lies more than a half below it. -/
theorem roundedQuotient_lt_iff (numerator : Nat) {denominator bound : Nat}
    (positive : 0 < denominator) (even : bound % 2 = 0) :
    roundedQuotient numerator denominator < bound ↔
      2 * numerator + denominator < 2 * (bound * denominator) := by
  have parts := Nat.div_add_mod numerator denominator
  have below := Nat.mod_lt numerator positive
  unfold roundedQuotient
  dsimp only
  generalize numerator / denominator = quotient at *
  generalize numerator % denominator = rest at *
  rw [Nat.mul_comm] at parts
  rcases Nat.lt_trichotomy (quotient + 1) bound with less | rfl | more
  · have room : (quotient + 2) * denominator ≤ bound * denominator :=
      Nat.mul_le_mul_right denominator less
    rw [Nat.add_mul] at room
    refine iff_of_true ?_ (by omega)
    split <;> omega
  · have odd : quotient % 2 = 1 := by omega
    rw [Nat.add_mul, odd]
    simp only [beq_self_eq_true, Bool.and_true, Bool.or_eq_true, decide_eq_true_eq, beq_iff_eq]
    split <;> omega
  · have room : bound * denominator ≤ quotient * denominator :=
      Nat.mul_le_mul_right denominator (Nat.le_of_lt_succ more)
    refine iff_of_false ?_ (by omega)
    split <;> omega

/-- A quotient is rounded to one of the two whole numbers around it. -/
theorem roundedQuotient_bounds (numerator denominator : Nat) :
    numerator / denominator ≤ roundedQuotient numerator denominator ∧
      roundedQuotient numerator denominator ≤ numerator / denominator + 1 := by
  unfold roundedQuotient
  dsimp only
  split <;> omega

/-- The scale of a quotient leaves it at most 53 bits, and all of them unless it is zero. -/
theorem scaled_log2 (quotient : Nat) :
    quotient / 2 ^ (quotient.log2 - 52) < 2 ^ 53 ∧
      (0 < quotient.log2 - 52 → 2 ^ 52 ≤ quotient / 2 ^ (quotient.log2 - 52)) := by
  have above : quotient < 2 ^ (quotient.log2 + 1) := Nat.lt_log2_self
  constructor
  · rw [Nat.div_lt_iff_lt_mul (Nat.two_pow_pos _), ← Nat.pow_add]
    exact Nat.lt_of_lt_of_le above (Nat.pow_le_pow_right (by decide) (by omega))
  · intro scaled
    have nonzero : quotient ≠ 0 := by
      rintro rfl
      simp at scaled
    rw [Nat.le_div_iff_mul_le (Nat.two_pow_pos _), ← Nat.pow_add,
      show 52 + (quotient.log2 - 52) = quotient.log2 by omega]
    exact Nat.log2_self_le nonzero

/-- A magnitude stays below a scale if it does so before it is rounded, halves going up to it. -/
theorem scaledRounding_lt_iff (numerator : Nat) {denominator : Nat} (positive : 0 < denominator)
    (top : Nat) :
    let scale := (numerator / denominator).log2 - 52
    scale * 2 ^ 52 + roundedQuotient numerator (denominator * 2 ^ scale) < (top + 2) * 2 ^ 52 ↔
      2 * numerator + denominator * 2 ^ top < 2 ^ 54 * (denominator * 2 ^ top) := by
  obtain ⟨fits, full⟩ := scaled_log2 (numerator / denominator)
  rw [Nat.div_div_eq_div_mul] at fits full
  dsimp only
  generalize (numerator / denominator).log2 - 52 = scale at *
  have scaled : 0 < denominator * 2 ^ scale := Nat.mul_pos positive (Nat.two_pow_pos scale)
  obtain ⟨least, greatest⟩ := roundedQuotient_bounds numerator (denominator * 2 ^ scale)
  have step {low high : Nat} (less : low < high) :
      2 * (denominator * 2 ^ low) ≤ denominator * 2 ^ high := by
    have powers := Nat.mul_le_mul_left denominator (Nat.pow_le_pow_right (by decide : 0 < 2) less)
    rwa [Nat.pow_succ', Nat.mul_left_comm] at powers
  rcases Nat.lt_trichotomy scale top with below | equal | above
  · have less := (Nat.div_lt_iff_lt_mul scaled).mp fits
    have wider := step below
    exact iff_of_true (by omega) (by omega)
  · rw [← equal]
    have rounded := roundedQuotient_lt_iff numerator scaled
      (show 2 ^ 53 % 2 = 0 by decide)
    omega
  · have reaches := (Nat.le_div_iff_mul_le scaled).mp (full (by omega))
    have wider := step above
    exact iff_of_false (by omega) (by omega)

/-- Half a unit above the greatest finite number, which is `2¹⁰²⁴ - 2⁹⁷⁰`. -/
def overflowBound : Nat := (2 ^ 54 - 1) * 2 ^ 970

theorem nearestMagnitude_lt_iff {denominator : Nat} (positive : 0 < denominator)
    (numerator : Nat) :
    nearestMagnitude numerator denominator < infiniteMagnitude ↔
      numerator < overflowBound * denominator := by
  have rounded := scaledRounding_lt_iff (numerator * 2 ^ 1074) positive
    (970 + 1074 + 1)
  have unit : 0 < 2 ^ 1074 := Nat.two_pow_pos 1074
  have powers (low high : Nat) : 2 ^ (low + high + 1) = 2 * (2 ^ low * 2 ^ high) := by
    rw [Nat.pow_succ', Nat.pow_add]
  refine rounded.trans ?_
  rw [powers 970 1074, overflowBound]
  generalize 2 ^ 1074 = scale at unit
  generalize 2 ^ 970 = factor
  rw [← Nat.mul_lt_mul_right (b := numerator) unit]
  have product : denominator * (2 * (factor * scale)) = 2 * (factor * denominator * scale) := by
    ac_rfl
  have bound : (2 ^ 54 - 1) * factor * denominator * scale =
      (2 ^ 54 - 1) * (factor * denominator * scale) := by ac_rfl
  rw [product, bound]
  omega

end Binary64

/-- The decimal is so large that the finite number next to it is not the nearest any more. -/
def Decimal.Overflows (decimal : Decimal) : Prop :=
  Binary64.overflowBound * 10 ^ (-decimal.exponent).toNat ≤
    decimal.significand * 10 ^ decimal.exponent.toNat

namespace Binary64

theorem overflowBound_le : overflowBound ≤ 10 ^ 400 := by
  decide +kernel

theorem ofMagnitude?_eq_none_iff {negative : Bool} {magnitude : Nat} :
    ofMagnitude? negative magnitude = none ↔ ¬magnitude < infiniteMagnitude := by
  simp [ofMagnitude?]

/-- A decimal has no nearest finite number if and only if it overflows. -/
theorem ofDecimal?_eq_none_iff {negative : Bool} {decimal : Decimal} :
    ofDecimal? negative decimal = none ↔ decimal.Overflows := by
  have bounded := overflowBound_le
  have positive : 0 < overflowBound := by decide +kernel
  have nearest {denominator : Nat} (nonzero : 0 < denominator) (numerator : Nat) :=
    nearestMagnitude_lt_iff nonzero numerator
  obtain ⟨significand, exponent⟩ := decimal
  unfold ofDecimal? Decimal.Overflows
  generalize overflowBound = bound at *
  dsimp only
  split
  case isTrue zero =>
      subst zero
      refine iff_of_false (by simp [ofMagnitude?, infiniteMagnitude]) ?_
      rw [Nat.zero_mul, Nat.not_le]
      exact Nat.mul_pos positive (Nat.pow_pos (by decide))
  case isFalse nonzero =>
      cases exponent with
      | ofNat exponent =>
          simp only [Int.ofNat_eq_natCast, Int.toNat_natCast, Int.toNat_neg_natCast, Nat.pow_zero,
            Nat.mul_one]
          split
          case isTrue large =>
              refine iff_of_true rfl (Nat.le_trans bounded ?_)
              calc 10 ^ 400 ≤ 10 ^ exponent := Nat.pow_le_pow_right (by decide) (by omega)
                _ ≤ significand * 10 ^ exponent :=
                  Nat.le_mul_of_pos_left _ (Nat.pos_of_ne_zero nonzero)
          case isFalse =>
              rw [ofMagnitude?_eq_none_iff, nearest Nat.one_pos, Nat.not_lt, Nat.mul_one]
      | negSucc exponent =>
          simp only [Int.neg_negSucc, Int.toNat_natCast, Int.toNat_negSucc, Nat.pow_zero,
            Nat.mul_one]
          split
          case isTrue small =>
              refine iff_of_false (by simp [ofMagnitude?, infiniteMagnitude]) (Nat.not_le.mpr ?_)
              calc significand < 2 ^ (significand.log2 + 1) := Nat.lt_log2_self
                _ ≤ 10 ^ (significand.log2 + 1) := Nat.pow_le_pow_left (by decide) _
                _ ≤ 10 ^ (exponent + 1) := Nat.pow_le_pow_right (by decide) (by omega)
                _ ≤ bound * 10 ^ (exponent + 1) := Nat.le_mul_of_pos_left _ positive
          case isFalse =>
              rw [ofMagnitude?_eq_none_iff, nearest (Nat.pow_pos (by decide)), Nat.not_lt]

end Binary64

end SyntaxTree
