import SyntaxTree.Proofs.DecimalReading

/-!
# Seventeen digits suffice

A decimal that is nearer to a finite number than a part in `2⁵⁴` reads back to it. The points of a
grid on which the number has seventeen digits are that near, so the shortest decimal of a number is
always found on a grid, the coarsest one with a point that reads back.
-/

namespace SyntaxTree

namespace Binary64

/-! ### Near fractions -/

theorem roundedQuotient_eq_of_near {numerator denominator : Nat} (quotient : Nat)
    (above : 2 * numerator < 2 * (quotient * denominator) + denominator)
    (below : 2 * (quotient * denominator) < 2 * numerator + denominator) :
    roundedQuotient numerator denominator = quotient := by
  have parts := Nat.div_add_mod numerator denominator
  have rest := Nat.mod_lt numerator (show 0 < denominator by omega)
  unfold roundedQuotient
  dsimp only
  generalize numerator / denominator = whole at *
  generalize numerator % denominator = part at *
  rw [Nat.mul_comm] at parts
  rcases Nat.lt_trichotomy (whole + 1) quotient with less | rfl | more
  · have room : (whole + 2) * denominator ≤ quotient * denominator :=
      Nat.mul_le_mul_right denominator less
    rw [Nat.add_mul] at room
    omega
  · rw [Nat.add_mul] at above below
    exact if_pos (by simp; omega)
  · rcases Nat.eq_or_lt_of_le (Nat.le_of_lt_succ more) with rfl | far
    · exact if_neg (by simp; omega)
    · have room : (quotient + 1) * denominator ≤ whole * denominator :=
        Nat.mul_le_mul_right denominator far
      rw [Nat.add_mul] at room
      omega

/-- The scale of a quotient, told by the bounds that it sets. -/
theorem log2_quotient {numerator denominator : Nat} (positive : 0 < denominator) (scale : Nat)
    (high : numerator < 2 ^ 53 * (denominator * 2 ^ scale))
    (low : scale = 0 ∨ 2 ^ 52 * (denominator * 2 ^ scale) ≤ numerator) :
    (numerator / denominator).log2 - 52 = scale := by
  have shifted (bits : Nat) :
      2 ^ bits * (denominator * 2 ^ scale) = 2 ^ (bits + scale) * denominator := by
    rw [Nat.pow_add]
    ac_rfl
  have less : numerator / denominator < 2 ^ (53 + scale) := by
    rw [Nat.div_lt_iff_lt_mul positive, ← shifted]
    exact high
  have most : (numerator / denominator).log2 < 53 + scale := by
    by_cases zero : numerator / denominator = 0
    · rw [zero, Nat.log2_zero]
      omega
    · exact (Nat.log2_lt zero).mpr less
  rcases low with rfl | low
  · omega
  · rw [shifted, ← Nat.le_div_iff_mul_le positive] at low
    have nonzero : numerator / denominator ≠ 0 :=
      Nat.pos_iff_ne_zero.mp (Nat.lt_of_lt_of_le (Nat.two_pow_pos _) low)
    have least := (Nat.le_log2 nonzero).mpr low
    omega

/-- A magnitude is a scale and a significand, which has all its bits unless the scale is zero. -/
theorem exists_significand (magnitude : Nat) :
    ∃ significand scale, unitsOf magnitude = significand * 2 ^ scale ∧
      magnitude = scale * 2 ^ 52 + significand ∧ significand < 2 ^ 53 ∧
      (scale = 0 ∨ 2 ^ 52 ≤ significand) := by
  have parts := Nat.div_add_mod magnitude (2 ^ 52)
  have below : magnitude % 2 ^ 52 < 2 ^ 52 := Nat.mod_lt _ (Nat.two_pow_pos 52)
  unfold unitsOf
  split
  case h_1 subnormal => exact ⟨magnitude, 0, by simp, by omega, by omega, .inl rfl⟩
  case h_2 scale normal =>
      rw [normal] at parts
      exact ⟨_, scale, rfl, by omega, by omega, .inr (by omega)⟩

/-- A fraction within a part in `2⁵⁴` of a magnitude is rounded to it. -/
theorem nearestMagnitude_eq_of_near {magnitude numerator denominator : Nat}
    (positive : 0 < denominator)
    (above : 2 ^ 54 * (numerator * 2 ^ 1074) <
      2 ^ 54 * (unitsOf magnitude * denominator) + unitsOf magnitude * denominator)
    (below : 2 ^ 54 * (unitsOf magnitude * denominator) <
      2 ^ 54 * (numerator * 2 ^ 1074) + unitsOf magnitude * denominator) :
    nearestMagnitude numerator denominator = magnitude := by
  obtain ⟨significand, scale, units, sum, fits, full⟩ := exists_significand magnitude
  unfold nearestMagnitude
  dsimp only
  rw [units] at above below
  generalize numerator * 2 ^ 1074 = total at *
  have product : significand * 2 ^ scale * denominator =
      significand * (denominator * 2 ^ scale) := by ac_rfl
  rw [product] at above below
  have step : 0 < denominator * 2 ^ scale := Nat.mul_pos positive (Nat.two_pow_pos scale)
  have room : (significand + 1) * (denominator * 2 ^ scale) ≤
      2 ^ 53 * (denominator * 2 ^ scale) := Nat.mul_le_mul_right _ fits
  rw [Nat.add_mul] at room
  by_cases same : scale = 0 ∨ 2 ^ 52 * (denominator * 2 ^ scale) ≤ total
  · have scaled : (total / denominator).log2 - 52 = scale :=
      log2_quotient positive scale (by omega) same
    rw [scaled, roundedQuotient_eq_of_near significand (by omega) (by omega)]
    exact sum.symm
  · -- Just below a power of two the scale is one less, and rounding carries into it.
    rw [not_or, Nat.not_le] at same
    obtain ⟨scale, rfl⟩ := Nat.exists_eq_add_one_of_ne_zero same.1
    have least := full.resolve_left same.1
    have whole : significand = 2 ^ 52 := by
      rcases Nat.eq_or_lt_of_le least with equal | more
      · exact equal.symm
      · have beyond : (2 ^ 52 + 1) * (denominator * 2 ^ (scale + 1)) ≤
            significand * (denominator * 2 ^ (scale + 1)) := Nat.mul_le_mul_right _ more
        rw [Nat.add_mul] at beyond
        omega
    subst whole
    have halved : denominator * 2 ^ (scale + 1) = 2 * (denominator * 2 ^ scale) := by
      rw [Nat.pow_succ']
      ac_rfl
    rw [halved] at above below same step
    have scaled : (total / denominator).log2 - 52 = scale :=
      log2_quotient positive scale (by omega) (.inr (by omega))
    rw [scaled, roundedQuotient_eq_of_near (2 ^ 53) (by omega) (by omega)]
    omega

/-! ### Decimal grids -/

/-- A number of units over the step of a decimal grid, as a fraction. -/
def gridNumerator (units : Nat) (exponent : Int) : Nat := units * 10 ^ (-exponent).toNat

def gridDenominator (exponent : Int) : Nat := 2 ^ 1074 * 10 ^ exponent.toNat

@[simp] theorem gridNumerator_ofNat (units exponent : Nat) :
    gridNumerator units (.ofNat exponent) = units := by
  rw [gridNumerator, Int.ofNat_eq_natCast, Int.toNat_neg_natCast, Nat.pow_zero, Nat.mul_one]

@[simp] theorem gridNumerator_negSucc (units exponent : Nat) :
    gridNumerator units (.negSucc exponent) = units * 10 ^ (exponent + 1) := rfl

@[simp] theorem gridDenominator_ofNat (exponent : Nat) :
    gridDenominator (.ofNat exponent) = 2 ^ 1074 * 10 ^ exponent := by
  rw [gridDenominator, Int.ofNat_eq_natCast, Int.toNat_natCast]

@[simp] theorem gridDenominator_negSucc (exponent : Nat) :
    gridDenominator (.negSucc exponent) = 2 ^ 1074 := by
  unfold gridDenominator
  generalize 2 ^ 1074 = unit
  rw [Int.toNat_negSucc, Nat.pow_zero, Nat.mul_one]

theorem gridDenominator_pos (exponent : Int) : 0 < gridDenominator exponent := by
  have positive : 0 < 2 ^ 1074 := Nat.two_pow_pos 1074
  unfold gridDenominator
  generalize 2 ^ 1074 = unit at *
  exact Nat.mul_pos positive (Nat.pow_pos (by decide))

/-- The nearer of the two neighbours of a number on a grid is within half a step of it. -/
theorem neighbours_cases (tie : TieRule) (units : Nat) (exponent : Int) :
    ∃ nearer farther,
      neighbours tie units exponent = [⟨nearer, exponent⟩, ⟨farther, exponent⟩] ∧
      (2 * (nearer * gridDenominator exponent) ≤
          2 * gridNumerator units exponent + gridDenominator exponent ∧
        2 * gridNumerator units exponent ≤
          2 * (nearer * gridDenominator exponent) + gridDenominator exponent) ∧
      nearer ≤ gridNumerator units exponent / gridDenominator exponent + 1 ∧
      farther ≤ gridNumerator units exponent / gridDenominator exponent + 1 := by
  have step := gridDenominator_pos exponent
  unfold neighbours gridNumerator
  unfold gridDenominator at *
  dsimp only
  generalize units * 10 ^ (-exponent).toNat = numerator
  generalize 2 ^ 1074 * 10 ^ exponent.toNat = denominator at *
  have parts := Nat.div_add_mod numerator denominator
  have rest := Nat.mod_lt numerator step
  generalize numerator / denominator = whole at *
  generalize numerator % denominator = part at *
  rw [Nat.mul_comm] at parts
  split
  case isTrue up =>
      have half : denominator ≤ 2 * part := by
        simp only [Bool.or_eq_true, Bool.and_eq_true, decide_eq_true_eq, beq_iff_eq] at up
        omega
      refine ⟨whole + 1, whole, rfl, ?_, by omega, by omega⟩
      rw [Nat.add_mul]
      omega
  case isFalse down =>
      have half : 2 * part ≤ denominator := by
        simp only [Bool.or_eq_true, Bool.and_eq_true, decide_eq_true_eq, not_or] at down
        omega
      exact ⟨whole, whole + 1, rfl, by omega, by omega, by omega⟩

/-- A point of a grid reads back to a number that is sixteen digits longer than the grid's step. -/
theorem ofDecimal?_of_near {real : Binary64} (finite : real.isFinite = true)
    {nearer : Nat} {exponent : Int} (least : -400 ≤ exponent) (most : exponent ≤ 400)
    (fine : 10 ^ 16 * gridDenominator exponent ≤ gridNumerator real.units exponent)
    (above : 2 * (nearer * gridDenominator exponent) ≤
      2 * gridNumerator real.units exponent + gridDenominator exponent)
    (below : 2 * gridNumerator real.units exponent ≤
      2 * (nearer * gridDenominator exponent) + gridDenominator exponent) :
    ofDecimal? real.negative ⟨nearer, exponent⟩ = some real := by
  have step := gridDenominator_pos exponent
  have nonzero : nearer ≠ 0 := by
    rintro rfl
    omega
  have nearest {numerator denominator : Nat} (positive : 0 < denominator)
      (upper : numerator * 2 ^ 1074 = nearer * gridDenominator exponent)
      (lower : unitsOf real.magnitude.val * denominator = gridNumerator real.units exponent) :
      ofMagnitude? real.negative (nearestMagnitude numerator denominator) = some real := by
    have equal : nearestMagnitude numerator denominator = real.magnitude.val :=
      nearestMagnitude_eq_of_near positive (by omega) (by omega)
    rw [equal]
    exact ofMagnitude?_magnitude finite
  cases exponent with
  | ofNat exponent =>
      have bounded : exponent ≤ 400 := Int.ofNat_le.mp most
      simp only [ofDecimal?, if_neg nonzero]
      rw [if_neg (by omega)]
      apply nearest Nat.one_pos
      · rw [gridDenominator_ofNat, Nat.mul_assoc, Nat.mul_comm (10 ^ exponent)]
      · rw [gridNumerator_ofNat, Nat.mul_one, units]
  | negSucc exponent =>
      simp only [ofDecimal?, if_neg nonzero]
      rw [if_neg (by omega)]
      apply nearest (Nat.pow_pos (by decide))
      · rw [gridDenominator_negSucc]
      · rw [gridNumerator_negSucc, units]

/-- A grid that is ten times as coarse. -/
theorem grid_step (units : Nat) (exponent : Int) :
    gridNumerator units exponent * gridDenominator (exponent + 1) =
      10 * (gridNumerator units (exponent + 1) * gridDenominator exponent) := by
  cases exponent with
  | ofNat exponent =>
      have next : Int.ofNat exponent + 1 = .ofNat (exponent + 1) := rfl
      rw [next, gridNumerator_ofNat, gridNumerator_ofNat, gridDenominator_ofNat,
        gridDenominator_ofNat]
      generalize 2 ^ 1074 = unit
      rw [Nat.pow_succ']
      generalize 10 ^ exponent = power
      rw [Nat.mul_left_comm unit, Nat.mul_left_comm units]
  | negSucc exponent =>
      have next : Int.negSucc exponent + 1 = -exponent := by omega
      have upper : gridNumerator units (-exponent) = units * 10 ^ exponent := by
        rw [gridNumerator, Int.neg_neg, Int.toNat_natCast]
      have lower : gridDenominator (-exponent) = gridDenominator (.negSucc exponent) := by
        rw [gridDenominator, gridDenominator, Int.toNat_neg_natCast, Int.toNat_negSucc]
      rw [next, upper, lower, gridNumerator_negSucc]
      generalize gridDenominator (.negSucc exponent) = denominator
      rw [Nat.pow_succ', Nat.mul_left_comm units, Nat.mul_assoc]

/-- On a grid ten times finer than one that is too coarse, a number has seventeen digits. -/
theorem div_lt_of_coarse {units : Nat} {exponent : Int}
    (coarse : gridNumerator units (exponent + 1) < 10 ^ 16 * gridDenominator (exponent + 1)) :
    gridNumerator units exponent / gridDenominator exponent < 10 ^ 17 := by
  have step := grid_step units exponent
  have fine := gridDenominator_pos exponent
  rw [Nat.div_lt_iff_lt_mul fine]
  apply Nat.lt_of_mul_lt_mul_right
  rw [step]
  have less := Nat.mul_lt_mul_of_pos_right coarse fine
  generalize gridNumerator units (exponent + 1) = numerator at *
  generalize gridDenominator (exponent + 1) = coarser at *
  generalize gridDenominator exponent = finer at *
  rw [show 10 ^ 16 * coarser * finer = 10 ^ 16 * (coarser * finer) by ac_rfl] at less
  rw [show 10 ^ 17 * finer * coarser = 10 ^ 17 * (coarser * finer) by ac_rfl]
  omega

/-! ### The power of ten above a number -/

/-- How many places above `10⁻³²³` the power of ten lies above a number of that binary logarithm. -/
def powerIndex (log : Nat) : Nat := (log * 30103 + 99481) / 100000

theorem powerAbove_eq (units : Nat) : powerAbove units = (powerIndex units.log2 : Int) - 323 := by
  unfold powerAbove powerIndex
  omega

/--
All numbers of that binary logarithm lie below their power of ten, and have seventeen digits at least
on the grid nineteen places below it.
-/
def isSpanned (log : Nat) : Bool :=
  Nat.ble (2 ^ (log + 1) * 10 ^ (323 - powerIndex log)) (2 ^ 1074 * 10 ^ (powerIndex log - 323)) &&
    Nat.ble (10 ^ 16 * (2 ^ 1074 * 10 ^ (powerIndex log - 342)))
      (2 ^ log * 10 ^ (342 - powerIndex log))

theorem all_isSpanned : (List.range 2098).all isSpanned = true := by decide +kernel

theorem log2_units_lt {real : Binary64} (finite : real.isFinite = true) :
    real.units.log2 < 2098 := by
  have below : real.magnitude.val < infiniteMagnitude := of_decide_eq_true finite
  by_cases zero : real.units = 0
  · rw [zero, Nat.log2_zero]
    omega
  obtain ⟨significand, scale, units, sum, fits, full⟩ := exists_significand real.magnitude.val
  have scaled : scale ≤ 2045 := by
    unfold infiniteMagnitude at below
    omega
  apply (Nat.log2_lt zero).mpr
  calc real.units = significand * 2 ^ scale := units
    _ < 2 ^ 53 * 2 ^ scale := Nat.mul_lt_mul_of_pos_right fits (Nat.two_pow_pos scale)
    _ = 2 ^ (53 + scale) := (Nat.pow_add 2 53 scale).symm
    _ ≤ 2 ^ 2098 := Nat.pow_le_pow_right (by decide) (by omega)

theorem powerAbove_bounds {real : Binary64} (finite : real.isFinite = true) :
    -323 ≤ powerAbove real.units ∧ powerAbove real.units ≤ 309 := by
  have below := log2_units_lt finite
  rw [powerAbove_eq]
  unfold powerIndex
  omega

/-- A number lies below its power of ten, and has seventeen digits nineteen places below it. -/
theorem grid_powerAbove {real : Binary64} (finite : real.isFinite = true) :
    gridNumerator real.units (powerAbove real.units) < gridDenominator (powerAbove real.units) ∧
      (real.units ≠ 0 → 10 ^ 16 * gridDenominator (powerAbove real.units - 19) ≤
        gridNumerator real.units (powerAbove real.units - 19)) := by
  have spanned := List.all_eq_true.mp all_isSpanned _ (List.mem_range.mpr (log2_units_lt finite))
  unfold isSpanned at spanned
  rw [Bool.and_eq_true, Nat.ble_eq, Nat.ble_eq] at spanned
  have high : real.units < 2 ^ (real.units.log2 + 1) := Nat.lt_log2_self
  rw [powerAbove_eq]
  unfold gridNumerator gridDenominator
  generalize powerIndex real.units.log2 = index at *
  rw [show (-((index : Int) - 323)).toNat = 323 - index by omega,
    show ((index : Int) - 323).toNat = index - 323 by omega,
    show (-((index : Int) - 323 - 19)).toNat = 342 - index by omega,
    show ((index : Int) - 323 - 19).toNat = index - 342 by omega]
  generalize 2 ^ 1074 = unit at *
  constructor
  · exact Nat.lt_of_lt_of_le (Nat.mul_lt_mul_of_pos_right high (Nat.pow_pos (by decide))) spanned.1
  · intro nonzero
    exact Nat.le_trans spanned.2 (Nat.mul_le_mul_right _ (Nat.log2_self_le nonzero))

/-! ### Shortest decimals -/

/-- The first of some numbers that has an image is behind those that have none. -/
theorem findSome?_range {β : Type} {image : Nat → Option β} {count : Nat} {found : β}
    (finds : (List.range count).findSome? image = some found) :
    ∃ step < count, image step = some found ∧ ∀ earlier < step, image earlier = none := by
  obtain ⟨before, step, after, split, here, missed⟩ := List.findSome?_eq_some_iff.mp finds
  have sorted : (before ++ step :: after).Pairwise (· < ·) := split ▸ List.pairwise_lt_range
  have listed : step ∈ List.range count := by simp [split]
  refine ⟨step, List.mem_range.mp listed, here, fun earlier less => missed earlier ?_⟩
  have among : earlier ∈ before ++ step :: after := by
    rw [← split, List.mem_range]
    exact Nat.lt_trans less (List.mem_range.mp listed)
  rcases List.mem_append.mp among with inside | behind
  · exact inside
  · rcases List.mem_cons.mp behind with rfl | later
    · omega
    · have further := (List.pairwise_cons.mp (List.pairwise_append.mp sorted).2.1).1 earlier later
      omega

/-- A grid on which a number has seventeen digits has a point that reads back to it. -/
theorem exists_reads_back (tie : TieRule) {real : Binary64} (finite : real.isFinite = true)
    {exponent : Int} (least : -400 ≤ exponent) (most : exponent ≤ 400)
    (fine : 10 ^ 16 * gridDenominator exponent ≤ gridNumerator real.units exponent) :
    ∃ decimal ∈ neighbours tie real.units exponent,
      ofDecimal? real.negative decimal = some real := by
  obtain ⟨nearer, farther, pair, near, -⟩ := neighbours_cases tie real.units exponent
  refine ⟨⟨nearer, exponent⟩, ?_, ofDecimal?_of_near finite least most fine near.1 near.2⟩
  rw [pair]
  exact List.mem_cons_self

/--
The shortest decimal of a number that is finite and not zero is next to it on a decimal grid, and on
no coarser grid does a point next to the number read back to it.
-/
theorem shortestDecimal_on_grid (tie : TieRule) {real : Binary64} (finite : real.isFinite = true)
    (nonzero : real.magnitude.val ≠ 0) :
    ∃ step : Nat, step < 20 ∧
      real.shortestDecimal tie ∈ neighbours tie real.units (powerAbove real.units - step) ∧
      ∀ earlier : Nat, earlier < step →
        ∀ decimal ∈ neighbours tie real.units (powerAbove real.units - earlier),
          ofDecimal? real.negative decimal ≠ some real := by
  have bounds := powerAbove_bounds finite
  obtain ⟨last, listed, reads⟩ := exists_reads_back tie finite
    (by omega) (by omega) ((grid_powerAbove finite).2 (units_ne_zero nonzero))
  unfold shortestDecimal
  dsimp only
  rw [List.find?_flatMap]
  cases finds : (List.range 20).findSome? (fun (step : Nat) =>
      (neighbours tie real.units (powerAbove real.units - step)).find?
        (fun decimal => ofDecimal? real.negative decimal == some real)) with
  | none =>
      have missed := List.findSome?_eq_none_iff.mp finds 19 (by simp)
      have other := List.find?_eq_none.mp missed last listed
      exact absurd (beq_iff_eq.mpr reads) other
  | some found =>
      obtain ⟨step, within, here, missed⟩ := findSome?_range finds
      refine ⟨step, within, List.mem_of_find?_eq_some here,
        fun earlier less decimal near equal => ?_⟩
      exact List.find?_eq_none.mp (missed earlier less) decimal near (beq_iff_eq.mpr equal)

/--
The shortest decimal of a number that is finite and not zero has seventeen digits at most, or is the
power of ten that comes after them.
-/
theorem significand_shortestDecimal_le (tie : TieRule) {real : Binary64}
    (finite : real.isFinite = true) (nonzero : real.magnitude.val ≠ 0) :
    (real.shortestDecimal tie).significand ≤ 10 ^ 17 := by
  have bounds := powerAbove_bounds finite
  obtain ⟨step, within, listed, missed⟩ := shortestDecimal_on_grid tie finite nonzero
  have short : gridNumerator real.units (powerAbove real.units - step) /
      gridDenominator (powerAbove real.units - step) < 10 ^ 17 := by
    cases step with
    | zero =>
        have below := (grid_powerAbove finite).1
        rw [Int.natCast_zero, Int.sub_zero, Nat.div_eq_of_lt below]
        decide
    | succ step =>
        apply div_lt_of_coarse
        apply Nat.lt_of_not_le
        intro fine
        rw [show powerAbove real.units - (step + 1 : Nat) + 1 = powerAbove real.units - step by
          omega] at fine
        obtain ⟨decimal, near, reads⟩ :=
          exists_reads_back tie finite (by omega) (by omega) fine
        exact missed step (Nat.lt_succ_self step) decimal near reads
  obtain ⟨nearer, farther, pair, -, nearest, farthest⟩ :=
    neighbours_cases tie real.units (powerAbove real.units - step)
  rw [pair] at listed
  rcases List.mem_cons.mp listed with equal | others
  · rw [equal]
    exact Nat.le_trans nearest short
  · rw [List.mem_singleton.mp others]
    exact Nat.le_trans farthest short

/-- The sum of a tenth and two tenths has all seventeen of them. -/
example : (ofBits 0x3FD3333333333334).shortestDecimal .toEven = ⟨30000000000000004, -17⟩ := by
  decide +kernel

end Binary64

end SyntaxTree
