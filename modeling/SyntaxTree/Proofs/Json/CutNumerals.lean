import SyntaxTree.Proofs.Json.NumberGrammar

/-!
# Numbers that are cut

The text of a number that is cut somewhere is the text of another number, or of none yet. Its digits
and its power are the first of those of the whole number, so an integer is cut to one no further
from zero, and a number that is written without a large mantissa before a negative power is not cut
to one that overflows.
-/

namespace SyntaxTree

/-- A decimal of a significand, places and a power can be compared as a fraction. -/
theorem Decimal.overflows_iff {significand up down : Nat} :
    (⟨significand, (up : Int) - down⟩ : Decimal).Overflows ↔
      Binary64.overflowBound * 10 ^ down ≤ significand * 10 ^ up := by
  unfold Overflows
  dsimp only
  generalize Binary64.overflowBound = bound
  rcases Nat.le_total down up with less | less
  · have above : ((up : Int) - down).toNat = up - down := by omega
    have below : (-((up : Int) - down)).toNat = 0 := by omega
    have powers : 10 ^ up = 10 ^ (up - down) * 10 ^ down := by
      rw [← Nat.pow_add, Nat.sub_add_cancel less]
    rw [above, below, powers, Nat.pow_zero, Nat.mul_one, ← Nat.mul_assoc,
      Nat.mul_le_mul_right_iff (Nat.pow_pos (by decide))]
  · have above : ((up : Int) - down).toNat = 0 := by omega
    have below : (-((up : Int) - down)).toNat = down - up := by omega
    have powers : 10 ^ down = 10 ^ (down - up) * 10 ^ up := by
      rw [← Nat.pow_add, Nat.sub_add_cancel less]
    rw [above, below, powers, Nat.pow_zero, Nat.mul_one, ← Nat.mul_assoc,
      Nat.mul_le_mul_right_iff (Nat.pow_pos (by decide))]

namespace Json

namespace NumeralScan

/-- What the rest of a number adds to what was scanned of it. -/
structure Grows (first last : NumeralScan) : Prop where
  sign : last.negative = first.negative
  places_le : first.places ≤ last.places
  significand_le : first.significand * 10 ^ (last.places - first.places) ≤ last.significand
  power_le : first.power ≤ last.power
  /-- The sign of a power stands before its digits. -/
  settled : first.phase = .power →
    last.phase = .power ∧ last.negativePower = first.negativePower ∧
      last.significand = first.significand ∧ last.places = first.places
  /-- A whole number begins as one. -/
  origin : last.phase = .sign ∨ last.phase = .zero ∨ last.phase = .whole →
    first.phase = .sign ∨ first.phase = last.phase

theorem Grows.refl (scan : NumeralScan) : scan.Grows scan where
  sign := rfl
  places_le := Nat.le_refl _
  significand_le := by simp
  power_le := Nat.le_refl _
  settled phase := ⟨phase, rfl, rfl, rfl⟩
  origin _ := .inr rfl

theorem Grows.trans {first middle last : NumeralScan} (early : first.Grows middle)
    (late : middle.Grows last) : first.Grows last where
  sign := late.sign.trans early.sign
  places_le := Nat.le_trans early.places_le late.places_le
  significand_le := by
    have apart : last.places - first.places =
        (middle.places - first.places) + (last.places - middle.places) := by
      have less := early.places_le
      have more := late.places_le
      omega
    rw [apart, Nat.pow_add, ← Nat.mul_assoc]
    exact Nat.le_trans (Nat.mul_le_mul_right _ early.significand_le) late.significand_le
  power_le := Nat.le_trans early.power_le late.power_le
  settled phase := by
    obtain ⟨reached, sign, digits, places⟩ := early.settled phase
    obtain ⟨remains, same, more, further⟩ := late.settled reached
    exact ⟨remains, same.trans sign, more.trans digits, further.trans places⟩
  origin phase := by
    rcases late.origin phase with sign | same
    · exact .inl ((early.origin (.inl sign)).elim id (fun equal => equal.trans sign))
    · rw [← same] at phase ⊢
      exact early.origin phase

theorem grows_step {scan next : NumeralScan} {char : Char}
    (stepped : scan.step char = .more next) : scan.Grows next := by
  unfold step withDigit withPlace withPower at stepped
  split at stepped <;> rename_i phase <;> repeat' split at stepped
  all_goals cases stepped <;> constructor <;> simp_all
  all_goals omega

theorem grows_after? {scan after : NumeralScan} {text : List Char}
    (scanned : scan.after? text = some after) : scan.Grows after :=
  after?_induction (motive := scan.Grows)
    (fun _ _ _ grows stepped => grows.trans (grows_step stepped)) (.refl scan) scanned

end NumeralScan

/-! ### What a number is cut to -/

/-- The number is what is read of a whole number that is cut. -/
structure Numeral.Shortened (whole cut : Numeral) : Prop where
  unscaled : cut.isWhole = true → cut.decimal.exponent = 0
  valued : whole.value?.isSome = true → cut.value?.isSome = true
  integer : ∀ value, whole.value? = some (.integer value) →
    ∃ less, cut.value? = some (.integer less) ∧ min value 0 ≤ less ∧ less ≤ max value 0

namespace NumeralScan

variable {first last : NumeralScan} {cut whole : Numeral}

theorem parts_of_complete {scan : NumeralScan} {numeral : Numeral}
    (complete : scan.numeral? = some numeral) :
    scan.phase ≠ .markSign ∧ numeral.negative = scan.negative ∧
      numeral.decimal = ⟨scan.significand,
        (if scan.negativePower then -(scan.power : Int) else scan.power) - scan.places⟩ ∧
      (numeral.isWhole = true ↔ scan.phase = .zero ∨ scan.phase = .whole) := by
  cases phase : scan.phase <;> simp only [numeral?, phase] at complete <;> cases complete <;> simp

/-- A number overflows if its digits and its places do with a part of its power. -/
theorem overflows_of_complete (complete : last.numeral? = some whole)
    (positive : last.negativePower = false) {power : Nat} (part : power ≤ last.power)
    (overflows : Binary64.overflowBound * 10 ^ last.places ≤ last.significand * 10 ^ power) :
    whole.decimal.Overflows := by
  obtain ⟨-, -, decimal, -⟩ := parts_of_complete complete
  rw [decimal, positive]
  refine Decimal.overflows_iff.mpr (Nat.le_trans overflows ?_)
  exact Nat.mul_le_mul_left _ (Nat.pow_le_pow_right (by decide) part)

/-- A mantissa below ten is far from overflowing. -/
theorem mantissa_lt (small : last.significand < 10 ^ (last.places + 1)) :
    last.significand < Binary64.overflowBound * 10 ^ last.places := by
  have large : 10 ≤ Binary64.overflowBound := by decide +kernel
  rw [Nat.pow_succ, Nat.mul_comm] at small
  exact Nat.lt_of_lt_of_le small (Nat.mul_le_mul_right _ large)

/-- What is scanned of a number overflows only if the number does, unless its power is negative. -/
theorem Grows.overflows (grows : first.Grows last) (standing : first.Standing)
    (complete : first.numeral? = some cut) (finished : last.numeral? = some whole)
    (small : last.negativePower = true → last.significand < 10 ^ (last.places + 1))
    (overflows : cut.decimal.Overflows) : whole.decimal.Overflows := by
  obtain ⟨notSign, -, decimal, -⟩ := parts_of_complete complete
  rw [decimal] at overflows
  by_cases powered : first.phase = .power
  · obtain ⟨-, sign, digits, places⟩ := grows.settled powered
    rw [← digits, ← places, ← sign] at overflows
    cases negative : last.negativePower with
    | false =>
        rw [negative] at overflows
        exact overflows_of_complete finished negative grows.power_le
          (Decimal.overflows_iff.mp overflows)
    | true =>
        have exponent : -(first.power : Int) - last.places =
            ((0 : Nat) : Int) - (first.power + last.places : Nat) := by omega
        rw [negative, if_pos rfl, exponent, Decimal.overflows_iff, Nat.pow_zero, Nat.mul_one,
          Nat.pow_add, Nat.mul_left_comm] at overflows
        have least := Nat.le_mul_of_pos_left (Binary64.overflowBound * 10 ^ last.places)
          (Nat.pow_pos (by decide) : 0 < 10 ^ first.power)
        have less := mantissa_lt (small negative)
        omega
  · have unpowered := standing.unpowered notSign powered
    have exponent : (if first.negativePower then -(first.power : Int) else first.power) -
        first.places = ((0 : Nat) : Int) - first.places := by simp [unpowered]
    rw [exponent, Decimal.overflows_iff, Nat.pow_zero, Nat.mul_one] at overflows
    have carried : Binary64.overflowBound * 10 ^ last.places ≤ last.significand :=
      calc Binary64.overflowBound * 10 ^ last.places
          = Binary64.overflowBound * 10 ^ first.places * 10 ^ (last.places - first.places) := by
            rw [Nat.mul_assoc, ← Nat.pow_add, Nat.add_sub_cancel' grows.places_le]
        _ ≤ first.significand * 10 ^ (last.places - first.places) :=
          Nat.mul_le_mul_right _ overflows
        _ ≤ last.significand := grows.significand_le
    cases negative : last.negativePower with
    | false =>
        exact overflows_of_complete finished negative (Nat.zero_le _) (by simpa using carried)
    | true => exact absurd carried (Nat.not_le_of_lt (mantissa_lt (small negative)))

/-- A whole number is cut to a whole number with fewer digits, which is not zero before others. -/
theorem Grows.of_isWhole (grows : first.Grows last) (early : first.Standing) (late : last.Standing)
    (complete : first.numeral? = some cut) (finished : last.numeral? = some whole)
    (isWhole : whole.isWhole = true) :
    cut.isWhole = true ∧ cut.negative = whole.negative ∧
      cut.decimal.significand ≤ whole.decimal.significand ∧
      (whole.decimal.significand ≠ 0 → cut.decimal.significand ≠ 0) := by
  obtain ⟨-, sign, decimal, wholeness⟩ := parts_of_complete complete
  obtain ⟨-, lastSign, lastDecimal, lastWholeness⟩ := parts_of_complete finished
  have ended := lastWholeness.mp isWhole
  have same : first.phase = last.phase := by
    refine (grows.origin (.inr ended)).resolve_left (fun begins => ?_)
    rw [numeral?, begins] at complete
    cases complete
  have places : last.places = 0 := late.pointless (.inr ended)
  have less := grows.significand_le
  rw [places, Nat.zero_sub, Nat.pow_zero, Nat.mul_one] at less
  rw [← same] at ended
  rw [sign, lastSign, decimal, lastDecimal]
  refine ⟨wholeness.mpr ended, grows.sign.symm, less, fun nonzero => ?_⟩
  rcases ended with zero | phase
  · exact absurd (late.blank (.inr (same ▸ zero))) nonzero
  · exact Nat.ne_of_gt (early.positive phase)

theorem Grows.shortened (grows : first.Grows last) (early : first.Standing) (late : last.Standing)
    (complete : first.numeral? = some cut) (finished : last.numeral? = some whole)
    (small : last.negativePower = true → last.significand < 10 ^ (last.places + 1)) :
    whole.Shortened cut where
  unscaled := early.exponent complete
  valued some := by
    rw [Option.isSome_iff_ne_none] at some ⊢
    intro none
    rw [Numeral.value?_eq_none_iff (early.exponent complete)] at none
    exact some ((Numeral.value?_eq_none_iff (late.exponent finished)).mpr
      (grows.overflows early complete finished small none))
  integer value valued := by
    unfold Numeral.value? at valued ⊢
    dsimp only at valued ⊢
    split at valued
    case isTrue unsigned =>
        cases valued
        simp only [Bool.and_eq_true, Bool.not_eq_true', decide_eq_true_eq] at unsigned
        obtain ⟨isWhole, sign, less, -⟩ :=
          grows.of_isWhole early late complete finished unsigned.1.1
        refine ⟨cut.decimal.significand, ?_, by omega, by omega⟩
        rw [if_pos]
        simp only [isWhole, sign, unsigned.1.2, Bool.not_false, Bool.true_and, decide_eq_true_eq]
        omega
    case isFalse =>
        split at valued
        case isTrue signed =>
            cases valued
            simp only [Bool.and_eq_true, bne_iff_ne, decide_eq_true_eq] at signed
            obtain ⟨isWhole, sign, less, nonzero⟩ :=
              grows.of_isWhole early late complete finished signed.1.1.1
            refine ⟨-cut.decimal.significand, ?_, by omega, by omega⟩
            rw [if_neg (by simp [sign, signed.1.1.2]), if_pos]
            simp only [isWhole, sign, signed.1.1.2, Bool.true_and, Bool.and_eq_true, bne_iff_ne,
              decide_eq_true_eq]
            exact ⟨nonzero signed.1.2, by omega⟩
        case isFalse =>
            obtain ⟨real, -, equal⟩ := Option.map_eq_some_iff.mp valued
            cases equal

/-! ### Numbers as they are written -/

/-- A minus sign within a number is that of its power. -/
theorem negativePower_of_after? {scan after : NumeralScan} {text : List Char}
    (unsigned : ∀ char ∈ text, char ≠ '-') (scanned : scan.after? text = some after) :
    after.negativePower = scan.negativePower := by
  have step {scan next : NumeralScan} {char : Char} (other : char ≠ '-')
      (stepped : scan.step char = .more next) : next.negativePower = scan.negativePower := by
    unfold NumeralScan.step withDigit withPlace withPower at stepped
    split at stepped <;> repeat' split at stepped
    all_goals cases stepped <;> simp_all
  induction text generalizing scan with
  | nil =>
      cases scanned
      rfl
  | cons char rest ih =>
      obtain ⟨here, others⟩ := List.forall_mem_cons.mp unsigned
      simp only [after?] at scanned
      split at scanned
      · rename_i next stepped
        exact (ih others scanned).trans (step here stepped)
      · cases scanned

theorem Digital.ne_minus {digits : List Char} (digital : Digital digits) :
    ∀ char ∈ digits, char ≠ '-' := by
  rintro char member rfl
  exact absurd (digital '-' member) (by decide)

theorem positional_ne_minus (decimal : Decimal) : ∀ char ∈ decimal.positional, char ≠ '-' := by
  have digital := digital_toDigits decimal.significand
  unfold Decimal.positional
  dsimp only
  split
  · rename_i exponent _
    have zeros := digital_replicate_zero exponent
    have tail : ∀ char ∈ ['.', '0'], char ≠ '-' := by simp
    exact List.forall_mem_append.mpr ⟨(digital.append zeros).ne_minus, tail⟩
  · rename_i places _
    have padded := (digital_replicate_zero (places + 2 - decimal.digits.length)).append digital
    refine List.forall_mem_append.mpr ⟨fun char member => ?_, List.forall_mem_cons.mpr
      ⟨by decide, fun char member => ?_⟩⟩
    · exact padded.ne_minus char (List.mem_of_mem_take member)
    · exact padded.ne_minus char (List.mem_of_mem_drop member)

/-- A decimal has a power only behind a mantissa below ten. -/
theorem significand_lt_of_text {negative : Bool} {format : RealFormat} {decimal : Decimal}
    (nonzero : decimal.significand ≠ 0) {scan : NumeralScan}
    (scanned : (begun negative).after? (decimal.text format) = some scan)
    (signed : scan.negativePower = true) : scan.significand < 10 ^ (scan.places + 1) := by
  unfold Decimal.text at scanned
  split at scanned
  · have unsigned := negativePower_of_after? (positional_ne_minus decimal) scanned
    rw [unsigned] at signed
    cases signed
  · obtain ⟨mantissa, before, marked, -, significand, places, fresh, unsigned⟩ :=
      after?_mantissa negative nonzero
    have powered := after?_integer { mantissa with phase := .mark } format.showsPlus
      decimal.leadingPower rfl fresh unsigned
    have onward (rest : List Char) :
        mantissa.after? ('e' :: rest) = after? { mantissa with phase := .mark } rest := by
      rw [after?, marked]
    have whole := ((after?_append before _).trans (onward _)).trans powered
    cases Option.some.inj (scanned.symm.trans whole)
    dsimp only
    have length : 0 < decimal.digits.length := Nat.length_toDigits_pos
    rw [significand, places, Nat.sub_add_cancel length]
    exact (Nat.length_toDigits_le_iff (by decide) length).mp (Nat.le_refl _)

end NumeralScan

open NumeralScan

/-- The text is that of a number with a mantissa below ten if its power is negative. -/
def Steady (text : List Char) (numeral : Numeral) : Prop :=
  ∃ negative digits scan, text = (if negative then ['-'] else []) ++ digits ∧
    (begun negative).after? digits = some scan ∧ scan.numeral? = some numeral ∧
    (scan.negativePower = true → scan.significand < 10 ^ (scan.places + 1))

theorem steady_integer (value : Int) : Steady (Text.integer value) (.ofInt value) := by
  cases value with
  | ofNat natural =>
      by_cases zero : natural = 0
      · subst zero
        exact ⟨false, ['0'], _, rfl, rfl, rfl, (absurd · Bool.false_ne_true)⟩
      · have nonnegative : ¬(natural : Int) < 0 := by omega
        refine ⟨false, _, _, rfl, after?_toDigits false zero, ?_, (absurd · Bool.false_ne_true)⟩
        simp [numeral?, Numeral.ofInt, nonnegative]
  | negSucc natural =>
      refine ⟨true, _, _, rfl, after?_toDigits true (Nat.succ_ne_zero natural), ?_,
        (absurd · Bool.false_ne_true)⟩
      simp [numeral?, Numeral.ofInt]

theorem steady_real (format : RealFormat) (real : Binary64) :
    Steady (real.text format) (.ofReal format real) := by
  unfold Binary64.text Numeral.ofReal
  by_cases zero : real.magnitude.val = 0
  · simp only [zero, if_true]
    exact ⟨real.negative, _, _, rfl, rfl, rfl, (absurd · Bool.false_ne_true)⟩
  · simp only [zero, if_false]
    have nonzero := Binary64.significand_shortestDecimal_ne_zero format.tie zero
    obtain ⟨scan, scanned, complete⟩ := after?_text real.negative format nonzero
    exact ⟨real.negative, _, scan, rfl, scanned, complete, significand_lt_of_text nonzero scanned⟩

theorem exists_after?_of_append {scan last : NumeralScan} {kept cut : List Char}
    (scanned : scan.after? (kept ++ cut) = some last) :
    ∃ middle, scan.after? kept = some middle ∧ middle.after? cut = some last := by
  induction kept generalizing scan with
  | nil => exact ⟨scan, rfl, scanned⟩
  | cons char rest ih =>
      simp only [List.cons_append, after?] at scanned ⊢
      split at scanned
      · exact ih scanned
      · cases scanned

/-- Behind a first part of its text the scanner is within the number, or within another one. -/
theorem Steady.cut {kept cut : List Char} {numeral : Numeral}
    (steady : Steady (kept ++ cut) numeral)
    (begun : kept ≠ []) (found : List Lexeme) :
    ∃ scan, kept.foldl Scanner.step ⟨found, .between⟩ = ⟨found, .numeral scan⟩ ∧
      ∀ shorter, scan.numeral? = some shorter → numeral.Shortened shorter := by
  obtain ⟨negative, digits, last, text, scanned, finished, small⟩ := steady
  obtain ⟨first, others, rfl⟩ := List.exists_cons_of_ne_nil begun
  have within {before after : List Char} (split : digits = before ++ after) :
      ∃ scan, (NumeralScan.begun negative).after? before = some scan ∧
        ∀ shorter, scan.numeral? = some shorter → numeral.Shortened shorter := by
    rw [split] at scanned
    obtain ⟨scan, early, late⟩ := exists_after?_of_append scanned
    have standing := (Standing.begun negative).after? early
    exact ⟨scan, early, fun shorter complete =>
      (grows_after? late).shortened standing (standing.after? late) complete finished small⟩
  cases negative with
  | true =>
      obtain ⟨rfl, split⟩ := List.cons.inj text
      obtain ⟨scan, early, shortened⟩ := within split.symm
      exact ⟨scan, foldl_numeral early found, shortened⟩
  | false =>
      obtain ⟨scan, early, shortened⟩ := within text.symm
      obtain ⟨digit, rest, equal, isDigit⟩ := isDigit_of_complete scanned finished
      have same : first = digit := (List.cons.inj (text.trans equal)).1
      obtain ⟨next, stepped, started⟩ := start_digit ⟨found, .between⟩ (same ▸ isDigit)
      rw [after?, stepped] at early
      refine ⟨scan, ?_, shortened⟩
      change others.foldl Scanner.step (Scanner.start ⟨found, .between⟩ first) = _
      rw [started]
      exact foldl_numeral early found

end Json
end SyntaxTree
