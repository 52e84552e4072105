import Mathlib
import ScriptCore.Proofs.Number.Doubles

set_option autoImplicit false

/-! Rounding a number to a double. A fraction goes to the value with fifty-three binary digits
that is nearest to it, of two such values to the one whose last digit is even, and to infinity
if that value is past the limit. A decimal far out of range is no exception. -/

namespace ScriptCore.Number

/-! ### The nearest whole number -/

theorem divNearest_cases (numerator denominator : Nat) :
    (divNearest numerator denominator = numerator / denominator ∧
        2 * (numerator % denominator) ≤ denominator) ∨
      (divNearest numerator denominator = numerator / denominator + 1 ∧
        denominator ≤ 2 * (numerator % denominator)) := by
  unfold divNearest
  dsimp only
  split
  · exact Or.inl ⟨rfl, by omega⟩
  · split
    · exact Or.inl ⟨rfl, by omega⟩
    · exact Or.inr ⟨rfl, by omega⟩

theorem two_dvd_divNearest {numerator denominator : Nat}
    (half : 2 * (numerator % denominator) = denominator) :
    2 ∣ divNearest numerator denominator := by
  unfold divNearest
  dsimp only
  rw [if_neg (by omega)]
  split
  · omega
  · omega

/-- A multiple of the denominator is one of the two next to the numerator, or further off. -/
private theorem multiple_cases (below other denominator : Nat) :
    other * denominator + denominator ≤ below * denominator ∨ other = below ∨ other = below + 1 ∨
      below * denominator + 2 * denominator ≤ other * denominator := by
  rcases Nat.lt_or_ge other below with less | notLess
  · have step := Nat.mul_le_mul_right denominator (Nat.succ_le_of_lt less)
    rw [Nat.succ_mul] at step
    exact Or.inl step
  · rcases Nat.lt_or_ge (below + 1) other with more | notMore
    · have step := Nat.mul_le_mul_right denominator (Nat.succ_le_of_lt more)
      rw [Nat.succ_mul, Nat.succ_mul] at step
      exact Or.inr (Or.inr (Or.inr (by omega)))
    · exact Or.inr (by omega)

theorem divNearest_mul_self (number : Nat) {denominator : Nat} (positive : 0 < denominator) :
    divNearest (number * denominator) denominator = number := by
  unfold divNearest
  dsimp only
  rw [Nat.mul_mod_left, if_pos (by omega), Nat.mul_div_cancel _ positive]

section DivNearest

variable (numerator : Nat) {denominator : Nat} (positive : 0 < denominator)

include positive

theorem divNearest_nearest (other : Nat) :
    (divNearest numerator denominator * denominator).dist numerator ≤
      (other * denominator).dist numerator := by
  have division := Nat.div_add_mod' numerator denominator
  have rest := Nat.mod_lt numerator positive
  have next := Nat.add_one_mul (numerator / denominator) denominator
  have others := multiple_cases (numerator / denominator) other denominator
  unfold Nat.dist
  rcases divNearest_cases numerator denominator with ⟨down, near⟩ | ⟨up, near⟩
  · rw [down]
    rcases others with less | rfl | rfl | more
    all_goals omega
  · rw [up]
    rcases others with less | rfl | rfl | more
    all_goals omega

theorem divNearest_tie {other : Nat} (apart : other ≠ divNearest numerator denominator)
    (same : (other * denominator).dist numerator =
      (divNearest numerator denominator * denominator).dist numerator) :
    2 ∣ divNearest numerator denominator := by
  have division := Nat.div_add_mod' numerator denominator
  have rest := Nat.mod_lt numerator positive
  have next := Nat.add_one_mul (numerator / denominator) denominator
  have others := multiple_cases (numerator / denominator) other denominator
  apply two_dvd_divNearest
  unfold Nat.dist at same
  rcases divNearest_cases numerator denominator with ⟨down, near⟩ | ⟨up, near⟩
  · rw [down] at apart same
    rcases others with less | rfl | rfl | more
    all_goals omega
  · rw [up] at apart same
    rcases others with less | rfl | rfl | more
    all_goals omega

end DivNearest

/-! ### The nearest value with fifty-three digits -/

namespace Binary64

/-- The value of fifty-three digits that stands for a fraction. -/
def roundedUnits (numerator denominator : Nat) : Nat :=
  let places := spacing (numerator / denominator)
  divNearest numerator (denominator * twoTo places) * twoTo places

theorem ofFraction_eq (numerator denominator : Nat) : ofFraction numerator denominator =
    if roundedUnits (numerator * unitsPerOne) denominator < unitsLimit then
      .finite false (roundedUnits (numerator * unitsPerOne) denominator)
    else .infinite false := rfl

theorem roundWhole_eq (number : Nat) : roundWhole number = roundedUnits number 1 := by
  unfold roundWhole roundedUnits
  simp only [Nat.div_one, Nat.one_mul]

/-- A value of fifty-three digits lies on a given grid or below the values for which that grid
is as fine as it gets. -/
theorem dvd_or_lt {other : Nat} (significant : Significant other) (places : Nat) :
    twoTo places ∣ other ∨ 0 < places ∧ other < twoTo (52 + places) := by
  by_cases fine : places ≤ spacing other
  · exact Or.inl ((Nat.pow_dvd_pow 2 fine).trans significant)
  · right
    refine ⟨by omega, ?_⟩
    by_cases zero : other = 0
    · rw [zero]
      exact twoTo_pos _
    · rw [← log2_lt_iff zero]
      unfold spacing at fine
      omega

section Rounded

variable (numerator denominator : Nat)

/-- The digits that are kept, before the last one is rounded. -/
private theorem kept_digits :
    numerator / (denominator * twoTo (spacing (numerator / denominator))) < twoTo 53 ∧
      (twoTo 52 ≤ numerator / (denominator * twoTo (spacing (numerator / denominator))) ∨
        spacing (numerator / denominator) = 0) := by
  rw [← Nat.div_div_eq_div_mul]
  exact ⟨div_spacing_lt _, full_or_spacing_eq_zero _⟩

/-- Rounding up may carry over to the next power of two, where the grid is coarser. -/
private theorem roundedUnits_cases : ∃ digits places,
    roundedUnits numerator denominator = digits * twoTo places ∧ digits < twoTo 53 ∧
      spacing (roundedUnits numerator denominator) = places ∧
        (2 ∣ divNearest numerator (denominator * twoTo (spacing (numerator / denominator))) →
          2 ∣ digits) := by
  obtain ⟨short, full⟩ := kept_digits numerator denominator
  have near := divNearest_cases numerator
    (denominator * twoTo (spacing (numerator / denominator)))
  unfold roundedUnits
  dsimp only
  generalize spacing (numerator / denominator) = places at *
  generalize numerator / (denominator * twoTo places) = below at *
  generalize divNearest numerator (denominator * twoTo places) = digits at *
  have double := twoTo_53
  by_cases carried : digits = twoTo 53
  · refine ⟨twoTo 52, places + 1, ?_, by omega, ?_, fun _ => ⟨twoTo 51, rfl⟩⟩
    · rw [carried, double, twoTo_succ places]
      ring
    · rw [carried, double, Nat.mul_assoc, Nat.mul_comm 2, ← twoTo_succ]
      exact spacing_eq le_rfl (by omega)
  · have fits : digits < twoTo 53 := by omega
    refine ⟨digits, places, rfl, fits, ?_, id⟩
    rcases full with full | zero
    · exact spacing_eq (by omega) fits
    · rw [zero, twoTo_zero, Nat.mul_one]
      exact spacing_eq_zero fits

theorem significant_roundedUnits : Significant (roundedUnits numerator denominator) := by
  obtain ⟨digits, places, same, short, _⟩ := roundedUnits_cases numerator denominator
  exact (significant_iff _).mpr ⟨digits, places, short, same⟩

private theorem two_dvd_last_digit
    (even : 2 ∣ divNearest numerator (denominator * twoTo (spacing (numerator / denominator)))) :
    2 ∣ roundedUnits numerator denominator /
      twoTo (spacing (roundedUnits numerator denominator)) := by
  obtain ⟨digits, places, same, _, spaced, evenDigits⟩ := roundedUnits_cases numerator denominator
  rw [spaced, same, Nat.mul_div_cancel _ (twoTo_pos places)]
  exact evenDigits even

private theorem roundedUnits_mul : roundedUnits numerator denominator * denominator =
    divNearest numerator (denominator * twoTo (spacing (numerator / denominator))) *
      (denominator * twoTo (spacing (numerator / denominator))) := by
  unfold roundedUnits
  ring

end Rounded

section Nearest

variable (numerator : Nat) {denominator other : Nat} (positive : 0 < denominator)
  (significant : Significant other)

include positive significant

/-- A value of fifty-three digits that is as near as the rounded one is off by half of the last
digit, and no such value is nearer. -/
private theorem roundedUnits_cases_of_significant :
    (roundedUnits numerator denominator * denominator).dist numerator <
        (other * denominator).dist numerator ∨
      ∃ digits, other = digits * twoTo (spacing (numerator / denominator)) ∧
        other * denominator =
          digits * (denominator * twoTo (spacing (numerator / denominator))) := by
  have step : 0 < denominator * twoTo (spacing (numerator / denominator)) :=
    Nat.mul_pos positive (twoTo_pos _)
  rcases dvd_or_lt significant (spacing (numerator / denominator)) with
    ⟨digits, rfl⟩ | ⟨coarse, below⟩
  · exact Or.inr ⟨digits, Nat.mul_comm _ _, by ring⟩
  · left
    have full := (kept_digits numerator denominator).2.resolve_right (by omega)
    rw [Nat.le_div_iff_mul_le step] at full
    have least := divNearest_nearest numerator step (twoTo 52)
    have less := Nat.mul_lt_mul_of_pos_right below positive
    rw [twoTo_add, Nat.mul_right_comm, Nat.mul_assoc] at less
    rw [roundedUnits_mul]
    refine least.trans_lt ?_
    unfold Nat.dist
    omega

theorem roundedUnits_nearest :
    (roundedUnits numerator denominator * denominator).dist numerator ≤
      (other * denominator).dist numerator := by
  rcases roundedUnits_cases_of_significant numerator positive significant with further | ⟨digits, _, same⟩
  · exact further.le
  · rw [roundedUnits_mul, same]
    exact divNearest_nearest numerator (Nat.mul_pos positive (twoTo_pos _)) digits

/-- Of two values that are equally near the one whose last digit is even is taken. -/
theorem roundedUnits_even (apart : other ≠ roundedUnits numerator denominator)
    (tie : (other * denominator).dist numerator =
      (roundedUnits numerator denominator * denominator).dist numerator) :
    2 ∣ roundedUnits numerator denominator /
      twoTo (spacing (roundedUnits numerator denominator)) := by
  apply two_dvd_last_digit
  rcases roundedUnits_cases_of_significant numerator positive significant with further | ⟨digits, chosen, same⟩
  · exact absurd tie further.ne'
  · rw [roundedUnits_mul, same] at tie
    refine divNearest_tie numerator (Nat.mul_pos positive (twoTo_pos _)) ?_ tie
    rintro rfl
    exact apart chosen

end Nearest

/-- A value of fifty-three digits that is no more than the fraction is no more than what it
rounds to. -/
theorem le_roundedUnits {numerator denominator least : Nat} (positive : 0 < denominator)
    (significant : Significant least) (le : least * denominator ≤ numerator) :
    least ≤ roundedUnits numerator denominator := by
  have near := roundedUnits_nearest numerator positive significant
  by_contra less
  have below := Nat.mul_lt_mul_of_pos_right (Nat.lt_of_not_le less) positive
  unfold Nat.dist at near
  omega

theorem roundedUnits_eq_zero {numerator denominator : Nat} (small : 2 * numerator < denominator) :
    roundedUnits numerator denominator = 0 := by
  have near := roundedUnits_nearest numerator (by omega : 0 < denominator)
    (.of_lt (twoTo_pos 53))
  by_contra some
  have whole := Nat.le_mul_of_pos_left denominator (Nat.pos_of_ne_zero some)
  rw [Nat.zero_mul] at near
  unfold Nat.dist at near
  omega

/-- A value of fifty-three digits is not changed. -/
theorem roundedUnits_mul_self {units denominator : Nat} (positive : 0 < denominator)
    (significant : Significant units) : roundedUnits (units * denominator) denominator = units := by
  have near := roundedUnits_nearest (units * denominator) positive significant
  rw [Nat.dist_self, Nat.le_zero] at near
  exact Nat.eq_of_mul_eq_mul_right positive (Nat.eq_of_dist_eq_zero near)

/-- The double of a fraction that is the value of a double. -/
theorem ofFraction_of_significant {units numerator denominator : Nat} (positive : 0 < denominator)
    (significant : Significant units)
    (same : units * denominator = numerator * unitsPerOne) : ofFraction numerator denominator =
      if units < unitsLimit then .finite false units else .infinite false := by
  rw [ofFraction_eq, ← same, roundedUnits_mul_self positive significant]

/-- What is left of significant units when those past the limit become infinite. -/
theorem isDouble_of_significant {units : Nat} (significant : Significant units) :
    (if units < unitsLimit then finite false units else infinite false).IsDouble := by
  apply (Nat.lt_or_ge units unitsLimit).elim
  · intro below
    rw [if_pos below]
    exact .finite _ significant below
  · intro past
    rw [if_neg past.not_gt]
    exact .infinite _

theorem isDouble_ofFraction (numerator denominator : Nat) :
    (ofFraction numerator denominator).IsDouble := by
  rw [ofFraction_eq]
  exact isDouble_of_significant (significant_roundedUnits _ _)

/-! ### Decimals -/

theorem ofFraction_zero (denominator : Nat) (positive : 0 < denominator) :
    ofFraction 0 denominator = zero := by
  rw [ofFraction_of_significant positive (.of_lt (twoTo_pos 53))
    (by rw [Nat.zero_mul, Nat.zero_mul]), if_pos unitsLimit_pos, zero]

private theorem twoTo_le_tenTo : twoTo 1024 ≤ tenTo 309 :=
  calc twoTo (93 * 11 + 1) = twoTo 93 ^ 11 * 2 := by
        rw [twoTo_succ, twoTo_eq, twoTo_eq, Nat.pow_mul]
    _ ≤ tenTo 28 ^ 11 * 10 :=
      Nat.mul_le_mul (Nat.pow_le_pow_left (by decide) 11) (by decide)
    _ = tenTo (28 * 11 + 1) := by
      rw [tenTo_succ (28 * 11), tenTo_eq, tenTo_eq, Nat.pow_mul]

private theorem ofFraction_eq_infinite {numerator : Nat} (large : twoTo 1024 ≤ numerator) :
    ofFraction numerator 1 = .infinite false := by
  have significant : Significant unitsLimit := significant_twoTo 2098
  have least : unitsLimit ≤ roundedUnits (numerator * unitsPerOne) 1 := by
    apply le_roundedUnits Nat.one_pos significant
    rw [Nat.mul_one]
    exact (twoTo_add 1024 1074).trans_le (Nat.mul_le_mul_right _ large)
  rw [ofFraction_eq, if_neg (Nat.not_lt.mpr least)]

private theorem ofFraction_eq_zero {numerator denominator : Nat}
    (small : 2 * (numerator * unitsPerOne) < denominator) :
    ofFraction numerator denominator = zero := by
  rw [ofFraction_eq, roundedUnits_eq_zero small, if_pos unitsLimit_pos, zero]

/-- Where the power of ten is not computed it makes no difference. -/
theorem ofDecimal_eq (coefficient : Nat) (exponent : Int) : ofDecimal coefficient exponent =
    ofFraction (coefficient * tenTo exponent.toNat) (tenTo (-exponent).toNat) := by
  unfold ofDecimal
  split
  case isTrue none =>
    rw [none, Nat.zero_mul, ofFraction_zero _ (tenTo_pos _)]
  case isFalse some =>
    split
    case isTrue large =>
      rw [Int.toNat_of_nonpos (by omega : -exponent ≤ 0), tenTo_zero, ofFraction_eq_infinite]
      calc twoTo 1024 ≤ tenTo 309 := twoTo_le_tenTo
        _ ≤ tenTo exponent.toNat := tenTo_le_tenTo (by omega)
        _ ≤ coefficient * tenTo exponent.toNat :=
          Nat.le_mul_of_pos_left _ (Nat.pos_of_ne_zero some)
    case isFalse =>
      split
      case isTrue small =>
        rw [Int.toNat_of_nonpos (by omega : exponent ≤ 0), tenTo_zero, Nat.mul_one,
          ofFraction_eq_zero]
        have digits := lt_twoTo_log2 coefficient
        calc 2 * (coefficient * unitsPerOne)
            < 2 * (twoTo (coefficient.log2 + 1) * unitsPerOne) :=
              Nat.mul_lt_mul_of_pos_left
                (Nat.mul_lt_mul_of_pos_right digits (twoTo_pos 1074)) (by decide)
          _ = twoTo (coefficient.log2 + 1076) := by
              unfold unitsPerOne
              rw [← twoTo_add, Nat.mul_comm, ← twoTo_succ]
          _ ≤ twoTo (3 * (-exponent).toNat) := twoTo_le_twoTo (by omega)
          _ = 8 ^ (-exponent).toNat := Nat.pow_mul 2 3 _
          _ ≤ tenTo (-exponent).toNat := Nat.pow_le_pow_left (by decide) _
      case isFalse => rfl

end Binary64

/-! ### Exact values -/

/-- What so many units are worth. -/
def worth (units : Nat) : ℚ := units / Binary64.unitsPerOne

/-- The value of fifty-three digits nearest to a number, of two the one whose last digit is
even. -/
structure Nearest (exact : ℚ) (units : Nat) : Prop where
  significant : Significant units
  nearest : ∀ other, Significant other → |worth units - exact| ≤ |worth other - exact|
  even : ∀ other, Significant other → other ≠ units →
    |worth other - exact| = |worth units - exact| → 2 ∣ units / twoTo (Binary64.spacing units)

/-- A double is what an exact number rounds to; past the limit it is infinite. -/
def RoundsTo (exact : ℚ) (number : Binary64) : Prop :=
  ∃ units, Nearest exact units ∧
    number = if units < Binary64.unitsLimit then .finite false units else .infinite false

theorem RoundsTo.isDouble {exact : ℚ} {number : Binary64} (rounded : RoundsTo exact number) :
    number.IsDouble := by
  obtain ⟨units, nearest, same⟩ := rounded
  rw [same]
  exact Binary64.isDouble_of_significant nearest.significant

theorem RoundsTo.nearest {exact : ℚ} {negative : Bool} {units : Nat}
    (rounded : RoundsTo exact (.finite negative units)) : Nearest exact units := by
  obtain ⟨found, nearest, same⟩ := rounded
  apply (Nat.lt_or_ge found Binary64.unitsLimit).elim
  · intro below
    rw [if_pos below, Binary64.finite.injEq] at same
    rw [same.2]
    exact nearest
  · intro past
    rw [if_neg past.not_gt] at same
    cases same

theorem unitsPerOne_pos : 0 < Binary64.unitsPerOne := twoTo_pos 1074

private theorem natCast_dist (first second : Nat) :
    ((first.dist second : Nat) : ℚ) = |(first : ℚ) - second| := by
  rcases Nat.le_total first second with le | le
  · have ordered : (first : ℚ) ≤ second := by exact_mod_cast le
    rw [Nat.dist_eq_sub_of_le le, Nat.cast_sub le, abs_sub_comm, abs_of_nonneg (by linarith)]
  · have ordered : (second : ℚ) ≤ first := by exact_mod_cast le
    rw [Nat.dist_eq_sub_of_le_right le, Nat.cast_sub le, abs_of_nonneg (by linarith)]

/-- Fractions are as far apart as their numerators over one denominator. -/
theorem abs_div_sub_div (first second : Nat) {denominator denominator' : Nat}
    (positive : 0 < denominator) (positive' : 0 < denominator') :
    |(first : ℚ) / denominator - second / denominator'| =
      ((first * denominator').dist (second * denominator) : Nat) / (denominator * denominator') := by
  have whole : (0 : ℚ) < denominator := by exact_mod_cast positive
  have whole' : (0 : ℚ) < denominator' := by exact_mod_cast positive'
  rw [natCast_dist, div_sub_div _ _ whole.ne' whole'.ne', abs_div, abs_of_pos (mul_pos whole whole')]
  push_cast
  rw [mul_comm (denominator : ℚ) second]

section Distances

variable (first second third : Nat) {denominator denominator' : Nat} (positive : 0 < denominator)
  (positive' : 0 < denominator')

include positive positive'

/-- Of two fractions with one denominator that is nearer to a third whose numerator is nearer. -/
theorem abs_div_sub_div_le_iff :
    |(first : ℚ) / denominator - third / denominator'| ≤
        |(second : ℚ) / denominator - third / denominator'| ↔
      (first * denominator').dist (third * denominator) ≤
        (second * denominator').dist (third * denominator) := by
  have common : (0 : ℚ) < denominator * denominator' := by
    exact_mod_cast Nat.mul_pos positive positive'
  rw [abs_div_sub_div _ _ positive positive', abs_div_sub_div _ _ positive positive',
    div_le_div_iff_of_pos_right common, Nat.cast_le]

theorem abs_div_sub_div_eq_iff :
    |(first : ℚ) / denominator - third / denominator'| =
        |(second : ℚ) / denominator - third / denominator'| ↔
      (first * denominator').dist (third * denominator) =
        (second * denominator').dist (third * denominator) := by
  rw [le_antisymm_iff, abs_div_sub_div_le_iff _ _ _ positive positive',
    abs_div_sub_div_le_iff _ _ _ positive positive', ← Nat.le_antisymm_iff]

end Distances

theorem roundsTo_ofFraction (numerator : Nat) {denominator : Nat} (positive : 0 < denominator) :
    RoundsTo (numerator / denominator) (.ofFraction numerator denominator) := by
  refine ⟨_, ⟨Binary64.significant_roundedUnits _ _, ?_, ?_⟩, Binary64.ofFraction_eq _ _⟩
  · intro other significant
    rw [worth, worth, abs_div_sub_div_le_iff _ _ _ unitsPerOne_pos positive]
    exact Binary64.roundedUnits_nearest _ positive significant
  · intro other significant apart tie
    rw [worth, worth, abs_div_sub_div_eq_iff _ _ _ unitsPerOne_pos positive] at tie
    exact Binary64.roundedUnits_even _ positive significant apart tie

/-- A value that a double has is not rounded. -/
theorem roundsTo_worth {units : Nat} (significant : Significant units)
    (below : units < Binary64.unitsLimit) : RoundsTo (worth units) (.finite false units) := by
  have rounded := roundsTo_ofFraction units unitsPerOne_pos
  rwa [Binary64.ofFraction_of_significant unitsPerOne_pos significant rfl, if_pos below] at rounded

theorem mul_zpow_eq_div (coefficient base : Nat) (exponent : Int) :
    (coefficient * base ^ exponent : ℚ) =
      (coefficient * base ^ exponent.toNat : Nat) / (base ^ (-exponent).toNat : Nat) := by
  push_cast
  rcases Int.le_total 0 exponent with up | down
  · rw [Int.toNat_of_nonpos (by omega : -exponent ≤ 0), pow_zero, div_one, ← zpow_natCast,
      Int.toNat_of_nonneg up]
  · rw [Int.toNat_of_nonpos down, pow_zero, mul_one, div_eq_mul_inv, ← zpow_natCast,
      Int.toNat_of_nonneg (by omega : 0 ≤ -exponent), zpow_neg, inv_inv]

theorem roundsTo_ofDecimal (coefficient : Nat) (exponent : Int) :
    RoundsTo (coefficient * 10 ^ exponent) (.ofDecimal coefficient exponent) := by
  have exact := mul_zpow_eq_div coefficient 10 exponent
  rw [Nat.cast_ofNat] at exact
  rw [exact, Binary64.ofDecimal_eq]
  exact roundsTo_ofFraction _ (tenTo_pos _)

theorem roundsTo_scaled (whole : Nat) (power : Int) : RoundsTo (whole * 2 ^ power)
    (.ofFraction (whole * twoTo power.toNat) (twoTo (-power).toNat)) := by
  have exact := mul_zpow_eq_div whole 2 power
  rw [Nat.cast_ofNat] at exact
  rw [exact]
  exact roundsTo_ofFraction _ (twoTo_pos _)

/-! ### No other double -/

section Next

variable {units other : Nat} (significant : Significant units)

include significant

private theorem next_eq : units + twoTo (Binary64.spacing units) =
    (units / twoTo (Binary64.spacing units) + 1) * twoTo (Binary64.spacing units) := by
  rw [Nat.add_one_mul, Nat.div_mul_cancel significant]

private theorem significant_next : Significant (units + twoTo (Binary64.spacing units)) := by
  have short := div_spacing_lt units
  rw [next_eq significant]
  rcases Nat.lt_or_ge (units / twoTo (Binary64.spacing units) + 1) (twoTo 53) with fits | carries
  · exact (Significant.of_lt fits).mul_twoTo _
  · rw [show units / twoTo (Binary64.spacing units) + 1 = twoTo 53 by omega, ← twoTo_add]
    exact significant_twoTo _

theorem next_le (significant' : Significant other) (less : units < other) :
    units + twoTo (Binary64.spacing units) ≤ other := by
  rcases Binary64.dvd_or_lt significant' (Binary64.spacing units) with
    ⟨digits, rfl⟩ | ⟨coarse, below⟩
  · rw [next_eq significant, Nat.mul_comm _ digits]
    apply Nat.mul_le_mul_right
    exact Nat.div_lt_of_lt_mul less
  · have full := (Binary64.full_or_spacing_eq_zero units).resolve_right (by omega)
    rw [Nat.le_div_iff_mul_le (twoTo_pos _), ← twoTo_add] at full
    omega

private theorem next_odd (even : 2 ∣ units / twoTo (Binary64.spacing units)) :
    ¬ 2 ∣ (units + twoTo (Binary64.spacing units)) /
      twoTo (Binary64.spacing (units + twoTo (Binary64.spacing units))) := by
  have short := div_spacing_lt units
  have double := twoTo_53
  have fits : units / twoTo (Binary64.spacing units) + 1 < twoTo 53 := by omega
  have full := Binary64.full_or_spacing_eq_zero units
  have spaced : Binary64.spacing (units + twoTo (Binary64.spacing units)) =
      Binary64.spacing units := by
    rw [next_eq significant]
    generalize Binary64.spacing units = places at *
    rcases full with full | zero
    · exact spacing_eq (by omega) fits
    · subst zero
      rw [twoTo_zero, Nat.mul_one] at *
      exact spacing_eq_zero fits
  rw [spaced, next_eq significant, Nat.mul_div_cancel _ (twoTo_pos _)]
  omega

end Next

theorem worth_lt_worth {units other : Nat} (less : units < other) :
    worth units < worth other := by
  apply div_lt_div_of_pos_right
  · exact_mod_cast less
  · exact_mod_cast unitsPerOne_pos

/-- Of two nearest values, which lie on both sides, the one next to it would be nearer or would
have the same last digit. -/
private theorem Nearest.not_lt {exact : ℚ} {units other : Nat} (first : Nearest exact units)
    (second : Nearest exact other) : ¬ units < other := by
  intro less
  have tie : |worth other - exact| = |worth units - exact| :=
    le_antisymm (second.nearest units first.significant) (first.nearest other second.significant)
  have order := worth_lt_worth less
  have middle : worth units + worth other = 2 * exact := by
    rcases abs_eq_abs.mp tie with same | opposite
    · linarith
    · linarith
  rcases (next_le first.significant second.significant less).lt_or_eq with between | meets
  · have lower : worth units < worth (units + twoTo (Binary64.spacing units)) :=
      worth_lt_worth (Nat.lt_add_of_pos_right (twoTo_pos _))
    have upper := worth_lt_worth between
    have near := first.nearest _ (significant_next first.significant)
    rw [abs_of_nonpos (by linarith : worth units - exact ≤ 0)] at near
    rcases le_abs.mp near with far | far
    · linarith
    · linarith
  · have even := first.even other second.significant less.ne' tie
    have even' := second.even units first.significant less.ne tie.symm
    rw [← meets] at even'
    exact next_odd first.significant even even'

theorem Nearest.unique {exact : ℚ} {units other : Nat} (first : Nearest exact units)
    (second : Nearest exact other) : units = other :=
  Nat.le_antisymm (Nat.le_of_not_lt (second.not_lt first)) (Nat.le_of_not_lt (first.not_lt second))

theorem RoundsTo.unique {exact : ℚ} {number other : Binary64} (first : RoundsTo exact number)
    (second : RoundsTo exact other) : number = other := by
  obtain ⟨units, nearest, same⟩ := first
  obtain ⟨units', nearest', same'⟩ := second
  rw [same, same', nearest.unique nearest']

end ScriptCore.Number
