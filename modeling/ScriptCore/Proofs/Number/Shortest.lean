import Mathlib
import ScriptCore.Proofs.Number.FixedPlaces

set_option autoImplicit false

/-! The shortest text of a number reads back as the number. The decimal that is written lies in the
basin of the number, whichever grid it is found on, and whatever lies in the basin rounds to the
number. So two numbers never share a text. That no shorter text would do is not shown here. -/

namespace ScriptCore.Number

/-- What a decimal is worth. -/
def Decimal.value (decimal : Decimal) : ℚ := decimal.coefficient * 10 ^ decimal.place

namespace Shortest

open Binary64

/-! ### Basins -/

/-- One number is at most another, and less than that where the ends do not belong. -/
def Meets (closed : Bool) (left right : ℚ) : Prop :=
  left ≤ right ∧ (closed = false → left < right)

namespace Meets

variable {closed : Bool} {left right other : ℚ}

theorem of_lt (less : left < right) : Meets closed left right := ⟨less.le, fun _ => less⟩

theorem of_le_left (le : other ≤ left) (meets : Meets closed left right) :
    Meets closed other right :=
  ⟨le.trans meets.1, fun opened => le.trans_lt (meets.2 opened)⟩

theorem of_le_right (meets : Meets closed left right) (le : right ≤ other) :
    Meets closed left other :=
  ⟨meets.1.trans le, fun opened => (meets.2 opened).trans_le le⟩

theorem of_mul {factor : ℚ} (positive : 0 < factor)
    (meets : Meets closed (factor * left) (factor * right)) : Meets closed left right :=
  ⟨le_of_mul_le_mul_left meets.1 positive,
    fun opened => lt_of_mul_lt_mul_left (meets.2 opened) positive.le⟩

end Meets

theorem reaches_iff {closed : Bool} {left right : Nat} :
    reaches closed left right = true ↔ Meets closed left right := by
  cases closed with
  | true => simp [reaches, Meets]
  | false => simpa [reaches, Meets] using le_of_lt

theorem reaches_of_lt {closed : Bool} {left right : Nat} (less : left < right) :
    reaches closed left right = true := reaches_iff.mpr (.of_lt (by exact_mod_cast less))

/-- A number that lies between the ends of a basin. -/
structure Basin.Contains (area : Basin) (exact : ℚ) : Prop where
  low : Meets area.closed area.low (4 * unitsPerOne * exact)
  high : Meets area.closed (4 * unitsPerOne * exact) area.high

/-- A centre that lies between the ends. -/
structure Basin.Proper (area : Basin) : Prop where
  low_lt : area.low < area.centre
  lt_high : area.centre < area.high

theorem Basin.Proper.contains_centre {area : Basin} (proper : area.Proper) {exact : ℚ}
    (centre : 4 * unitsPerOne * exact = area.centre) : area.Contains exact := by
  constructor
  · rw [centre]
    exact .of_lt (by exact_mod_cast proper.low_lt)
  · rw [centre]
    exact .of_lt (by exact_mod_cast proper.lt_high)

/-! ### Points of a grid -/

theorem quarters_value (coefficient : Nat) (place : Int) :
    4 * unitsPerOne * (⟨coefficient, place⟩ : Decimal).value =
      (coefficient * (4 * unitsPerOne * tenTo place.toNat) : Nat) /
        (tenTo (-place).toNat : Nat) := by
  have power := mul_zpow_eq_div coefficient 10 place
  rw [Nat.cast_ofNat] at power
  rw [Decimal.value, power, mul_div_assoc', tenTo_eq, tenTo_eq]
  push_cast
  ring

section Grid

variable {area : Basin} {place : Int} {coefficient : Nat}

theorem contains_of_le
    (low : reaches area.closed (area.low * tenTo (-place).toNat)
      (coefficient * (4 * unitsPerOne * tenTo place.toNat)) = true)
    (high : reaches area.closed (coefficient * (4 * unitsPerOne * tenTo place.toNat))
      (area.high * tenTo (-place).toNat) = true) :
    area.Contains (⟨coefficient, place⟩ : Decimal).value := by
  have scale : (0 : ℚ) < tenTo (-place).toNat := by exact_mod_cast tenTo_pos _
  rw [reaches_iff, Nat.cast_mul area.low] at low
  rw [reaches_iff, Nat.cast_mul area.high] at high
  constructor
  · rw [quarters_value, Meets, le_div_iff₀ scale, lt_div_iff₀ scale]
    exact low
  · rw [quarters_value, Meets, div_le_iff₀ scale, div_lt_iff₀ scale]
    exact high

/-- The points on both sides of the centre are the only ones that are looked at. -/
theorem contains_of_nearestPoint? (proper : area.Proper) {decimal : Decimal}
    (found : nearestPoint? area place = some decimal) : area.Contains decimal.value := by
  have scale := tenTo_pos (-place).toNat
  have step : 0 < 4 * unitsPerOne * tenTo place.toNat :=
    Nat.mul_pos (Nat.mul_pos (by decide) unitsPerOne_pos) (tenTo_pos _)
  have division := Nat.div_add_mod' (area.centre * tenTo (-place).toNat)
    (4 * unitsPerOne * tenTo place.toNat)
  have rest := Nat.mod_lt (area.centre * tenTo (-place).toNat) step
  have lower := Nat.mul_lt_mul_of_pos_right proper.low_lt scale
  have upper := Nat.mul_lt_mul_of_pos_right proper.lt_high scale
  unfold nearestPoint? at found
  dsimp only at found
  split at found
  case isTrue below =>
    cases found
    rw [Bool.and_eq_true] at below
    exact contains_of_le below.1 (reaches_of_lt (by omega))
  case isFalse =>
    split at found
    case isTrue above =>
      cases found
      refine contains_of_le (reaches_of_lt ?_) above
      rw [Nat.add_one_mul]
      omega
    case isFalse => cases found

end Grid

/-! ### The search -/

theorem twoTo_dvd_tenTo (exponent : Nat) : twoTo exponent ∣ tenTo exponent :=
  pow_dvd_pow_of_dvd (by decide : 2 ∣ 10) exponent

/-- On the last grid a whole number of units is a point. -/
theorem quarters_last (units : Nat) {place : Int} (last : (-place).toNat = 1074)
    (below : place ≤ 0) :
    4 * unitsPerOne * (⟨4 * units * tenTo (-place).toNat / (4 * unitsPerOne), place⟩ :
      Decimal).value = (4 * units : Nat) := by
  have whole : 4 * unitsPerOne ∣ 4 * units * tenTo (-place).toNat := by
    rw [last]
    exact Nat.mul_dvd_mul (Nat.dvd_mul_right 4 units) (twoTo_dvd_tenTo 1074)
  have scale : (tenTo (-place).toNat : ℚ) ≠ 0 := by exact_mod_cast (tenTo_pos _).ne'
  rw [quarters_value, Int.toNat_of_nonpos below, tenTo_zero, Nat.mul_one, Nat.div_mul_cancel whole,
    Nat.cast_mul, mul_div_cancel_right₀ _ scale]

theorem contains_search {area : Basin} (proper : area.Proper) {units : Nat}
    (centre : area.centre = 4 * units) (grids : Nat) (place : Int)
    (last : place - grids = -1074) : area.Contains (search area grids place).value := by
  -- The grid of place `-1074` is where the search ends at the latest, and there the centre itself is
  -- a point. On any grid before it an answer is a point of the basin already.
  induction grids generalizing place with
  | zero =>
      have final : (-place).toNat = 1074 := by omega
      rw [search, centre]
      apply proper.contains_centre
      rw [centre]
      exact quarters_last units final (by omega)
  | succ grids ih =>
      rw [search]
      cases found : nearestPoint? area place with
      | some decimal => exact contains_of_nearestPoint? proper found
      | none => exact ih (place - 1) (by omega)

/-! ### What lies in the basin of a double -/

/-- Twice the way from a value down to the one below it. -/
def gapBelow (units : Nat) : Nat :=
  if units = twoTo (spacing units + 52) ∧ 0 < spacing units then twoTo (spacing units)
  else 2 * twoTo (spacing units)

theorem basin_eq (units : Nat) : basin units = ⟨4 * units - gapBelow units, 4 * units,
    4 * units + 2 * twoTo (spacing units), units / twoTo (spacing units) % 2 == 0⟩ := rfl

theorem gapBelow_pos (units : Nat) : 0 < gapBelow units := by
  have gap := twoTo_pos (spacing units)
  unfold gapBelow
  split
  · exact gap
  · omega

theorem twoTo_dvd_of_lt {places first second : Nat} (dvd : twoTo places ∣ first)
    (dvd' : twoTo places ∣ second) (less : first < second) : first + twoTo places ≤ second := by
  obtain ⟨digits, rfl⟩ := dvd
  obtain ⟨digits', rfl⟩ := dvd'
  rw [← Nat.mul_add_one]
  exact Nat.mul_le_mul_left _ (Nat.lt_of_mul_lt_mul_left less)

/-- Below a power of two the next value is half as far away. -/
theorem add_gapBelow_le {units other : Nat} (significant : Significant units)
    (significant' : Significant other) (less : other < units) :
    2 * other + gapBelow units ≤ 2 * units := by
  rcases dvd_or_lt significant' (spacing units) with grid | ⟨coarse, below⟩
  · have next := twoTo_dvd_of_lt grid significant less
    have most : gapBelow units ≤ 2 * twoTo (spacing units) := by
      unfold gapBelow
      split
      · omega
      · exact le_rfl
    omega
  · have full := (full_or_spacing_eq_zero units).resolve_right coarse.ne'
    rw [Nat.le_div_iff_mul_le (twoTo_pos _), ← twoTo_add, Nat.add_comm] at full
    rw [Nat.add_comm] at below
    -- Values below a power of two are spaced half as wide, which is what its smaller gap is for.
    -- Above the power, the power itself stands between `other` and `units`.
    by_cases power : units = twoTo (spacing units + 52)
    · obtain ⟨finer, spaced⟩ := Nat.exists_eq_add_one_of_ne_zero coarse.ne'
      have gap : gapBelow units = twoTo finer * 2 := by
        rw [gapBelow, if_pos ⟨power, coarse⟩, spaced, twoTo_succ]
      have next : other + twoTo finer ≤ units := by
        rcases dvd_or_lt significant' finer with grid | ⟨_, least⟩
        · refine twoTo_dvd_of_lt grid ?_ less
          exact (Nat.pow_dvd_pow 2 (by omega)).trans significant
        · have double : twoTo (52 + finer) * 2 = twoTo (spacing units + 52) := by
            rw [← twoTo_succ, spaced]
            congr 1
            omega
          have small := twoTo_le_twoTo (by omega : finer ≤ 52 + finer)
          omega
      omega
    · have gap : gapBelow units = 2 * twoTo (spacing units) := by
        rw [gapBelow, if_neg fun both => power both.1]
      have next := twoTo_dvd_of_lt (Nat.pow_dvd_pow 2 (Nat.le_add_right _ 52)) significant
        (lt_of_le_of_ne full (Ne.symm power))
      change twoTo (spacing units + 52) + twoTo (spacing units) ≤ units at next
      omega

theorem gapBelow_le {units : Nat} (significant : Significant units) (some : 0 < units) :
    gapBelow units ≤ 2 * units := by
  have zero := add_gapBelow_le significant (.of_lt (twoTo_pos 53)) some
  omega

theorem proper_basin {units : Nat} (significant : Significant units) (some : 0 < units) :
    (basin units).Proper := by
  have gap := gapBelow_pos units
  have gap' := twoTo_pos (spacing units)
  have most := gapBelow_le significant some
  rw [basin_eq]
  constructor
  · change 4 * units - gapBelow units < 4 * units
    omega
  · change 4 * units < 4 * units + 2 * twoTo (spacing units)
    omega

/-! ### Nearness -/

section Middle

variable {closed : Bool} {lower upper exact : ℚ} (less : lower < upper)

include less

theorem Meets.nearer_upper (middle : Meets closed (lower + upper) (2 * exact)) :
    Meets closed |upper - exact| |lower - exact| := by
  have far : exact - lower ≤ |lower - exact| := by
    rw [abs_sub_comm]
    exact le_abs_self _
  obtain ⟨least, strict⟩ := middle
  constructor
  · exact (abs_le.mpr ⟨by linarith, by linarith⟩).trans far
  · intro opened
    have above := strict opened
    exact (abs_lt.mpr ⟨by linarith, by linarith⟩).trans_le far

theorem Meets.nearer_lower (middle : Meets closed (2 * exact) (lower + upper)) :
    Meets closed |lower - exact| |upper - exact| := by
  have far : upper - exact ≤ |upper - exact| := le_abs_self _
  obtain ⟨most, strict⟩ := middle
  constructor
  · exact (abs_le.mpr ⟨by linarith, by linarith⟩).trans far
  · intro opened
    have below := strict opened
    exact (abs_lt.mpr ⟨by linarith, by linarith⟩).trans_le far

end Middle

theorem worth_add_worth (units other : Nat) :
    2 * unitsPerOne * (worth other + worth units) = (2 * (other + units) : Nat) := by
  have one : (unitsPerOne : ℚ) ≠ 0 := by exact_mod_cast unitsPerOne_pos.ne'
  rw [worth, worth, ← add_div, mul_div_assoc', mul_right_comm, mul_div_cancel_right₀ _ one]
  push_cast
  rfl

section Contained

variable {units : Nat} (significant : Significant units) {exact : ℚ}
  (contained : (basin units).Contains exact)

include significant contained

/-- The ends of the basin are no further away than half way to the next values. -/
theorem nearer_of_contains {other : Nat} (significant' : Significant other)
    (apart : other ≠ units) :
    Meets (basin units).closed |worth units - exact| |worth other - exact| := by
  have factor : (0 : ℚ) < 2 * unitsPerOne := by
    exact_mod_cast Nat.mul_pos (by decide) unitsPerOne_pos
  have double : 2 * unitsPerOne * (2 * exact) = 4 * unitsPerOne * exact := by ring
  rcases Nat.lt_or_gt_of_ne apart with less | more
  · have below := add_gapBelow_le significant significant' less
    have least : 2 * (other + units) ≤ (basin units).low := by
      change 2 * (other + units) ≤ 4 * units - gapBelow units
      omega
    apply Meets.nearer_upper (worth_lt_worth less)
    apply Meets.of_mul factor
    rw [worth_add_worth, double]
    exact contained.low.of_le_left (by exact_mod_cast least)
  · have above := next_le significant significant' more
    have most : (basin units).high ≤ 2 * (other + units) := by
      change 4 * units + 2 * twoTo (spacing units) ≤ 2 * (other + units)
      omega
    apply Meets.nearer_lower (worth_lt_worth more)
    apply Meets.of_mul factor
    rw [add_comm, worth_add_worth, double]
    exact contained.high.of_le_right (by exact_mod_cast most)

theorem nearest_of_contains : Nearest exact units := by
  refine ⟨significant, ?_, ?_⟩
  · intro other significant'
    by_cases same : other = units
    · rw [same]
    · exact (nearer_of_contains significant contained significant' same).1
  · intro other significant' apart tie
    have nearer := nearer_of_contains significant contained significant' apart
    rw [basin_eq] at nearer
    cases even : units / twoTo (spacing units) % 2 == 0 with
    | false => exact absurd tie (nearer.2 even).ne'
    | true => exact Nat.dvd_of_mod_eq_zero (beq_iff_eq.mp even)

end Contained

end Shortest

open Reading

theorem roundsTo_shortest {units : Nat} (significant : Significant units)
    (below : units < Binary64.unitsLimit) :
    RoundsTo (shortest units).value (.finite false units) := by
  by_cases zero : units = 0
  · have value : (shortest units).value = worth units := by
      rw [zero, shortest, if_pos rfl, Decimal.value, worth, Nat.cast_zero, zero_mul, zero_div]
    rw [value]
    exact roundsTo_worth significant below
  · have positive := Nat.pos_of_ne_zero zero
    rw [shortest, if_neg zero]
    refine ⟨units, Shortest.nearest_of_contains significant ?_, (if_pos below).symm⟩
    exact Shortest.contains_search (Shortest.proper_basin significant positive) rfl _ _
      (by push_cast; ring)

/-! ### The text -/

/-- A decimal without an exponent is written with all its digits. -/
theorem exists_mantissa_positional (decimal : Decimal) : ∃ digits : Digits,
    Base.ten.Mantissa (Numeral.positional false decimal) digits ∧
      (Nat.ofDigitChars 10 (digits.whole ++ digits.fraction) 0 : ℚ) *
        10 ^ (-(digits.fraction.length : Int)) = decimal.value := by
  by_cases whole : (-decimal.place).toNat = 0
  · have text : Numeral.positional false decimal =
        Nat.toDigits 10 decimal.coefficient ++ List.replicate decimal.place.toNat '0' := by
      rw [Numeral.positional, if_pos whole, if_neg Bool.false_ne_true, List.append_nil]
    rw [text]
    refine ⟨⟨Nat.toDigits 10 decimal.coefficient ++ List.replicate decimal.place.toNat '0', []⟩,
      ?_, ?_⟩
    · refine .whole ?_ ?_
      · exact List.append_ne_nil_of_left_ne_nil Nat.toDigits_ne_nil _
      · intro char member
        rcases List.mem_append.mp member with digit | zero
        · exact Nat.isDigit_of_mem_toDigits (by decide) le_rfl digit
        · rw [(List.mem_replicate.mp zero).2]
          rfl
    · have power : (10 : ℚ) ^ decimal.place = 10 ^ decimal.place.toNat := by
        rw [← zpow_natCast, Int.toNat_of_nonneg (by omega)]
      rw [List.append_nil, Nat.ofDigitChars_append, Nat.ofDigitChars_ten_toDigits,
        Nat.ofDigitChars_replicate_zero, List.length_nil, Decimal.value, power]
      push_cast
      ring
  · have text : Numeral.positional false decimal =
        wholeDigits (-decimal.place).toNat decimal.coefficient ++
          '.' :: fractionDigits (-decimal.place).toNat decimal.coefficient := by
      rw [Numeral.positional, if_neg whole]
      rfl
    have place : -((-decimal.place).toNat : Int) = decimal.place := by omega
    refine ⟨_, text ▸ mantissa_wholeDigits_append _ _, ?_⟩
    rw [ofDigitChars_wholeDigits_append, length_fractionDigits, place, Decimal.value]

theorem write_plain_finite (negative : Bool) (units : Nat) : write .plain (.finite negative units) =
    Numeral.sign negative ++ Numeral.positional false (shortest units) := rfl

/-- The shortest text of a double is read to its end, as the double. -/
theorem read_write_plain {value : Binary64} (double : value.IsDouble) :
    read (write .plain value) = value := by
  cases double with
  | nan => rfl
  | infinite negative =>
      cases negative with
      | true => rfl
      | false => rfl
  | @finite negative units significant below =>
      obtain ⟨digits, written, exact⟩ := exists_mantissa_positional (shortest units)
      obtain ⟨magnitude, selected, rounded⟩ := selected_self_of_mantissa written
      rw [exact] at rounded
      have found := rounded.unique (roundsTo_shortest significant below)
      have reads := reads_iff.mp (.selected (parted_of_mantissa written negative) selected)
      rw [write_plain_finite, ← reads, found]
      cases negative with
      | true => rfl
      | false => rfl

/-! ### The characters -/

/-- The characters that numbers are written with. -/
def isPart (char : Char) : Bool :=
  char.isDigit || ['-', '.', 'i', 'n', 'f', 'N', 'a'].contains char

private theorem isPart_of_digit_or_point {char : Char}
    (found : char.isDigit = true ∨ char = '.') : isPart char = true := by
  rcases found with digit | rfl
  · rw [isPart, digit, Bool.true_or]
  · rfl

theorem isPart_of_mem_write (value : Binary64) :
    ∀ char, char ∈ write .plain value → isPart char = true := by
  cases value with
  | nan => exact List.all_eq_true.mp rfl
  | infinite negative =>
      cases negative with
      | true => exact List.all_eq_true.mp rfl
      | false => exact List.all_eq_true.mp rfl
  | finite negative units =>
      obtain ⟨digits, written, _⟩ := exists_mantissa_positional (shortest units)
      intro char member
      rw [write_plain_finite] at member
      rcases List.mem_append.mp member with sign | digit
      · cases negative with
        | true =>
            rw [List.mem_singleton.mp sign]
            rfl
        | false => exact absurd sign List.not_mem_nil
      · exact isPart_of_digit_or_point (digit_or_point written digit)

/-- No number is written with an `n` in front. -/
theorem head_write_plain (value : Binary64) : ∃ first rest,
    write .plain value = first :: rest ∧ isPart first = true ∧ first ≠ 'n' := by
  cases value with
  | nan => exact ⟨'N', ['a', 'N'], rfl, rfl, by decide⟩
  | infinite negative =>
      cases negative with
      | true => exact ⟨'-', ['i', 'n', 'f'], rfl, rfl, by decide⟩
      | false => exact ⟨'i', ['n', 'f'], rfl, rfl, by decide⟩
  | finite negative units =>
      rw [write_plain_finite]
      cases negative with
      | true => exact ⟨'-', _, rfl, rfl, by decide⟩
      | false =>
          obtain ⟨digits, written, _⟩ := exists_mantissa_positional (shortest units)
          obtain ⟨first, rest, text, found⟩ := head_of_mantissa written
          refine ⟨first, rest, text, isPart_of_digit_or_point found, ?_⟩
          rintro rfl
          exact absurd found (by decide)

/-- No two numbers have the same text. -/
theorem write_plain_injective {first second : Float}
    (same : write .plain (.ofFloat first) = write .plain (.ofFloat second)) : first = second := by
  have value : Binary64.ofFloat first = Binary64.ofFloat second := by
    rw [← read_write_plain (Binary64.isDouble_ofFloat first), same,
      read_write_plain (Binary64.isDouble_ofFloat second)]
  rw [← Binary64.toFloat_ofFloat first, value, Binary64.toFloat_ofFloat]

end ScriptCore.Number
