import Mathlib
import ScriptCore.Proofs.Number.Beginnings

set_option autoImplicit false

/-! Hexadecimal numerals whose value some double has. The digits lose nothing, but the power of
two is made by itself: where it is not a double of its own the value is lost with it. -/

namespace ScriptCore.Number

namespace Reading

/-! ### The digits -/

/-- The number that hexadecimal digits stand for. -/
def hexNumber (digits : List Char) : Nat :=
  digits.foldl (fun value digit => 16 * value + hexDigitValue digit) 0

theorem hexNumber_append (digits : List Char) (last : Char) :
    hexNumber (digits ++ [last]) = 16 * hexNumber digits + hexDigitValue last := by
  rw [hexNumber, List.foldl_append]
  rfl

theorem hexMantissa_append (digits : List Char) (last : Char) :
    hexMantissa (digits ++ [last]) =
      Binary64.roundWhole (16 * hexMantissa digits + hexDigitValue last) := by
  rw [hexMantissa, List.foldl_append]
  rfl

theorem hexDigitValue_lt {char : Char} (digit : isHexDigit char = true) :
    hexDigitValue char < 16 := by
  have range := toNat_of_isHexDigit digit
  unfold hexDigitValue
  split
  case isTrue decimal =>
    rw [Char.isDigit, Bool.and_eq_true, decide_eq_true_eq, decide_eq_true_eq] at decimal
    have last : char.toNat ≤ 57 := UInt32.le_iff_toNat_le.mp decimal.2
    change char.toNat - 48 < 16
    omega
  case isFalse =>
    split
    case isTrue small =>
      have first : 97 ≤ char.toNat := UInt32.le_iff_toNat_le.mp small
      change char.toNat - 97 + 10 < 16
      omega
    case isFalse large =>
      have below : char.toNat < 97 := Nat.lt_of_not_le fun le => large (UInt32.le_iff_toNat_le.mpr le)
      change char.toNat - 65 + 10 < 16
      omega

theorem roundWhole_of_significant {number : Nat} (significant : Significant number) :
    Binary64.roundWhole number = number := by
  have exact := Binary64.roundedUnits_mul_self Nat.one_pos significant
  rwa [Nat.mul_one, ← Binary64.roundWhole_eq] at exact

/-- The leading digits of a number of fifty-three binary digits are one themselves. -/
theorem hexMantissa_eq {digits : List Char}
    (hexadecimal : ∀ char, char ∈ digits → isHexDigit char = true)
    (significant : Significant (hexNumber digits)) : hexMantissa digits = hexNumber digits := by
  induction digits using List.reverseRecOn with
  | nil => rfl
  | append_singleton digits last inductionHypothesis =>
      have small := hexDigitValue_lt (hexadecimal last (List.mem_append_right _ (List.mem_cons_self ..)))
      have leading : Significant (hexNumber digits) := by
        have cut := significant.div_twoTo 4
        rwa [hexNumber_append, show twoTo 4 = 16 from rfl,
          show (16 * hexNumber digits + hexDigitValue last) / 16 = hexNumber digits by omega] at cut
      rw [hexMantissa_append,
        inductionHypothesis (fun char member => hexadecimal char (List.mem_append_left _ member))
          leading, ← hexNumber_append, roundWhole_of_significant significant]

/-! ### The power of two -/

section Scale

variable {whole : Nat} {power : Int}

theorem scaleWhole_of_le (large : 1024 ≤ power) :
    scaleWhole whole power = if whole = 0 then .nan else .infinite false := by
  rw [scaleWhole, if_pos large]

theorem scaleWhole_of_le_neg (small : power ≤ -1024) :
    scaleWhole whole power = if whole < twoTo 1024 then .zero else .nan := by
  rw [scaleWhole, if_neg (by omega), if_pos small]

theorem scaleWhole_between (least : -1024 < power) (most : power < 1024) :
    scaleWhole whole power =
      if whole < twoTo 1024 then
        .ofFraction (whole * twoTo power.toNat) (twoTo (-power).toNat)
      else .infinite false := by
  rw [scaleWhole, if_neg (by omega), if_neg (by omega)]

end Scale

end Reading

/-! ### Values that some double has -/

private theorem cast_twoTo (places : Nat) : (twoTo places : ℚ) = 2 ^ (places : Int) := by
  rw [twoTo_eq, zpow_natCast]
  push_cast
  rfl

private theorem worth_eq (units : Nat) : worth units = units * 2 ^ (-1074 : Int) := by
  rw [worth, Binary64.unitsPerOne, cast_twoTo, zpow_neg, div_eq_mul_inv, Nat.cast_ofNat]

/-- A number whose product with a power of two has few digits has few digits itself. -/
theorem significant_of_worth {units whole : Nat} {power : Int} (significant : Significant units)
    (exact : worth units = whole * 2 ^ power) : Significant whole := by
  have same : (units : ℚ) = whole * 2 ^ (power + 1074) := by
    rw [zpow_add₀ two_ne_zero, ← mul_assoc, ← exact, worth_eq, mul_assoc,
      ← zpow_add₀ two_ne_zero, neg_add_cancel, zpow_zero, mul_one]
  rcases Int.le_total 0 (power + 1074) with up | down
  · obtain ⟨places, shift⟩ := Int.eq_ofNat_of_zero_le up
    rw [shift, zpow_natCast] at same
    have product : units = whole * twoTo places := by
      rw [twoTo_eq]
      exact_mod_cast same
    rw [product] at significant
    exact significant.of_mul_twoTo
  · obtain ⟨places, shift⟩ := Int.eq_ofNat_of_zero_le (Int.neg_nonneg_of_nonpos down)
    rw [← neg_neg (power + 1074), shift, zpow_neg, zpow_natCast, ← div_eq_mul_inv,
      eq_div_iff (pow_ne_zero places two_ne_zero)] at same
    have product : units * twoTo places = whole := by
      rw [twoTo_eq]
      exact_mod_cast same
    rw [← product]
    exact significant.mul_twoTo places

theorem worth_eq_zero {units : Nat} : worth units = 0 ↔ units = 0 := by
  have one : (Binary64.unitsPerOne : ℚ) ≠ 0 := by exact_mod_cast unitsPerOne_pos.ne'
  rw [worth, div_eq_zero_iff, or_iff_left one, Nat.cast_eq_zero]

private theorem worth_mul_twoTo (units places : Nat) :
    worth (units * twoTo places) = worth units * 2 ^ (places : Int) := by
  rw [worth_eq, worth_eq, Nat.cast_mul, cast_twoTo]
  ring

section Shift

variable {units : Nat} {shift : Int} (some : units ≠ 0)
  (nearest : Nearest (worth units * 2 ^ shift) units)

include some

private theorem worth_pos : 0 < worth units :=
  lt_of_le_of_ne (div_nonneg (Nat.cast_nonneg _) (Nat.cast_nonneg _))
    fun zero => some (worth_eq_zero.mp zero.symm)

include nearest

/-- What is the value of a double is not rounded. -/
private theorem shift_eq_zero_of_worth {other : Nat} (significant : Significant other)
    (same : worth other = worth units * 2 ^ shift) : shift = 0 := by
  have near := nearest.nearest other significant
  rwa [same, sub_self, abs_zero, abs_nonpos_iff, sub_eq_zero, eq_comm,
    mul_eq_left₀ (worth_pos some).ne', zpow_eq_one_iff_right₀ zero_le_two (by norm_num)] at near

/-- Zero is as near to the half of a value as the value is, and its last digit is even. -/
private theorem exists_half (down : shift < 0) : ∃ lower,
    units = lower * twoTo 1 ∧ worth lower = worth units * 2 ^ shift := by
  have half : 2 * (worth units * 2 ^ shift) ≤ worth units := by
    have power : (2 : ℚ) ^ shift ≤ 2 ^ (-1 : Int) := zpow_le_zpow_right₀ one_le_two (by omega)
    have positive := worth_pos some
    rw [zpow_neg_one] at power
    nlinarith
  have scaled : 0 < worth units * 2 ^ shift := mul_pos (worth_pos some) (zpow_pos two_pos shift)
  have left : |worth units - worth units * 2 ^ shift| = worth units - worth units * 2 ^ shift :=
    abs_of_nonneg (by linarith)
  have right : |worth 0 - worth units * 2 ^ shift| = worth units * 2 ^ shift := by
    rw [worth_eq_zero.mpr rfl, zero_sub, abs_neg, abs_of_pos scaled]
  have small : Significant 0 := .of_lt (twoTo_pos 53)
  have near := nearest.nearest 0 small
  rw [left, right] at near
  obtain ⟨digits, twice⟩ := nearest.even 0 small some.symm (by rw [left, right]; linarith)
  have whole := Nat.div_mul_cancel nearest.significant
  rw [twice, Nat.mul_comm 2, Nat.mul_right_comm] at whole
  refine ⟨_, whole.symm, ?_⟩
  generalize digits * twoTo (Binary64.spacing units) = lower at whole
  have double := worth_mul_twoTo lower 1
  rw [show lower * twoTo 1 = units from whole, Nat.cast_one, zpow_one] at double
  linarith

/-- A value is not what twice or half of it, or anything further from it, is rounded to. -/
theorem Nearest.shift_eq_zero : shift = 0 := by
  rcases lt_or_ge shift 0 with down | up
  · obtain ⟨lower, split, same⟩ := exists_half some nearest down
    have significant : Significant lower := (split ▸ nearest.significant).of_mul_twoTo
    exact shift_eq_zero_of_worth some nearest significant same
  · obtain ⟨places, shifted⟩ := Int.eq_ofNat_of_zero_le up
    have same : worth (units * twoTo places) = worth units * 2 ^ shift := by
      rw [worth_mul_twoTo, shifted]
    exact shift_eq_zero_of_worth some nearest (nearest.significant.mul_twoTo places) same

end Shift

/-! ### Both together -/

namespace Reading

section Exact

variable {whole units : Nat} (power : Int) {exponent : Int} (significant : Significant units)
  (below : units < Binary64.unitsLimit) (exact : worth units = whole * 2 ^ exponent)

include exact in
private theorem whole_eq_zero_iff : whole = 0 ↔ units = 0 := by
  have power : (2 ^ exponent : ℚ) ≠ 0 := zpow_ne_zero exponent two_ne_zero
  have value : worth units = 0 ↔ whole = 0 := by
    rw [exact, mul_eq_zero, or_iff_left power, Nat.cast_eq_zero]
  rw [← value, worth_eq_zero]

include significant below exact in
private theorem ofFraction_eq_finite_iff :
    Binary64.ofFraction (whole * twoTo power.toNat) (twoTo (-power).toNat) = .finite false units ↔
      (whole ≠ 0 → power = exponent) := by
  have rounded := roundsTo_scaled whole power
  have value := roundsTo_worth significant below
  constructor
  · intro same some
    rw [same] at rounded
    have shifted : (whole * 2 ^ power : ℚ) = worth units * 2 ^ (power - exponent) := by
      rw [exact, mul_assoc, ← zpow_add₀ two_ne_zero, add_sub_cancel]
    rw [shifted] at rounded
    have none := Nearest.shift_eq_zero (mt (whole_eq_zero_iff exact).mpr some) rounded.nearest
    omega
  · intro same
    by_cases zero : whole = 0
    · rw [zero, Nat.zero_mul, Binary64.ofFraction_zero _ (twoTo_pos _),
        (whole_eq_zero_iff exact).mp zero, Binary64.zero]
    · rw [same zero, ← exact] at rounded
      rw [same zero]
      exact rounded.unique value

include significant below exact in
private theorem scaleWhole_between_eq_finite_iff (least : -1024 < power) (most : power < 1024) :
    scaleWhole whole power = .finite false units ↔
      (whole ≠ 0 → power = exponent ∧ whole < twoTo 1024) := by
  have product := ofFraction_eq_finite_iff power significant below exact
  have limit := twoTo_pos 1024
  rw [scaleWhole_between least most]
  generalize twoTo 1024 = bound at *
  split
  case isTrue fits =>
    rw [product]
    exact ⟨fun same some => ⟨same some, fits⟩, fun both some => (both some).1⟩
  case isFalse wide =>
    constructor
    · intro impossible
      cases impossible
    · exact fun both => absurd (both (by omega)).2 wide

include exact in
private theorem scaleWhole_of_le_neg_eq_finite_iff (small : power ≤ -1024) :
    scaleWhole whole power = .finite false units ↔ whole = 0 := by
  have zero := whole_eq_zero_iff exact
  have limit := twoTo_pos 1024
  rw [scaleWhole_of_le_neg small]
  generalize twoTo 1024 = bound at *
  split
  case isTrue fits =>
    rw [Binary64.zero, Binary64.finite.injEq, eq_self_iff_true, true_and, eq_comm, ← zero]
  case isFalse wide =>
    constructor
    · intro impossible
      cases impossible
    · intro none
      omega

include significant below exact in
/-- The value is found exactly if the power of two is neither too large nor too small for a
double, and neither are the digits. -/
theorem scaleWhole_eq_finite_iff : scaleWhole whole power = .finite false units ↔
    power < 1024 ∧
      (whole ≠ 0 → power = exponent ∧ -1024 < exponent ∧ whole < twoTo 1024) := by
  rcases lt_or_ge power 1024 with most | large
  · rcases lt_or_ge (-1024) power with least | small
    · rw [scaleWhole_between_eq_finite_iff power significant below exact least most]
      constructor
      · intro found
        exact ⟨most, fun some => ⟨(found some).1, (found some).1 ▸ least, (found some).2⟩⟩
      · exact fun both some => ⟨(both.2 some).1, (both.2 some).2.2⟩
    · rw [scaleWhole_of_le_neg_eq_finite_iff power exact small]
      constructor
      · exact fun none => ⟨most, fun some => absurd none some⟩
      · intro both
        by_contra some
        obtain ⟨same, least, _⟩ := both.2 some
        omega
  · rw [scaleWhole_of_le large]
    constructor
    · intro impossible
      split at impossible
      · cases impossible
      · cases impossible
    · exact fun both => absurd both.1 (not_lt_of_ge large)

end Exact

/-- The digits of a numeral. -/
private theorem isHexDigit_of_numeral {text : List Char} {digits : Digits} {exponent : Int}
    (numeral : Base.sixteen.Numeral text digits exponent) (char : Char)
    (member : char ∈ digits.whole ++ digits.fraction) : isHexDigit char = true := by
  cases numeral with
  | intro first later =>
      cases first with
      | whole _ digits =>
          rw [List.append_nil] at member
          exact digits char member
      | point _ before behind =>
          exact (List.mem_append.mp member).elim (before char) (behind char)

/-- The power is the exponent less four for each digit behind the point, unless one of them runs
against the end of its range. -/
theorem heldPower_eq {fractionDigits : Nat} {exponent : Int}
    (short : 4 * (fractionDigits : Int) ≤ lastExponent + 1)
    (least : -lastExponent ≤ exponent) (most : exponent ≤ lastExponent)
    (sum : -lastExponent - 1 ≤ exponent - 4 * fractionDigits) :
    heldPower fractionDigits exponent = exponent - 4 * fractionDigits := by
  unfold heldPower
  dsimp only
  omega

section Whole

variable {mark : Char} {body : List Char} {digits : Digits} {exponent : Int}
  (marked : mark = 'x' ∨ mark = 'X') (numeral : Base.sixteen.Numeral body digits exponent)

include marked numeral in
theorem hexadecimal?_of_numeral : hexadecimal? ('0' :: mark :: body) =
    some (scaleWhole (hexMantissa (digits.whole ++ digits.fraction))
      (heldPower digits.fraction.length exponent)) := by
  obtain ⟨scale, split, scaled⟩ := Base.splitDigits?_of_numeral numeral
  have read := hexadecimal?_of_digits marked split
  rw [show splitExponent ['p', 'P'] scale = (exponent, []) from scaled] at read
  exact read

include marked numeral in
/-- A hexadecimal text whose value some double has is read as this double exactly if the power
of two that its exponent asks for is below `2 ^ 1024`, and, unless the value is zero, was not cut
to its range, is above `2 ^ -1024`, and stands behind digits that are below `2 ^ 1024`. -/
theorem hexadecimal?_exact_iff {number : Float} {units : Nat}
    (finite : Binary64.ofFloat number = .finite false units)
    (exact : worth units = hexNumber (digits.whole ++ digits.fraction) *
      2 ^ (exponent - 4 * digits.fraction.length)) :
    hexadecimal? ('0' :: mark :: body) = some (.ofFloat number) ↔
      heldPower digits.fraction.length exponent < 1024 ∧
        (hexNumber (digits.whole ++ digits.fraction) ≠ 0 →
          heldPower digits.fraction.length exponent = exponent - 4 * digits.fraction.length ∧
            -1024 < exponent - 4 * digits.fraction.length ∧
              hexNumber (digits.whole ++ digits.fraction) < twoTo 1024) := by
  have double := Binary64.isDouble_ofFloat number
  rw [finite] at double
  cases double with
  | finite _ significant below =>
      have mantissa := hexMantissa_eq (isHexDigit_of_numeral numeral)
        (significant_of_worth significant exact)
      rw [hexadecimal?_of_numeral marked numeral, finite, Option.some_inj, mantissa]
      exact scaleWhole_eq_finite_iff _ significant below exact

theorem hexadecimal?_exact_iff_twelve :
    hexadecimal? ['0', 'x', '1', '.', '8', 'p', '3'] =
      some (.ofFloat (Float.ofBits 0x4028000000000000)) := by
  have mantissa : Base.sixteen.Mantissa ['1', '.', '8'] ⟨['1'], ['8']⟩ :=
    .point (Or.inl (List.cons_ne_nil _ _)) (List.forall_mem_singleton.mpr rfl)
      (List.forall_mem_singleton.mpr rfl)
  have scale : Base.sixteen.Scale ['p', '3'] 3 :=
    .written (List.mem_cons_self ..) .none (List.cons_ne_nil _ _)
      (List.forall_mem_singleton.mpr rfl)
  have finite : Binary64.ofFloat (Float.ofBits 0x4028000000000000) =
      .finite false (12 * twoTo 1074) := by decide +kernel
  have exact : worth (12 * twoTo 1074) = hexNumber ['1', '8'] * 2 ^ ((3 : Int) - 4 * (1 : Nat)) := by
    have one : (twoTo 1074 : ℚ) ≠ 0 := by exact_mod_cast (twoTo_pos 1074).ne'
    rw [worth, Nat.cast_mul, Binary64.unitsPerOne, mul_div_cancel_right₀ _ one]
    norm_num [show hexNumber ['1', '8'] = 24 from rfl]
  exact (hexadecimal?_exact_iff (Or.inl rfl) (.intro mantissa scale) finite exact).mpr
    ⟨by decide, fun _ => ⟨by decide, by decide, by decide +kernel⟩⟩

/-- The smallest double of all is read as zero. -/
theorem smallest_not_exact :
    ¬ ∀ (mark : Char) (body : List Char) (digits : Digits) (exponent : Int) (number : Float)
        (units : Nat), mark = 'x' ∨ mark = 'X' → Base.sixteen.Numeral body digits exponent →
      Binary64.ofFloat number = .finite false units →
      worth units = hexNumber (digits.whole ++ digits.fraction) *
        2 ^ (exponent - 4 * digits.fraction.length) →
      hexadecimal? ('0' :: mark :: body) = some (.ofFloat number) := by
  intro always
  have mantissa : Base.sixteen.Mantissa ['1'] ⟨['1'], []⟩ :=
    .whole (List.cons_ne_nil _ _) (List.forall_mem_singleton.mpr rfl)
  have scale : Base.sixteen.Scale ['p', '-', '1', '0', '7', '4'] (-1074) :=
    .written (List.mem_cons_self ..) .minus (List.cons_ne_nil _ _)
      (List.all_eq_true.mp (rfl : ['1', '0', '7', '4'].all Char.isDigit = true))
  have finite : Binary64.ofFloat (Float.ofBits 1) = .finite false 1 := by decide +kernel
  have exact : worth 1 = hexNumber ['1'] * 2 ^ ((-1074 : Int) - 4 * (0 : Nat)) := by
    rw [worth_eq, Nat.cast_zero, mul_zero, sub_zero]
    rfl
  have read := always 'x' _ _ _ _ 1 (Or.inl rfl) (.intro mantissa scale) finite exact
  have small : heldPower 0 (-1074) ≤ -1024 := by decide
  have lost : scaleWhole (hexMantissa ['1']) (heldPower 0 (-1074)) = .zero := by
    rw [scaleWhole_of_le_neg small, if_pos (by decide +kernel)]
  rw [hexadecimal?_of_numeral (Or.inl rfl) (.intro mantissa scale), finite, Option.some_inj] at read
  exact absurd (lost.symm.trans read) (by decide)

end Whole

end Reading
end ScriptCore.Number
