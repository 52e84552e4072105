import Mathlib
import ScriptCore.Number.Binary64

set_option autoImplicit false

/-! Which whole numbers of units are doubles: those that fifty-three binary digits and a power
of two can write, below the limit. These are exactly what the bits of a double stand for, and
the bits are found again from them. -/

namespace ScriptCore.Number

theorem twoTo_eq (exponent : Nat) : twoTo exponent = 2 ^ exponent := rfl

theorem tenTo_eq (exponent : Nat) : tenTo exponent = 10 ^ exponent := rfl

theorem twoTo_add (first second : Nat) :
    twoTo (first + second) = twoTo first * twoTo second := Nat.pow_add 2 first second

theorem twoTo_53 : twoTo 53 = twoTo 52 * 2 := twoTo_succ 52

theorem twoTo_le_twoTo {first second : Nat} (le : first ≤ second) :
    twoTo first ≤ twoTo second := Nat.pow_le_pow_right (by decide) le

theorem tenTo_le_tenTo {first second : Nat} (le : first ≤ second) :
    tenTo first ≤ tenTo second := Nat.pow_le_pow_right (by decide) le

/-! ### Binary digits -/

theorem twoTo_log2_le {number : Nat} (positive : number ≠ 0) :
    twoTo number.log2 ≤ number := Nat.log2_self_le positive

theorem log2_lt_iff {number exponent : Nat} (positive : number ≠ 0) :
    number.log2 < exponent ↔ number < twoTo exponent := Nat.log2_lt positive

theorem lt_twoTo_log2 (number : Nat) : number < twoTo (number.log2 + 1) := Nat.lt_log2_self

theorem div_spacing_lt (number : Nat) :
    number / twoTo (Binary64.spacing number) < twoTo 53 := by
  rw [Nat.div_lt_iff_lt_mul (twoTo_pos _), ← twoTo_add]
  exact (lt_twoTo_log2 number).trans_le (twoTo_le_twoTo (by unfold Binary64.spacing; omega))

theorem spacing_eq {digits places : Nat} (full : twoTo 52 ≤ digits) (fits : digits < twoTo 53) :
    Binary64.spacing (digits * twoTo places) = places := by
  have log : (digits * twoTo places).log2 = 52 + places := by
    have positive : digits * twoTo places ≠ 0 :=
      Nat.mul_ne_zero (by have := twoTo_pos 52; omega) (twoTo_pos _).ne'
    rw [Nat.log2_eq_iff positive]
    constructor
    · exact (Nat.pow_add 2 52 places).trans_le (Nat.mul_le_mul_right _ full)
    · calc digits * twoTo places < twoTo 53 * twoTo places :=
            Nat.mul_lt_mul_of_pos_right fits (twoTo_pos _)
        _ = 2 ^ (52 + places + 1) := by rw [← twoTo_add, twoTo_eq]; congr 1; omega
  unfold Binary64.spacing
  omega

theorem spacing_eq_zero {units : Nat} (short : units < twoTo 53) :
    Binary64.spacing units = 0 := by
  by_cases zero : units = 0
  · subst zero
    rfl
  · have below : units.log2 < 53 := (log2_lt_iff zero).mpr short
    unfold Binary64.spacing
    omega

/-! ### Fifty-three digits -/

/-- A number that fifty-three binary digits and a power of two can write. -/
def Significant (number : Nat) : Prop := twoTo (Binary64.spacing number) ∣ number

theorem significant_iff (number : Nat) :
    Significant number ↔ ∃ digits places, digits < twoTo 53 ∧ number = digits * twoTo places := by
  constructor
  · intro significant
    exact ⟨_, _, div_spacing_lt number, (Nat.div_mul_cancel significant).symm⟩
  · rintro ⟨digits, places, short, rfl⟩
    refine (Nat.pow_dvd_pow 2 ?_).trans (Nat.dvd_mul_left _ digits)
    by_cases zero : digits = 0
    · subst zero
      rw [Nat.zero_mul]
      exact Nat.zero_le _
    · have positive : digits * twoTo places ≠ 0 :=
        Nat.mul_ne_zero zero (twoTo_pos places).ne'
      have below : (digits * twoTo places).log2 < 53 + places := by
        rw [log2_lt_iff positive, twoTo_add]
        exact Nat.mul_lt_mul_of_pos_right short (twoTo_pos places)
      unfold Binary64.spacing
      omega

namespace Significant

variable {number : Nat}

theorem of_lt (short : number < twoTo 53) : Significant number :=
  (significant_iff number).mpr ⟨number, 0, short, (Nat.mul_one number).symm⟩

theorem mul_twoTo (significant : Significant number) (places : Nat) :
    Significant (number * twoTo places) := by
  obtain ⟨digits, more, short, rfl⟩ := (significant_iff number).mp significant
  exact (significant_iff _).mpr
    ⟨digits, more + places, short, by rw [twoTo_add, Nat.mul_assoc]⟩

/-- Cutting off last binary digits leaves no more digits to write. -/
theorem div_twoTo (significant : Significant number) (places : Nat) :
    Significant (number / twoTo places) := by
  obtain ⟨digits, more, short, rfl⟩ := (significant_iff number).mp significant
  rcases Nat.le_total places more with fewer | further
  · obtain ⟨left, rfl⟩ := Nat.exists_eq_add_of_le fewer
    rw [twoTo_add, Nat.mul_left_comm, Nat.mul_div_cancel_left _ (twoTo_pos places)]
    exact (of_lt short).mul_twoTo left
  · obtain ⟨left, rfl⟩ := Nat.exists_eq_add_of_le further
    rw [twoTo_add, Nat.mul_comm digits, Nat.mul_div_mul_left _ _ (twoTo_pos more)]
    exact of_lt ((Nat.div_le_self _ _).trans_lt short)

theorem of_mul_twoTo {places : Nat} (significant : Significant (number * twoTo places)) :
    Significant number := by
  have cut := significant.div_twoTo places
  rwa [Nat.mul_div_cancel number (twoTo_pos places)] at cut

end Significant

theorem significant_twoTo (places : Nat) : Significant (twoTo places) := by
  have one := (Significant.of_lt (by decide : 1 < twoTo 53)).mul_twoTo places
  rwa [Nat.one_mul] at one

/-! ### Bits -/

namespace Binary64

/-- A value that some double has. -/
inductive IsDouble : Binary64 → Prop where
  | nan : IsDouble .nan
  | infinite (negative : Bool) : IsDouble (.infinite negative)
  | finite (negative : Bool) {units : Nat} (significant : Significant units)
      (below : units < unitsLimit) : IsDouble (.finite negative units)

theorem unitsLimit_pos : 0 < unitsLimit := twoTo_pos 2098

theorem unitsLimit_eq : unitsLimit = twoTo 53 * twoTo 2045 := twoTo_add 53 2045

/-- A large value has all its fifty-three digits, and a small one has no last zeros cut off. -/
theorem full_or_spacing_eq_zero (units : Nat) :
    twoTo 52 ≤ units / twoTo (spacing units) ∨ spacing units = 0 := by
  by_cases small : units.log2 ≤ 52
  · exact Or.inr (Nat.sub_eq_zero_of_le small)
  · left
    have positive : units ≠ 0 := by
      rintro rfl
      exact small (Nat.zero_le 52)
    rw [Nat.le_div_iff_mul_le (twoTo_pos _), ← twoTo_add]
    have least := twoTo_log2_le positive
    rwa [show 52 + spacing units = units.log2 by unfold spacing; omega]

theorem spacing_le {units : Nat} (below : units < unitsLimit) : spacing units ≤ 2045 := by
  by_cases zero : units = 0
  · subst zero
    exact Nat.zero_le _
  · have log : units.log2 < 2098 := (log2_lt_iff zero).mpr below
    unfold spacing
    omega

section Fields

variable (number : Float)

def signField : Bool := number.toBits.toNat / twoTo 63 == 1

def exponentField : Nat := number.toBits.toNat / twoTo 52 % twoTo 11

def fractionField : Nat := number.toBits.toNat % twoTo 52

theorem ofFloat_eq : ofFloat number =
    if exponentField number = twoTo 11 - 1 then
      if fractionField number = 0 then .infinite (signField number) else .nan
    else if exponentField number = 0 then .finite (signField number) (fractionField number)
    else .finite (signField number)
      ((twoTo 52 + fractionField number) * twoTo (exponentField number - 1)) := rfl

/-- A sign and three fields of bits, written out for arithmetic. -/
theorem toNat_toBits : number.toBits.toNat = (if signField number then twoTo 63 else 0) +
      (exponentField number * twoTo 52 + fractionField number) ∧
    exponentField number < twoTo 11 ∧ fractionField number < twoTo 52 := by
  have bounded := number.toBits.toNat_lt
  have sign : signField number = decide (number.toBits.toNat / twoTo 63 = 1) := rfl
  rw [sign]
  unfold exponentField fractionField
  simp only [show twoTo 63 = 9223372036854775808 from rfl,
    show twoTo 52 = 4503599627370496 from rfl, show twoTo 11 = 2048 from rfl, decide_eq_true_eq]
  split
  · omega
  · omega

end Fields

section

open Float.Model Float.Model.UnpackedFloat

private theorem toNat_unpackExponent (bits : BitVec Format.binary64.numBits) :
    (unpackExponent bits).toNat = bits.toNat / twoTo 52 % twoTo 11 := by
  unfold unpackExponent
  rw [BitVec.toNat_cast, BitVec.extractLsb_toNat, Nat.shiftRight_eq_div_pow]
  rfl

private theorem toNat_unpackMantissa (bits : BitVec Format.binary64.numBits) :
    (unpackMantissa bits).toNat = bits.toNat % twoTo 52 := by
  unfold unpackMantissa
  rw [BitVec.toNat_cast, BitVec.extractLsb_toNat, Nat.shiftRight_zero]
  rfl

private theorem toNat_packedNaN :
    (packedNaN Format.binary64).toNat = twoTo 63 - twoTo 51 := by decide +kernel

/-- There is one double that is not a number. -/
theorem toNat_toBits_of_nan {number : Float} (full : exponentField number = twoTo 11 - 1)
    (some : fractionField number ≠ 0) : number.toBits.toNat = twoTo 63 - twoTo 51 := by
  have packed := number.toModel.valid.eq_packedNaN
    (BitVec.eq_of_toNat_eq ((toNat_unpackExponent _).trans full))
    (fun none => some ((toNat_unpackMantissa _).symm.trans (congrArg BitVec.toNat none)))
  exact (congrArg BitVec.toNat packed).trans toNat_packedNaN

/-- Bits other than those of a not-a-number are the bits of a double. -/
theorem toBits_ofBits {bits : UInt64}
    (valid : bits.toNat / twoTo 52 % twoTo 11 = twoTo 11 - 1 → bits.toNat % twoTo 52 = 0) :
    (Float.ofBits bits).toBits = bits := by
  have proper : Format.binary64.Valid bits.toBitVec := by
    constructor
    intro full some
    refine absurd (BitVec.eq_of_toNat_eq ?_) some
    rw [toNat_unpackMantissa, UInt64.toNat_toBitVec]
    apply valid
    rw [← UInt64.toNat_toBitVec]
    exact (toNat_unpackExponent _).symm.trans (congrArg BitVec.toNat full)
  exact congrArg Float.toBits (Float.ofBits_toBits (Float.ofModel ⟨bits, proper⟩))

end

theorem floatOfFields_eq {number : Float} {negative : Bool} {rest : Nat}
    (bits : number.toBits.toNat = (if negative then twoTo 63 else 0) + rest) :
    floatOfFields negative rest = number := by
  rw [floatOfFields, ← bits, UInt64.ofNat_toNat, Float.ofBits_toBits]

/-- Bits make up a double again that has the same value. -/
theorem toFloat_ofFloat (number : Float) : (ofFloat number).toFloat = number := by
  obtain ⟨bits, exponent, fraction⟩ := toNat_toBits number
  rw [ofFloat_eq]
  split
  case isTrue full =>
    split
    case isTrue none =>
      apply floatOfFields_eq
      rw [bits, full, none]
      rfl
    case isFalse some =>
      apply floatOfFields_eq
      rw [toNat_toBits_of_nan full some]
      rfl
  case isFalse =>
    split
    case isTrue none =>
      apply floatOfFields_eq
      rw [bits, none, spacing_eq_zero (fraction.trans (by decide)), Nat.zero_mul, twoTo_zero,
        Nat.div_one]
    case isFalse some =>
      apply floatOfFields_eq
      rw [bits, spacing_eq (Nat.le_add_right _ _) (by rw [twoTo_53]; omega),
        Nat.mul_div_cancel _ (twoTo_pos _)]
      obtain ⟨less, previous⟩ := Nat.exists_eq_succ_of_ne_zero some
      rw [previous, Nat.succ_sub_one, Nat.succ_mul]
      omega

theorem isDouble_ofFloat (number : Float) : (ofFloat number).IsDouble := by
  obtain ⟨_, exponent, fraction⟩ := toNat_toBits number
  rw [ofFloat_eq]
  split
  case isTrue =>
    split
    · exact .infinite _
    · exact .nan
  case isFalse notFull =>
    split
    case isTrue =>
      have limit : twoTo 52 ≤ unitsLimit := twoTo_le_twoTo (by decide)
      exact .finite _ (.of_lt (fraction.trans (by decide))) (fraction.trans_le limit)
    case isFalse =>
      have short : twoTo 52 + fractionField number < twoTo 53 := by
        rw [twoTo_53]
        omega
      refine .finite _ ((Significant.of_lt short).mul_twoTo _) ?_
      rw [unitsLimit_eq]
      apply Nat.mul_lt_mul_of_lt_of_le short (twoTo_le_twoTo ?_) (twoTo_pos _)
      change _ < 2048 at exponent
      change ¬ _ = 2047 at notFull
      omega

/-! ### Every value that is one of a double -/

private theorem toNat_toBits_floatOfFields (negative : Bool) {rest : Nat}
    (valid : rest ≤ twoTo 63 - twoTo 52) :
    (floatOfFields negative rest).toBits.toNat = (if negative then twoTo 63 else 0) + rest := by
  have bits : (UInt64.ofNat ((if negative then twoTo 63 else 0) + rest)).toNat =
      (if negative then twoTo 63 else 0) + rest := by
    apply UInt64.toNat_ofNat_of_lt'
    change _ < 18446744073709551616
    change _ ≤ 9223372036854775808 - 4503599627370496 at valid
    change (if negative then 9223372036854775808 else 0) + _ < _
    split
    · omega
    · omega
  rw [floatOfFields, toBits_ofBits, bits]
  rw [bits]
  change _ ≤ 9223372036854775808 - 4503599627370496 at valid
  change ((if negative then 9223372036854775808 else 0) + _) / 4503599627370496 % 2048 = 2047 →
    ((if negative then 9223372036854775808 else 0) + _) % 4503599627370496 = 0
  split
  · omega
  · omega

private theorem fields_floatOfFields (negative : Bool) {rest : Nat}
    (valid : rest ≤ twoTo 63 - twoTo 52) :
    signField (floatOfFields negative rest) = negative ∧
      exponentField (floatOfFields negative rest) = rest / twoTo 52 ∧
        fractionField (floatOfFields negative rest) = rest % twoTo 52 := by
  unfold signField exponentField fractionField
  rw [toNat_toBits_floatOfFields negative valid]
  simp only [show twoTo 63 = 9223372036854775808 from rfl,
    show twoTo 52 = 4503599627370496 from rfl, show twoTo 11 = 2048 from rfl] at valid ⊢
  cases negative with
  | false =>
      rw [if_neg Bool.false_ne_true]
      exact ⟨beq_eq_false_iff_ne.mpr (by omega), by omega, by omega⟩
  | true =>
      rw [if_pos rfl]
      exact ⟨beq_iff_eq.mpr (by omega), by omega, by omega⟩

private theorem toFloat_finite (negative : Bool) (units : Nat) :
    (finite negative units).toFloat = floatOfFields negative
      (spacing units * twoTo 52 + units / twoTo (spacing units)) := rfl

private theorem ofFloat_toFloat_finite (negative : Bool) {units : Nat}
    (significant : Significant units) (below : units < unitsLimit) :
    ofFloat (finite negative units).toFloat = .finite negative units := by
  have places := spacing_le below
  have short := div_spacing_lt units
  have digits := full_or_spacing_eq_zero units
  have whole := Nat.div_mul_cancel significant
  rw [toFloat_finite]
  generalize spacing units = exponent at *
  generalize units / twoTo exponent = leading at *
  change leading < 9007199254740992 at short
  change 4503599627370496 ≤ leading ∨ _ at digits
  have valid : exponent * twoTo 52 + leading ≤ twoTo 63 - twoTo 52 := by
    change exponent * 4503599627370496 + leading ≤ 9223372036854775808 - 4503599627370496
    omega
  obtain ⟨sign, high, low⟩ := fields_floatOfFields negative valid
  change _ = (exponent * 4503599627370496 + leading) / 4503599627370496 at high
  change _ = (exponent * 4503599627370496 + leading) % 4503599627370496 at low
  rw [ofFloat_eq, sign, if_neg (by change _ ≠ 2047; omega)]
  by_cases small : leading < 4503599627370496
  · have least : exponent = 0 := digits.resolve_left (by omega)
    subst least
    rw [if_pos (by omega), low, ← whole, twoTo_zero]
    congr 1
    omega
  · rw [if_neg (by omega), ← whole, high, low]
    congr 2
    · change 4503599627370496 + _ = _
      omega
    · congr 1
      omega

/-- The bits made up for a value have that value. -/
theorem ofFloat_toFloat {value : Binary64} (double : value.IsDouble) :
    ofFloat value.toFloat = value := by
  cases double with
  | nan => decide +kernel
  | infinite negative =>
      cases negative with
      | true => decide +kernel
      | false => decide +kernel
  | finite negative significant below => exact ofFloat_toFloat_finite negative significant below

end Binary64
end ScriptCore.Number
