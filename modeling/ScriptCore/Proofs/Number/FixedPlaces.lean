import Mathlib
import ScriptCore.Number.Numeral
import ScriptCore.Proofs.Number.Beginnings

set_option autoImplicit false

/-! Numbers written with a fixed count of digits behind the point. The whole text is a numeral,
so it reads back as the double nearest to what is written, and as the number itself when nothing
was rounded away. -/

namespace ScriptCore.Number

open Reading

/-! ### The digits -/

/-- The last digits of a value in units, counted in the last of the places behind the point. -/
def lastPlaces (places units : Nat) : Nat :=
  divNearest (units * tenTo places) Binary64.unitsPerOne

/-- Digits with as many zeros in front as it takes for one of them to stand before the point. -/
def paddedDigits (places number : Nat) : List Char :=
  (Nat.toDigits 10 number).leftpad (places + 1) '0'

private theorem isDigit_of_mem_paddedDigits {places number : Nat} {char : Char}
    (member : char ∈ paddedDigits places number) : char.isDigit = true := by
  rcases List.mem_append.mp member with zero | digit
  · rw [(List.mem_replicate.mp zero).2]
    rfl
  · exact Nat.isDigit_of_mem_toDigits (by decide) le_rfl digit

private theorem ofDigitChars_paddedDigits (places number : Nat) :
    Nat.ofDigitChars 10 (paddedDigits places number) 0 = number := by
  unfold paddedDigits List.leftpad
  rw [Nat.ofDigitChars_append, Nat.ofDigitChars_replicate_zero, Nat.mul_zero,
    Nat.ofDigitChars_ten_toDigits]

private theorem lt_length_paddedDigits (places number : Nat) :
    places < (paddedDigits places number).length := by
  unfold paddedDigits
  rw [List.length_leftpad]
  omega

/-- The padded digits before the point. -/
def wholeDigits (places number : Nat) : List Char :=
  (paddedDigits places number).take ((paddedDigits places number).length - places)

/-- The padded digits behind the point. -/
def fractionDigits (places number : Nat) : List Char :=
  (paddedDigits places number).drop ((paddedDigits places number).length - places)

theorem length_fractionDigits (places number : Nat) :
    (fractionDigits places number).length = places := by
  have long := lt_length_paddedDigits places number
  rw [fractionDigits, List.length_drop]
  omega

theorem ofDigitChars_wholeDigits_append (places number : Nat) :
    Nat.ofDigitChars 10 (wholeDigits places number ++ fractionDigits places number) 0 = number := by
  rw [wholeDigits, fractionDigits, List.take_append_drop, ofDigitChars_paddedDigits]

theorem mantissa_wholeDigits_append (places number : Nat) :
    Base.ten.Mantissa (wholeDigits places number ++ '.' :: fractionDigits places number)
      ⟨wholeDigits places number, fractionDigits places number⟩ := by
  have long := lt_length_paddedDigits places number
  refine .point (Or.inl ?_) ?_ ?_
  · rw [wholeDigits, Ne, List.take_eq_nil_iff, not_or]
    exact ⟨by omega, List.ne_nil_of_length_pos (by omega)⟩
  · exact fun char member => isDigit_of_mem_paddedDigits (List.mem_of_mem_take member)
  · exact fun char member => isDigit_of_mem_paddedDigits (List.mem_of_mem_drop member)

/-- A sign, digits, a point, and as many digits as there are places, which together are the value
in last places. -/
structure FixedText (places : Nat) (negative : Bool) (units : Nat)
    (text whole fraction : List Char) : Prop where
  joined : text = Numeral.sign negative ++ (whole ++ '.' :: fraction)
  written : Base.ten.Mantissa (whole ++ '.' :: fraction) ⟨whole, fraction⟩
  count : fraction.length = places
  value : Nat.ofDigitChars 10 (whole ++ fraction) 0 = lastPlaces places units

theorem exists_fixedText (places : Nat) (negative : Bool) (units : Nat) :
    ∃ whole fraction, FixedText places negative units
      (writeFixed places (.finite negative units)) whole fraction := by
  have text : writeFixed places (.finite negative units) = Numeral.sign negative ++
      wholeDigits places (lastPlaces places units) ++
        '.' :: fractionDigits places (lastPlaces places units) := rfl
  rw [List.append_assoc] at text
  exact ⟨_, _, text, mantissa_wholeDigits_append _ _, length_fractionDigits _ _,
    ofDigitChars_wholeDigits_append _ _⟩

/-- What is written is the nearest that can be written with so many places, of two the even one. -/
structure NearestPlaces (places : Nat) (exact : ℚ) (last : Nat) : Prop where
  nearest : ∀ other : Nat, |(last : ℚ) / 10 ^ places - exact| ≤ |(other : ℚ) / 10 ^ places - exact|
  even : ∀ other : Nat, other ≠ last →
    |(other : ℚ) / 10 ^ places - exact| = |(last : ℚ) / 10 ^ places - exact| → 2 ∣ last

theorem nearestPlaces_lastPlaces (places units : Nat) :
    NearestPlaces places (worth units) (lastPlaces places units) := by
  have same : (10 ^ places : ℚ) = tenTo places := by
    rw [tenTo_eq]
    push_cast
    rfl
  constructor
  · intro other
    rw [same, worth, abs_div_sub_div_le_iff _ _ _ (tenTo_pos places) unitsPerOne_pos]
    exact divNearest_nearest _ unitsPerOne_pos other
  · intro other apart tie
    rw [same, worth, abs_div_sub_div_eq_iff _ _ _ (tenTo_pos places) unitsPerOne_pos] at tie
    exact divNearest_tie _ unitsPerOne_pos apart tie

/-! ### The text as a whole -/

theorem digit_or_point {text : List Char} {digits : Digits}
    (written : Base.ten.Mantissa text digits) {char : Char} (member : char ∈ text) :
    char.isDigit = true ∨ char = '.' := by
  cases written with
  | whole _ digits => exact Or.inl (digits char member)
  | point _ before behind =>
      rcases List.mem_append.mp member with first | later
      · exact Or.inl (before char first)
      · exact (List.mem_cons.mp later).elim Or.inr fun last => Or.inl (behind char last)

private theorem not_announced {text : List Char} {digits : Digits}
    (written : Base.ten.Mantissa text digits) (body : List Char) : ¬ Announced text body := by
  rintro ⟨mark, rfl, marked⟩
  have found := digit_or_point written (List.mem_cons_of_mem '0' (List.mem_cons_self ..))
  rcases marked with rfl | rfl
  · exact absurd found (by decide)
  · exact absurd found (by decide)

private theorem isBlank_of_isDigit {char : Char} (digit : char.isDigit = true) :
    Text.isBlank char = false := by
  simp only [Char.isDigit, Bool.and_eq_true, decide_eq_true_eq, ge_iff_le,
    UInt32.le_iff_toNat_le] at digit
  change 48 ≤ char.toNat ∧ char.toNat ≤ 57 at digit
  simp only [Text.isBlank, Text.blankRanges, List.any_cons, List.any_nil, Bool.or_false,
    Bool.or_eq_false_iff, Bool.and_eq_false_iff, decide_eq_false_iff_not]
  omega

section Whole

variable {text : List Char} {digits : Digits} (written : Base.ten.Mantissa text digits)

include written

/-- Digits with a point are read to their end. -/
theorem selected_self_of_mantissa : ∃ magnitude, Selected text text magnitude ∧
    RoundsTo ((Nat.ofDigitChars 10 (digits.whole ++ digits.fraction) 0 : ℚ) *
      10 ^ (-(digits.fraction.length : Int))) magnitude := by
  have numeral : Base.ten.Numeral text digits 0 := by
    have whole := Base.Numeral.intro written .none
    rwa [List.append_nil] at whole
  have form : Base.ten.IsNumeral text := ⟨_, _, numeral⟩
  have rounded := roundsTo_ofDecimal (Nat.ofDigitChars 10 (digits.whole ++ digits.fraction) 0)
    (0 - digits.fraction.length)
  refine ⟨_, .decimal (not_announced written) (.self form) numeral
    (decimalNumber_of_isNumeral form) rounded, ?_⟩
  rw [zero_sub] at rounded ⊢
  exact rounded

/-- Behind a sign there are no blanks and no other sign. -/
theorem parted_of_mantissa (negative : Bool) :
    Parted (Numeral.sign negative ++ text) [] (Numeral.sign negative) text negative := by
  obtain ⟨first, rest, rfl, found⟩ := head_of_mantissa written
  have noBlank : Stops Text.isBlank (first :: rest) := by
    apply stops_cons
    rcases found with digit | rfl
    · exact isBlank_of_isDigit digit
    · rfl
  have noSign : Stops Base.isSign (first :: rest) := by
    apply stops_cons
    rcases found with digit | rfl
    · exact Base.isSign_of_isDigit digit
    · rfl
  refine ⟨rfl, fun char impossible => absurd impossible List.not_mem_nil, ?_, ?_, fun _ => noSign⟩
  · cases negative with
    | true => exact stops_cons rfl
    | false => exact noBlank
  · cases negative with
    | true => exact .minus
    | false => exact .none

end Whole

/-- The text of a number is taken apart into its sign and its digits, all of which are read, as
the double nearest to what they say. -/
structure ReadWhole (places : Nat) (negative : Bool) (units : Nat)
    (text whole fraction : List Char) (magnitude : Binary64) : Prop
    extends FixedText places negative units text whole fraction where
  nearest : NearestPlaces places (worth units) (Nat.ofDigitChars 10 (whole ++ fraction) 0)
  parted : Parted text [] (Numeral.sign negative) (whole ++ '.' :: fraction) negative
  selected : Selected (whole ++ '.' :: fraction) (whole ++ '.' :: fraction) magnitude
  rounded : RoundsTo (Nat.ofDigitChars 10 (whole ++ fraction) 0 / 10 ^ places) magnitude

theorem exists_readWhole (places : Nat) (negative : Bool) (units : Nat) :
    ∃ whole fraction magnitude, ReadWhole places negative units
      (writeFixed places (.finite negative units)) whole fraction magnitude := by
  obtain ⟨whole, fraction, fixed⟩ := exists_fixedText places negative units
  obtain ⟨magnitude, selected, rounded⟩ := selected_self_of_mantissa fixed.written
  have parted := parted_of_mantissa fixed.written negative
  have nearest := nearestPlaces_lastPlaces places units
  rw [← fixed.joined] at parted
  rw [← fixed.value] at nearest
  rw [fixed.count, zpow_neg, zpow_natCast, ← div_eq_mul_inv] at rounded
  exact ⟨whole, fraction, magnitude, fixed, nearest, parted, selected, rounded⟩

theorem ReadWhole.read_eq {places : Nat} {negative : Bool} {units : Nat}
    {text whole fraction : List Char} {magnitude : Binary64}
    (reads : ReadWhole places negative units text whole fraction magnitude) :
    read text = if negative then magnitude.negate else magnitude :=
  (reads_iff.mp (.selected reads.parted reads.selected)).symm

/-! ### Nothing rounded away -/

/-- A value that is a whole number of last places is written as it is. -/
theorem lastPlaces_eq {places units whole : Nat} (exact : 10 ^ places * worth units = whole) :
    lastPlaces places units = whole := by
  have one : (Binary64.unitsPerOne : ℚ) ≠ 0 := by exact_mod_cast unitsPerOne_pos.ne'
  have same : units * tenTo places = whole * Binary64.unitsPerOne := by
    rw [worth, mul_div_assoc', div_eq_iff one] at exact
    rw [tenTo_eq, Nat.mul_comm]
    exact_mod_cast exact
  rw [lastPlaces, same, divNearest_mul_self whole unitsPerOne_pos]

theorem read_writeFixed_of_exact {places units whole : Nat} {negative : Bool}
    (double : (Binary64.finite negative units).IsDouble)
    (exact : 10 ^ places * worth units = whole) :
    read (writeFixed places (.finite negative units)) = .finite negative units := by
  obtain ⟨whole', fraction, magnitude, reads⟩ := exists_readWhole places negative units
  cases double with
  | finite _ significant below =>
      have rounded := reads.rounded
      have power : (10 ^ places : ℚ) ≠ 0 := pow_ne_zero places (by norm_num)
      rw [reads.value, lastPlaces_eq exact, ← exact, mul_div_cancel_left₀ _ power] at rounded
      rw [reads.read_eq, rounded.unique (roundsTo_worth significant below)]
      cases negative with
      | true => rfl
      | false => rfl

/-- With six places a number reads back if sixty-four times the number is whole. -/
theorem read_writeFixed_six {value : Binary64} (double : value.IsDouble)
    (short : ∀ negative units, value = .finite negative units →
      ∃ whole : Nat, 64 * worth units = whole) : read (writeFixed 6 value) = value := by
  cases value with
  | nan => rfl
  | infinite negative =>
      cases negative with
      | true => rfl
      | false => rfl
  | finite negative units =>
      obtain ⟨whole, exact⟩ := short negative units rfl
      have millionths : 10 ^ 6 * worth units = (15625 * whole : Nat) := by
        push_cast
        rw [← exact]
        ring
      exact read_writeFixed_of_exact double millionths

end ScriptCore.Number
