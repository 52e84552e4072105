import Mathlib
import ScriptCore.Proofs.Number.Numerals
import ScriptCore.Proofs.Number.Rounding
import ScriptCore.Text.Cut

set_option autoImplicit false

/-! What a text begins with: blanks, a sign, and one of the words, or the longest hexadecimal or
decimal numeral. The reader finds exactly this, and what comes behind makes no difference. -/

namespace ScriptCore.Number

namespace Reading

/-! ### Characters of one byte -/

/-- Characters that each take one byte. -/
def Narrow (text : List Char) : Prop := ∀ char, char ∈ text → char.utf8Size = 1

theorem Narrow.byteLength {text : List Char} (narrow : Narrow text) :
    Text.byteLength text = text.length := by
  induction text with
  | nil => rfl
  | cons char rest inductionHypothesis =>
      have later : Narrow rest := fun other member => narrow other (List.mem_cons_of_mem char member)
      rw [Text.byteLength_cons, narrow char (List.mem_cons_self ..), inductionHypothesis later,
        List.length_cons, Nat.add_comm]

theorem Narrow.append {first second : List Char} (narrow : Narrow first)
    (narrow' : Narrow second) : Narrow (first ++ second) := by
  intro char member
  exact (List.mem_append.mp member).elim (narrow char) (narrow' char)

theorem Narrow.cons {char : Char} {rest : List Char} (one : char.utf8Size = 1)
    (narrow : Narrow rest) : Narrow (char :: rest) := by
  intro other member
  rcases List.mem_cons.mp member with rfl | later
  · exact one
  · exact narrow other later

/-- No offset in a narrow beginning lies inside a character. -/
theorem Narrow.cutAtByte? {chosen text : List Char} (narrow : Narrow chosen)
    (begins : chosen <+: text) {offset : Nat} (inside : offset ≤ chosen.length) :
    Text.cutAtByte? offset text = some (text.take offset, text.drop offset) := by
  rw [Text.cutAtByte?_eq_some_iff]
  refine ⟨List.take_append_drop offset text, ?_⟩
  obtain ⟨rest, rfl⟩ := begins
  rw [List.take_append_of_le_length inside,
    Narrow.byteLength fun char member => narrow char (List.mem_of_mem_take member),
    List.length_take_of_le inside]

private theorem utf8Size_of_lt {char : Char} (small : char.toNat < 128) : char.utf8Size = 1 :=
  Char.utf8Size_eq_one_iff.mpr (by
    rw [UInt32.le_iff_toNat_le]
    exact Nat.le_of_lt_succ small)

theorem toNat_of_isHexDigit {char : Char} (digit : isHexDigit char = true) :
    48 ≤ char.toNat ∧ char.toNat ≤ 57 ∨ 97 ≤ char.toNat ∧ char.toNat ≤ 102 ∨
      65 ≤ char.toNat ∧ char.toNat ≤ 70 := by
  simp only [isHexDigit, Char.isDigit, Bool.or_eq_true, Bool.and_eq_true, decide_eq_true_eq,
    Char.le_def, UInt32.le_iff_toNat_le, ge_iff_le, or_assoc] at digit
  exact digit

theorem utf8Size_of_isHexDigit {char : Char} (digit : isHexDigit char = true) :
    char.utf8Size = 1 := by
  have range := toNat_of_isHexDigit digit
  exact utf8Size_of_lt (by omega)

theorem utf8Size_of_isDigit {char : Char} (digit : char.isDigit = true) : char.utf8Size = 1 := by
  apply utf8Size_of_isHexDigit
  rw [isHexDigit, digit, Bool.true_or, Bool.true_or]

private theorem utf8Size_of_toLower {char : Char} (small : char.toLower.toNat < 128) :
    char.utf8Size = 1 := by
  apply utf8Size_of_lt
  unfold Char.toLower at small
  split at small
  case isTrue capital =>
    have last := UInt32.le_iff_toNat_le.mp capital.2
    exact Nat.lt_of_le_of_lt last (by decide)
  case isFalse => exact small

section Numerals

variable {base : Base} (digit : ∀ char, base.isDigit char = true → char.utf8Size = 1)

theorem Narrow.singleton {char : Char} (one : char.utf8Size = 1) : Narrow [char] := by
  intro other member
  rw [List.mem_singleton.mp member, one]

private theorem Base.Sign.narrow {sign : List Char} {negative : Bool}
    (signed : Sign sign negative) : Narrow sign := by
  cases signed with
  | none => exact fun char impossible => absurd impossible List.not_mem_nil
  | plus => exact Narrow.singleton rfl
  | minus => exact Narrow.singleton rfl

include digit in
private theorem Base.Mantissa.narrow {mantissa : List Char} {digits : Digits}
    (written : base.Mantissa mantissa digits) : Narrow mantissa := by
  cases written with
  | whole _ digits => exact fun char member => digit char (digits char member)
  | point _ before behind =>
      exact Narrow.append (fun char member => digit char (before char member))
        (Narrow.cons rfl fun char member => digit char (behind char member))

private theorem Base.Scale.narrow (mark : Narrow base.marks) {scale : List Char} {exponent : Int}
    (written : base.Scale scale exponent) : Narrow scale := by
  cases written with
  | none => exact fun char impossible => absurd impossible List.not_mem_nil
  | written marked signed _ decimal =>
      exact Narrow.cons (mark _ marked)
        (signed.narrow.append fun char member => utf8Size_of_isDigit (decimal char member))

include digit in
private theorem Base.IsNumeral.narrow (mark : Narrow base.marks) {text : List Char}
    (numeral : base.IsNumeral text) : Narrow text := by
  obtain ⟨digits, exponent, numeral⟩ := numeral
  cases numeral with
  | intro first later => exact (first.narrow digit).append (later.narrow mark)

end Numerals

/-! ### Words -/

/-- A word in small or capital letters. -/
def IsWord (word chosen : List Char) : Prop := chosen.map Char.toLower = word

section Words

variable {word text : List Char}

theorem IsWord.length_eq {chosen : List Char} (same : IsWord word chosen) :
    chosen.length = word.length := by
  rw [← same, List.length_map]

theorem IsWord.narrow {chosen : List Char} (same : IsWord word chosen)
    (small : word.all (·.toNat < 128) = true) : Narrow chosen := by
  intro char member
  apply utf8Size_of_toLower
  have lower : char.toLower ∈ word := by
    rw [← same]
    exact List.mem_map_of_mem member
  exact of_decide_eq_true (List.all_eq_true.mp small _ lower)

theorem startsWithWord_iff :
    startsWithWord word text = true ↔ ∃ chosen, IsWord word chosen ∧ chosen <+: text := by
  rw [startsWithWord, beq_iff_eq]
  constructor
  · intro same
    exact ⟨_, same, List.take_prefix _ _⟩
  · rintro ⟨chosen, same, begins⟩
    rw [← same.length_eq, ← List.prefix_iff_eq_take.mp begins]
    exact same

/-- Words are the same if they are looked for behind so many bytes. -/
theorem startsWithWord_eq_cutAtByte? (small : word.all (·.toNat < 128) = true) :
    startsWithWord word text =
      (Text.cutAtByte? word.length text).any fun parts => parts.1.map Char.toLower == word := by
  rw [Bool.eq_iff_iff, startsWithWord_iff, Option.any_eq_true]
  constructor
  · rintro ⟨chosen, same, begins⟩
    have cut := (same.narrow small).cutAtByte? begins same.length_eq.ge
    rw [← same.length_eq, ← List.prefix_iff_eq_take.mp begins, same.length_eq] at cut
    exact ⟨_, cut, beq_iff_eq.mpr same⟩
  · rintro ⟨⟨chosen, rest⟩, cut, same⟩
    have joined := ((Text.cutAtByte?_eq_some_iff _ _ _ _).mp cut).1
    exact ⟨chosen, beq_iff_eq.mp same, rest, joined⟩

end Words

/-! ### Magnitudes -/

/-- A decimal number that is read as a whole: digits, and perhaps a point behind them, in them or
in front of them. -/
inductive Significand : List Char → Prop where
  | digits {whole : List Char} (some : whole ≠ [])
      (decimal : ∀ char, char ∈ whole → char.isDigit = true) : Significand whole
  | pointBehind {whole fraction : List Char} (some : whole ≠ [])
      (before : ∀ char, char ∈ whole → char.isDigit = true)
      (behind : ∀ char, char ∈ fraction → char.isDigit = true) :
      Significand (whole ++ ['.'] ++ fraction)
  | pointBefore {whole fraction : List Char} (some : fraction ≠ [])
      (before : ∀ char, char ∈ whole → char.isDigit = true)
      (behind : ∀ char, char ∈ fraction → char.isDigit = true) :
      Significand (whole ++ ['.'] ++ fraction)

/-- The whole grammar of decimal numbers, with an exponent or without. -/
inductive DecimalNumber : List Char → Prop where
  | plain {significand : List Char} (first : Significand significand) : DecimalNumber significand
  | scaled {significand sign digits : List Char} {mark : Char} (first : Significand significand)
      (marked : mark = 'e' ∨ mark = 'E') (signed : sign = [] ∨ sign = ['+'] ∨ sign = ['-'])
      (some : digits ≠ []) (decimal : ∀ char, char ∈ digits → char.isDigit = true) :
      DecimalNumber (significand ++ [mark] ++ sign ++ digits)

private theorem significand_of_mantissa {mantissa : List Char} {digits : Digits}
    (written : Base.ten.Mantissa mantissa digits) : Significand mantissa := by
  cases written with
  | whole some digits => exact .digits some digits
  | point some before behind =>
      rw [← List.singleton_append, ← List.append_assoc]
      exact some.elim (fun some => .pointBehind some before behind)
        fun some => .pointBefore some before behind

theorem decimalNumber_of_isNumeral {text : List Char} (numeral : Base.ten.IsNumeral text) :
    DecimalNumber text := by
  obtain ⟨digits, exponent, numeral⟩ := numeral
  cases numeral with
  | @intro mantissa _ _ _ first later =>
      have significand := significand_of_mantissa first
      cases later with
      | none =>
          rw [List.append_nil]
          exact .plain significand
      | @written mark sign digits _ marked signed some decimal =>
          have signs : sign = [] ∨ sign = ['+'] ∨ sign = ['-'] := by
            cases signed with
            | none => exact Or.inl rfl
            | plus => exact Or.inr (Or.inl rfl)
            | minus => exact Or.inr (Or.inr rfl)
          have marks : mark = 'e' ∨ mark = 'E' := by
            simpa only [Base.ten, List.mem_cons, List.not_mem_nil, or_false] using marked
          have number := DecimalNumber.scaled significand marks signs some decimal
          rwa [List.append_assoc, List.append_assoc, List.singleton_append] at number

/-- A text in front of which a hexadecimal numeral is announced. -/
def Announced (text body : List Char) : Prop :=
  ∃ mark, text = '0' :: mark :: body ∧ (mark = 'x' ∨ mark = 'X')

/-- The beginning of an unsigned text that is read, and what it is read as. -/
inductive Selected : List Char → List Char → Binary64 → Prop where
  | infinity {text chosen : List Char} (word : IsWord ['i', 'n', 'f'] chosen)
      (begins : chosen <+: text) : Selected text chosen (.infinite false)
  | notANumber {text chosen : List Char} (word : IsWord ['n', 'a', 'n'] chosen)
      (begins : chosen <+: text) : Selected text chosen .nan
  /-- The digits are taken in one by one, and the value is scaled at the end. -/
  | hexadecimal {body chosen : List Char} {mark : Char} {digits : Digits} {exponent : Int}
      (marked : mark = 'x' ∨ mark = 'X') (longest : Longest Base.sixteen.IsNumeral chosen body)
      (numeral : Base.sixteen.Numeral chosen digits exponent) :
      Selected ('0' :: mark :: body) ('0' :: mark :: chosen)
        (scaleWhole (hexMantissa (digits.whole ++ digits.fraction))
          (heldPower digits.fraction.length exponent))
  /-- Without a numeral behind it the mark is not read. -/
  | bare {body : List Char} {mark : Char} (marked : mark = 'x' ∨ mark = 'X')
      (none : ∀ chosen, chosen <+: body → ¬ Base.sixteen.IsNumeral chosen) :
      Selected ('0' :: mark :: body) ['0'] .zero
  | decimal {text chosen : List Char} {digits : Digits} {exponent : Int} {magnitude : Binary64}
      (plain : ∀ body, ¬ Announced text body) (longest : Longest Base.ten.IsNumeral chosen text)
      (numeral : Base.ten.Numeral chosen digits exponent) (whole : DecimalNumber chosen)
      (rounded : RoundsTo ((Nat.ofDigitChars 10 (digits.whole ++ digits.fraction) 0 : ℚ) *
        10 ^ (exponent - digits.fraction.length)) magnitude) :
      Selected text chosen magnitude

section Magnitudes

variable {text body : List Char} {mark : Char}

theorem hexadecimal?_of_digits {digits : Digits} {rest : List Char}
    (marked : mark = 'x' ∨ mark = 'X')
    (split : splitDigits? isHexDigit body = some (digits, rest)) :
    hexadecimal? ('0' :: mark :: body) =
      some (scaleWhole (hexMantissa (digits.whole ++ digits.fraction))
        (heldPower digits.fraction.length (splitExponent ['p', 'P'] rest).1)) := by
  rw [hexadecimal?, if_pos marked, split]

theorem hexadecimal?_of_no_digits (marked : mark = 'x' ∨ mark = 'X')
    (none : splitDigits? isHexDigit body = none) :
    hexadecimal? ('0' :: mark :: body) = some .zero := by
  rw [hexadecimal?, if_pos marked, none]

theorem hexadecimal?_eq_none (plain : ∀ body, ¬ Announced text body) :
    hexadecimal? text = none := by
  unfold hexadecimal?
  split
  case h_1 mark body =>
    exact if_neg fun marked => plain body ⟨mark, rfl, marked⟩
  case h_2 => rfl

theorem special?_eq_none (inf : startsWithWord ['i', 'n', 'f'] text = false)
    (nan : startsWithWord ['n', 'a', 'n'] text = false) : special? text = none := by
  rw [special?, inf, nan, if_neg Bool.false_ne_true, if_neg Bool.false_ne_true]

/-- A text with another beginning starts with none of the words. -/
private theorem startsWithWord_cons {first char : Char} {letters rest : List Char}
    (apart : char.toLower ≠ first) : startsWithWord (first :: letters) (char :: rest) = false := by
  rw [startsWithWord, List.length_cons, List.take_succ_cons, List.map_cons, beq_eq_false_iff_ne]
  intro same
  exact apart (List.cons.inj same).1

private theorem special?_cons {char : Char} {rest : List Char} (apart : char.toLower ≠ 'i')
    (apart' : char.toLower ≠ 'n') : special? (char :: rest) = none :=
  special?_eq_none (startsWithWord_cons apart) (startsWithWord_cons apart')

theorem head_of_mantissa {base : Base} {mantissa : List Char} {digits : Digits}
    (written : base.Mantissa mantissa digits) : ∃ first rest,
      mantissa = first :: rest ∧ (base.isDigit first = true ∨ first = '.') := by
  cases written with
  | whole some digits =>
      cases mantissa with
      | nil => exact absurd rfl some
      | cons char rest => exact ⟨char, rest, rfl, Or.inl (digits char (List.mem_cons_self ..))⟩
  | @point whole fraction _ before _ =>
      cases whole with
      | nil => exact ⟨'.', fraction, rfl, Or.inr rfl⟩
      | cons char rest => exact ⟨char, _, rfl, Or.inl (before char (List.mem_cons_self ..))⟩

private theorem head_of_numeral {base : Base} {chosen : List Char}
    (numeral : base.IsNumeral chosen) : ∃ first rest,
      chosen = first :: rest ∧ (base.isDigit first = true ∨ first = '.') := by
  obtain ⟨digits, exponent, numeral⟩ := numeral
  cases numeral with
  | intro first later =>
      obtain ⟨char, rest, rfl, found⟩ := head_of_mantissa first
      exact ⟨char, _, rfl, found⟩

private theorem toLower_ne_of_isDigit {char letter : Char} (digit : char.isDigit = true)
    (other : letter.isDigit = false) : char.toLower ≠ letter := by
  have same : char.toLower = char := by
    unfold Char.toLower
    rw [dif_neg]
    intro capital
    simp only [Char.isDigit, Bool.and_eq_true, decide_eq_true_eq, ge_iff_le,
      UInt32.le_iff_toNat_le] at digit capital
    have nine : '9'.val.toNat = 57 := rfl
    have first : 'A'.val.toNat = 65 := rfl
    omega
  rw [same]
  rintro rfl
  rw [digit] at other
  cases other

/-- No word begins like a decimal numeral. -/
private theorem special?_of_numeral {chosen : List Char} (numeral : Base.ten.IsNumeral chosen)
    (begins : chosen <+: text) : special? text = none := by
  obtain ⟨first, rest, rfl, digit | point⟩ := head_of_numeral numeral
  · obtain ⟨more, rfl⟩ := begins
    exact special?_cons (toLower_ne_of_isDigit digit rfl) (toLower_ne_of_isDigit digit rfl)
  · obtain ⟨more, rfl⟩ := begins
    subst point
    exact special?_cons (by decide) (by decide)

private theorem magnitude?_of_special? {magnitude : Binary64}
    (read : special? text = some magnitude) : magnitude? text = some magnitude := by
  rw [magnitude?, read]
  rfl

private theorem magnitude?_of_no_word (noWord : special? text = none) :
    magnitude? text = (hexadecimal? text <|> decimal? text) := by
  rw [magnitude?, noWord]
  rfl

private theorem special?_of_announced (announced : Announced text body) : special? text = none := by
  obtain ⟨mark, rfl, _⟩ := announced
  exact special?_cons (by decide) (by decide)

private theorem magnitude?_of_announced (announced : Announced text body) {magnitude : Binary64}
    (read : hexadecimal? text = some magnitude) : magnitude? text = some magnitude := by
  rw [magnitude?_of_no_word (special?_of_announced announced), read]
  rfl

private theorem magnitude?_of_plain (noWord : special? text = none)
    (plain : ∀ body, ¬ Announced text body) : magnitude? text = decimal? text := by
  rw [magnitude?_of_no_word noWord, hexadecimal?_eq_none plain]
  rfl

private theorem decimal?_of_digits {digits : Digits} {rest : List Char}
    (split : splitDigits? Char.isDigit text = some (digits, rest)) :
    decimal? text = some (.ofDecimal (Nat.ofDigitChars 10 (digits.whole ++ digits.fraction) 0)
      ((splitExponent ['e', 'E'] rest).1 - digits.fraction.length)) := by
  rw [decimal?, split]
  rfl

theorem magnitude?_of_selected {chosen : List Char} {magnitude : Binary64}
    (selected : Selected text chosen magnitude) : magnitude? text = some magnitude := by
  cases selected with
  | infinity word begins =>
      apply magnitude?_of_special?
      rw [special?, if_pos (startsWithWord_iff.mpr ⟨chosen, word, begins⟩)]
  | notANumber word begins =>
      have starts := startsWithWord_iff.mpr ⟨chosen, word, begins⟩
      have noInfinity : startsWithWord ['i', 'n', 'f'] text = false := by
        rw [Bool.eq_false_iff, Ne, startsWithWord_iff]
        rintro ⟨other, word', begins'⟩
        have lengths : chosen.length = other.length := word.length_eq.trans word'.length_eq.symm
        have same := (List.prefix_of_prefix_length_le begins begins' lengths.le).eq_of_length lengths
        rw [← same, IsWord, word] at word'
        exact absurd word' (by decide)
      apply magnitude?_of_special?
      rw [special?, noInfinity, if_neg Bool.false_ne_true, if_pos starts]
  | @hexadecimal body chosen mark digits exponent marked longest numeral =>
      obtain ⟨rest, split, scaled⟩ := Base.splitDigits?_of_longest longest numeral
      apply magnitude?_of_announced ⟨mark, rfl, marked⟩
      rw [← scaled]
      exact hexadecimal?_of_digits marked split
  | @bare body mark marked none =>
      apply magnitude?_of_announced ⟨mark, rfl, marked⟩
      apply hexadecimal?_of_no_digits marked
      cases split : splitDigits? isHexDigit body with
      | none => rfl
      | some found =>
          obtain ⟨chosen, longest, _⟩ := Base.exists_longest Base.sixteen split
          exact absurd longest.form (none chosen longest.begins)
  | decimal plain longest numeral _ rounded =>
      obtain ⟨rest, split, scaled⟩ := Base.splitDigits?_of_longest longest numeral
      rw [magnitude?_of_plain (special?_of_numeral longest.form longest.begins) plain,
        decimal?_of_digits split, Option.some_inj]
      rw [← scaled] at rounded
      exact (roundsTo_ofDecimal _ _).unique rounded

private theorem selected_of_special? {magnitude : Binary64}
    (read : special? text = some magnitude) : ∃ chosen, Selected text chosen magnitude := by
  unfold special? at read
  split at read
  case isTrue starts =>
    cases read
    obtain ⟨chosen, word, begins⟩ := startsWithWord_iff.mp starts
    exact ⟨chosen, .infinity word begins⟩
  case isFalse =>
    split at read
    case isTrue starts =>
      cases read
      obtain ⟨chosen, word, begins⟩ := startsWithWord_iff.mp starts
      exact ⟨chosen, .notANumber word begins⟩
    case isFalse => cases read

private theorem selected_of_announced (announced : Announced text body) :
    ∃ chosen magnitude, Selected text chosen magnitude := by
  obtain ⟨mark, rfl, marked⟩ := announced
  cases split : splitDigits? isHexDigit body with
  | none =>
      exact ⟨_, _, .bare marked (Base.not_isNumeral_of_splitDigits? Base.sixteen split)⟩
  | some found =>
      obtain ⟨chosen, longest, numeral⟩ := Base.exists_longest Base.sixteen split
      exact ⟨_, _, .hexadecimal marked longest numeral⟩

private theorem selected_of_decimal? (plain : ∀ body, ¬ Announced text body) {magnitude : Binary64}
    (read : decimal? text = some magnitude) : ∃ chosen, Selected text chosen magnitude := by
  cases split : splitDigits? Char.isDigit text with
  | none =>
      rw [decimal?, split] at read
      cases read
  | some found =>
      obtain ⟨chosen, longest, numeral⟩ := Base.exists_longest Base.ten split
      rw [decimal?_of_digits split, Option.some_inj] at read
      refine ⟨chosen, .decimal plain longest numeral (decimalNumber_of_isNumeral longest.form) ?_⟩
      rw [← read]
      exact roundsTo_ofDecimal _ _

/-- What is read is the beginning that is selected, and something is read exactly if there is
such a beginning. -/
theorem magnitude?_eq_some_iff {magnitude : Binary64} :
    magnitude? text = some magnitude ↔ ∃ chosen, Selected text chosen magnitude := by
  constructor
  · intro read
    cases word : special? text with
    | some found =>
        rw [magnitude?_of_special? word] at read
        exact selected_of_special? (word.trans read)
    | none =>
        by_cases announced : ∃ body, Announced text body
        · obtain ⟨body, announced⟩ := announced
          obtain ⟨chosen, other, selected⟩ := selected_of_announced announced
          rw [magnitude?_of_selected selected] at read
          cases read
          exact ⟨chosen, selected⟩
        · rw [not_exists] at announced
          rw [magnitude?_of_plain word announced] at read
          exact selected_of_decimal? announced read
  · rintro ⟨chosen, selected⟩
    exact magnitude?_of_selected selected

theorem magnitude?_eq_none_iff :
    magnitude? text = none ↔ ∀ chosen magnitude, ¬ Selected text chosen magnitude := by
  constructor
  · intro none chosen magnitude selected
    rw [magnitude?_of_selected selected] at none
    cases none
  · intro nothing
    cases read : magnitude? text with
    | none => rfl
    | some magnitude =>
        obtain ⟨chosen, selected⟩ := magnitude?_eq_some_iff.mp read
        exact absurd selected (nothing chosen magnitude)

end Magnitudes

/-! ### Nothing behind the beginning counts -/

namespace Selected

variable {text chosen : List Char} {magnitude : Binary64}
  (selected : Selected text chosen magnitude)

include selected

theorem begins : chosen <+: text := by
  cases selected with
  | infinity _ begins => exact begins
  | notANumber _ begins => exact begins
  | hexadecimal _ longest _ =>
      exact List.cons_prefix_cons.mpr ⟨rfl, List.cons_prefix_cons.mpr ⟨rfl, longest.begins⟩⟩
  | bare _ _ => exact List.cons_prefix_cons.mpr ⟨rfl, List.nil_prefix⟩
  | decimal _ longest _ _ _ => exact longest.begins

theorem narrow : Narrow chosen := by
  cases selected with
  | infinity word _ => exact word.narrow (by decide)
  | notANumber word _ => exact word.narrow (by decide)
  | @hexadecimal body chosen mark digits exponent marked longest numeral =>
      have one : mark.utf8Size = 1 := by
        rcases marked with rfl | rfl
        · rfl
        · rfl
      refine Narrow.cons rfl (Narrow.cons one ?_)
      exact longest.form.narrow (fun _ digit => utf8Size_of_isHexDigit digit)
        (Narrow.cons rfl (Narrow.singleton rfl))
  | bare _ _ => exact Narrow.singleton rfl
  | decimal _ longest _ _ _ =>
      exact longest.form.narrow (fun _ digit => utf8Size_of_isDigit digit)
        (Narrow.cons rfl (Narrow.singleton rfl))

theorem ne_nil : chosen ≠ [] := by
  cases selected with
  | infinity word _ =>
      rintro rfl
      cases word
  | notANumber word _ =>
      rintro rfl
      cases word
  | hexadecimal _ _ _ => exact List.cons_ne_nil _ _
  | bare _ _ => exact List.cons_ne_nil _ _
  | decimal _ longest _ _ _ =>
      obtain ⟨first, rest, rfl, _⟩ := head_of_numeral longest.form
      exact List.cons_ne_nil _ _

/-- The beginning alone is read as the same number. -/
theorem self : Selected chosen chosen magnitude := by
  cases selected with
  | infinity word _ => exact .infinity word List.prefix_rfl
  | notANumber word _ => exact .notANumber word List.prefix_rfl
  | hexadecimal marked longest numeral => exact .hexadecimal marked (.self longest.form) numeral
  | bare _ _ =>
      have zero : Base.ten.Mantissa ['0'] ⟨['0'], []⟩ :=
        .whole (List.cons_ne_nil _ _) fun char member => by rw [List.mem_singleton.mp member]; rfl
      have form : Base.ten.Numeral ['0'] ⟨['0'], []⟩ 0 := .intro zero .none
      have number : Base.ten.IsNumeral ['0'] := ⟨_, _, form⟩
      refine .decimal ?_ (.self number) form (decimalNumber_of_isNumeral number) ?_
      · rintro body ⟨mark, impossible, _⟩
        cases impossible
      · exact roundsTo_ofDecimal 0 0
  | decimal plain longest numeral whole rounded =>
      refine .decimal ?_ (.self longest.form) numeral whole rounded
      rintro body ⟨mark, rfl, marked⟩
      obtain ⟨rest, rfl⟩ := longest.begins
      exact plain (body ++ rest) ⟨mark, rfl, marked⟩

end Selected

/-! ### Blanks and signs -/

/-- The blanks that a text begins with, all of them, the sign behind them, if there is one, and
what is left. -/
structure Parted (text blanks sign unsigned : List Char) (negative : Bool) : Prop where
  joined : text = blanks ++ (sign ++ unsigned)
  blank : ∀ char, char ∈ blanks → Text.isBlank char = true
  noBlank : Stops Text.isBlank (sign ++ unsigned)
  signed : Base.Sign sign negative
  noSign : sign = [] → Stops Base.isSign unsigned

theorem exists_parted (text : List Char) :
    ∃ blanks sign unsigned negative, Parted text blanks sign unsigned negative := by
  have blank (char : Char) (member : char ∈ text.takeWhile Text.isBlank) :
      Text.isBlank char = true := List.mem_takeWhile_imp member
  have stops := stops_dropWhile Text.isBlank text
  have joined := List.takeWhile_append_dropWhile (p := Text.isBlank) (l := text)
  obtain ⟨sign, begins, signed, noSign⟩ := Base.splitSign_sound (text.dropWhile Text.isBlank)
  refine ⟨text.takeWhile Text.isBlank, sign, _, _, ⟨?_, blank, ?_, signed, noSign⟩⟩
  · rw [← begins, joined]
  · rw [← begins]
    exact stops

section Parts

variable {text blanks sign unsigned : List Char} {negative : Bool}
  (parted : Parted text blanks sign unsigned negative)

include parted

private theorem Parted.dropWhile_eq : text.dropWhile Text.isBlank = sign ++ unsigned := by
  have span := span_append_of_stops parted.blank parted.noBlank
  rw [← parted.joined, List.span_eq_takeWhile_dropWhile, Prod.mk.injEq] at span
  exact span.2

private theorem Parted.read_of_magnitude? {magnitude : Binary64}
    (found : magnitude? unsigned = some magnitude) :
    read text = if negative then magnitude.negate else magnitude := by
  rw [read, parted.dropWhile_eq, Base.splitSign_append parted.signed parted.noSign]
  dsimp only
  rw [found]

private theorem Parted.read_of_no_magnitude? (none : magnitude? unsigned = none) :
    read text = .zero := by
  rw [read, parted.dropWhile_eq, Base.splitSign_append parted.signed parted.noSign]
  dsimp only
  rw [none]

/-- A byte offset behind the sign lies between two characters. -/
theorem Parted.cutAtByte?_sign :
    Text.cutAtByte? sign.length (sign ++ unsigned) = some (sign, unsigned) := by
  have cut := parted.signed.narrow.cutAtByte? (List.prefix_append sign unsigned) le_rfl
  rwa [List.take_left, List.drop_left] at cut

/-- The parts stay if something else is put behind the beginning that is read. -/
theorem Parted.replace_rest {chosen : List Char} {magnitude : Binary64}
    (selected : Selected unsigned chosen magnitude) (rest : List Char) :
    Parted (blanks ++ (sign ++ (chosen ++ rest))) blanks sign (chosen ++ rest) negative := by
  have begins : sign ++ chosen <+: sign ++ unsigned :=
    (List.prefix_append_right_inj sign).mpr selected.begins
  have some : sign ++ chosen ≠ [] := List.append_ne_nil_of_right_ne_nil sign selected.ne_nil
  refine ⟨rfl, parted.blank, ?_, parted.signed, ?_⟩
  · rw [← List.append_assoc]
    exact (parted.noBlank.of_begins begins).append some rest
  · intro none
    exact ((parted.noSign none).of_begins selected.begins).append selected.ne_nil rest

end Parts

/-! ### What is read -/

/-- A text is read as the beginning that is selected behind the blanks and the sign, with this
sign, and without such a beginning as zero. -/
inductive Reads (text : List Char) : Binary64 → Prop where
  | selected {blanks sign unsigned chosen : List Char} {negative : Bool} {magnitude : Binary64}
      (parted : Parted text blanks sign unsigned negative)
      (selected : Selected unsigned chosen magnitude) :
      Reads text (if negative then magnitude.negate else magnitude)
  | nothing {blanks sign unsigned : List Char} {negative : Bool}
      (parted : Parted text blanks sign unsigned negative)
      (none : ∀ chosen magnitude, ¬ Selected unsigned chosen magnitude) : Reads text .zero

theorem reads_iff {text : List Char} {number : Binary64} :
    Reads text number ↔ number = read text := by
  constructor
  · intro reads
    cases reads with
    | selected parted selected =>
        exact (parted.read_of_magnitude? (magnitude?_of_selected selected)).symm
    | nothing parted none =>
        exact (parted.read_of_no_magnitude? (magnitude?_eq_none_iff.mpr none)).symm
  · rintro rfl
    obtain ⟨blanks, sign, unsigned, negative, parted⟩ := exists_parted text
    cases found : magnitude? unsigned with
    | none =>
        rw [parted.read_of_no_magnitude? found]
        exact .nothing parted (magnitude?_eq_none_iff.mp found)
    | some magnitude =>
        obtain ⟨chosen, selected⟩ := magnitude?_eq_some_iff.mp found
        rw [parted.read_of_magnitude? found]
        exact .selected parted selected

/-- With the same beginning, whatever stands behind it, the same number is read. -/
theorem Parted.read_append {text blanks sign unsigned chosen rest : List Char} {negative : Bool}
    {magnitude other : Binary64} (parted : Parted text blanks sign unsigned negative)
    (selected : Selected unsigned chosen magnitude) (selected' : Selected (chosen ++ rest) chosen other) :
    read (blanks ++ (sign ++ (chosen ++ rest))) = read text := by
  have same : magnitude = other := by
    have alone := magnitude?_of_selected selected.self
    rwa [magnitude?_of_selected selected'.self, Option.some_inj, eq_comm] at alone
  rw [(parted.replace_rest selected rest).read_of_magnitude? (magnitude?_of_selected selected'),
    parted.read_of_magnitude? (magnitude?_of_selected selected), same]

/-! ### What is read is a double -/

theorem isDouble_zero : Binary64.zero.IsDouble :=
  .finite false (.of_lt (twoTo_pos 53)) Binary64.unitsLimit_pos

theorem isDouble_scaleWhole (whole : Nat) (power : Int) : (scaleWhole whole power).IsDouble := by
  unfold scaleWhole
  -- The bound must not be computed when the cases are split.
  generalize twoTo 1024 = bound
  split
  case isTrue =>
    split
    case isTrue => exact .nan
    case isFalse => exact .infinite false
  case isFalse =>
    split
    case isTrue =>
      split
      case isTrue => exact isDouble_zero
      case isFalse => exact .nan
    case isFalse =>
      split
      case isTrue => exact Binary64.isDouble_ofFraction _ _
      case isFalse => exact .infinite false

theorem Selected.isDouble {text chosen : List Char} {magnitude : Binary64}
    (selected : Selected text chosen magnitude) : magnitude.IsDouble := by
  cases selected with
  | infinity _ _ => exact .infinite false
  | notANumber _ _ => exact .nan
  | hexadecimal _ _ _ => exact isDouble_scaleWhole _ _
  | bare _ _ => exact isDouble_zero
  | decimal _ _ _ _ rounded => exact rounded.isDouble

private theorem isDouble_negate {number : Binary64} (double : number.IsDouble) :
    number.negate.IsDouble := by
  cases double with
  | nan => exact .nan
  | infinite negative => exact .infinite _
  | finite negative significant below => exact .finite _ significant below

theorem Reads.isDouble {text : List Char} {number : Binary64} (reads : Reads text number) :
    number.IsDouble := by
  cases reads with
  | selected _ selected =>
      split
      case isTrue => exact isDouble_negate selected.isDouble
      case isFalse => exact selected.isDouble
  | nothing => exact isDouble_zero

theorem isDouble_read (text : List Char) : (read text).IsDouble :=
  (reads_iff.mpr rfl : Reads text (read text)).isDouble

end Reading
end ScriptCore.Number
