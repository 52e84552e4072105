import Mathlib
import ScriptCore.Number.Reading

set_option autoImplicit false

/-! The form of a numeral: digits with at most one point in them, and an exponent behind a mark.
The reader takes the longest beginning of a text that has this form, and gives back a numeral
that is the whole text. -/

namespace ScriptCore.Number

/-- The longest beginning of a text that has some form. -/
structure Longest (Form : List Char → Prop) (chosen text : List Char) : Prop where
  form : Form chosen
  begins : chosen <+: text
  longest : ∀ other, other <+: text → Form other → other.length ≤ chosen.length

theorem Longest.self {Form : List Char → Prop} {chosen : List Char} (form : Form chosen) :
    Longest Form chosen chosen :=
  ⟨form, List.prefix_rfl, fun _ begins _ => begins.length_le⟩

theorem Longest.unique {Form : List Char → Prop} {chosen other text : List Char}
    (first : Longest Form chosen text) (second : Longest Form other text) : chosen = other := by
  have shorter := second.longest chosen first.begins first.form
  have longer := first.longest other second.begins second.form
  exact (List.prefix_of_prefix_length_le first.begins second.begins shorter).eq_of_length
    (Nat.le_antisymm shorter longer)

/-- No character of this kind comes next. -/
def Stops (accepts : Char → Bool) (text : List Char) : Prop :=
  ∀ char rest, text = char :: rest → accepts char = false

theorem stops_nil (accepts : Char → Bool) : Stops accepts [] := by
  intro char rest impossible
  cases impossible

theorem stops_cons {accepts : Char → Bool} {char : Char} {rest : List Char}
    (other : accepts char = false) : Stops accepts (char :: rest) := by
  intro _ _ same
  cases same
  exact other

theorem stops_dropWhile (accepts : Char → Bool) (text : List Char) :
    Stops accepts (text.dropWhile accepts) := by
  intro char rest same
  have next := List.head?_dropWhile_not accepts text
  rw [same] at next
  exact next

theorem Stops.of_begins {accepts : Char → Bool} {first text : List Char}
    (stops : Stops accepts text) (begins : first <+: text) : Stops accepts first := by
  obtain ⟨rest, rfl⟩ := begins
  intro char more same
  exact stops char (more ++ rest) (by rw [same, List.cons_append])

theorem Stops.append {accepts : Char → Bool} {first : List Char} (stops : Stops accepts first)
    (some : first ≠ []) (rest : List Char) : Stops accepts (first ++ rest) := by
  cases first with
  | nil => exact absurd rfl some
  | cons char more => exact stops_cons (stops char more rfl)

/-! ### Runs of digits -/

section Runs

variable {isDigit : Char → Bool} {run rest : List Char}
  (digits : ∀ char, char ∈ run → isDigit char = true)

include digits

theorem span_append : (run ++ rest).span isDigit =
    (run ++ rest.takeWhile isDigit, rest.dropWhile isDigit) := by
  rw [List.span_eq_takeWhile_dropWhile, List.takeWhile_append_of_pos digits,
    List.dropWhile_append_of_pos digits]

theorem span_append_of_stops (stops : Stops isDigit rest) :
    (run ++ rest).span isDigit = (run, rest) := by
  rw [span_append digits]
  cases rest with
  | nil => rw [List.takeWhile_nil, List.dropWhile_nil, List.append_nil]
  | cons char rest =>
      have other := stops char rest rfl
      rw [List.takeWhile_cons_of_neg (by simp [other]), List.dropWhile_cons_of_neg (by simp [other]),
        List.append_nil]

end Runs

namespace Reading

/-- How numerals of one base are written: with these digits, and with one of these marks in
front of an exponent. -/
structure Base where
  isDigit : Char → Bool
  marks : List Char
  pointApart : isDigit '.' = false := by decide
  marksApart : (marks.all fun mark => !isDigit mark && mark != '.') = true := by decide

namespace Base

theorem isDigit_mark {base : Base} {mark : Char} (marked : mark ∈ base.marks) :
    base.isDigit mark = false := by
  have apart := List.all_eq_true.mp base.marksApart mark marked
  rw [Bool.and_eq_true, Bool.not_eq_true'] at apart
  exact apart.1

theorem mark_ne_point {base : Base} {mark : Char} (marked : mark ∈ base.marks) : mark ≠ '.' := by
  have apart := List.all_eq_true.mp base.marksApart mark marked
  rw [Bool.and_eq_true, bne_iff_ne] at apart
  exact apart.2

def ten : Base where
  isDigit := Char.isDigit
  marks := ['e', 'E']

def sixteen : Base where
  isDigit := isHexDigit
  marks := ['p', 'P']

/-- At least one digit, and perhaps a point in front of, between or behind the digits. -/
inductive Mantissa (base : Base) : List Char → Digits → Prop where
  | whole {whole : List Char} (some : whole ≠ [])
      (digits : ∀ char, char ∈ whole → base.isDigit char = true) :
      Mantissa base whole ⟨whole, []⟩
  | point {whole fraction : List Char} (some : whole ≠ [] ∨ fraction ≠ [])
      (before : ∀ char, char ∈ whole → base.isDigit char = true)
      (behind : ∀ char, char ∈ fraction → base.isDigit char = true) :
      Mantissa base (whole ++ '.' :: fraction) ⟨whole, fraction⟩

/-- A sign, and whether it is a minus. -/
inductive Sign : List Char → Bool → Prop where
  | none : Sign [] false
  | plus : Sign ['+'] false
  | minus : Sign ['-'] true

/-- Nothing, or an exponent of decimal digits with a mark and perhaps a sign. -/
inductive Scale (base : Base) : List Char → Int → Prop where
  | none : Scale base [] 0
  | written {mark : Char} {sign digits : List Char} {negative : Bool}
      (marked : mark ∈ base.marks) (signed : Sign sign negative) (some : digits ≠ [])
      (decimal : ∀ char, char ∈ digits → char.isDigit = true) :
      Scale base (mark :: (sign ++ digits))
        (if negative then -(Nat.ofDigitChars 10 digits 0 : Int) else Nat.ofDigitChars 10 digits 0)

/-- A numeral, its digits and its exponent. -/
inductive Numeral (base : Base) : List Char → Digits → Int → Prop where
  | intro {mantissa scale : List Char} {digits : Digits} {exponent : Int}
      (first : base.Mantissa mantissa digits) (later : base.Scale scale exponent) :
      Numeral base (mantissa ++ scale) digits exponent

/-! ### Digits with a point -/

section Mantissa

variable {base : Base} {text rest whole behind : List Char}

private theorem point_or_stops (text : List Char) :
    (∃ behind, text = '.' :: behind) ∨ Stops (· == '.') text := by
  cases text with
  | nil => exact Or.inr (stops_nil _)
  | cons char rest =>
      by_cases point : char = '.'
      · exact Or.inl ⟨rest, by rw [point]⟩
      · exact Or.inr (stops_cons (by simpa using point))

private theorem splitDigits?_of_point
    (split : text.span base.isDigit = (whole, '.' :: behind)) :
    splitDigits? base.isDigit text =
      if whole = [] ∧ behind.takeWhile base.isDigit = [] then none
      else some (⟨whole, behind.takeWhile base.isDigit⟩, behind.dropWhile base.isDigit) := by
  unfold splitDigits?
  rw [split]
  simp only [List.span_eq_takeWhile_dropWhile, Bool.and_eq_true, List.isEmpty_iff]

private theorem splitDigits?_of_stops (split : text.span base.isDigit = (whole, rest))
    (stops : Stops (· == '.') rest) :
    splitDigits? base.isDigit text = if whole = [] then none else some (⟨whole, []⟩, rest) := by
  unfold splitDigits?
  rw [split]
  dsimp only
  split
  case h_1 behind =>
    exact absurd (stops '.' behind rfl) (by decide)
  case h_2 => simp only [List.isEmpty_iff]

theorem splitDigits?_sound {digits : Digits}
    (split : splitDigits? base.isDigit text = some (digits, rest)) :
    ∃ mantissa, text = mantissa ++ rest ∧ base.Mantissa mantissa digits := by
  have span := List.span_eq_takeWhile_dropWhile base.isDigit text
  have joined := List.takeWhile_append_dropWhile (p := base.isDigit) (l := text)
  have allDigits (chars : List Char) (char : Char)
      (member : char ∈ chars.takeWhile base.isDigit) : base.isDigit char = true :=
    List.mem_takeWhile_imp member
  rcases point_or_stops (text.dropWhile base.isDigit) with ⟨behind, point⟩ | stops
  · rw [point] at span joined
    rw [splitDigits?_of_point span] at split
    split at split
    case isTrue => cases split
    case isFalse some =>
      cases split
      refine ⟨_, ?_, .point (by tauto) (allDigits text) (allDigits behind)⟩
      rw [List.append_assoc, List.cons_append, List.takeWhile_append_dropWhile, joined]
  · rw [splitDigits?_of_stops span stops] at split
    split at split
    case isTrue => cases split
    case isFalse some =>
      cases split
      exact ⟨_, joined.symm, .whole some (allDigits text)⟩

variable {mantissa : List Char} {digits : Digits} (written : base.Mantissa mantissa digits)

include written

/-- Digits are found where a numeral begins, and what is left is no longer than what follows
the digits of the numeral. -/
theorem exists_splitDigits? (rest : List Char) : ∃ found left,
    splitDigits? base.isDigit (mantissa ++ rest) = some (found, left) ∧
      left.length ≤ rest.length := by
  have shorter (text : List Char) : (text.dropWhile base.isDigit).length ≤ text.length :=
    (List.dropWhile_suffix _).length_le
  cases written with
  | whole some digits =>
      have span : (mantissa ++ rest).span base.isDigit = _ := span_append digits
      have notEmpty : mantissa ++ rest.takeWhile base.isDigit ≠ [] :=
        List.append_ne_nil_of_left_ne_nil some _
      have all := shorter rest
      rcases point_or_stops (rest.dropWhile base.isDigit) with ⟨behind, point⟩ | stops
      · rw [point] at span all
        rw [splitDigits?_of_point span, if_neg (by tauto)]
        have later := shorter behind
        rw [List.length_cons] at all
        exact ⟨_, _, rfl, by omega⟩
      · rw [splitDigits?_of_stops span stops, if_neg notEmpty]
        exact ⟨_, _, rfl, all⟩
  | @point whole fraction some before behind =>
      have stops : Stops base.isDigit ('.' :: (fraction ++ rest)) := stops_cons base.pointApart
      rw [List.append_assoc, List.cons_append,
        splitDigits?_of_point (span_append_of_stops before stops),
        List.takeWhile_append_of_pos behind, List.dropWhile_append_of_pos behind, if_neg]
      · exact ⟨_, _, rfl, shorter rest⟩
      · rintro ⟨noWhole, noFraction⟩
        exact some.elim (absurd noWhole) (absurd (List.append_eq_nil_iff.mp noFraction).1)

theorem splitDigits?_append (digit : Stops base.isDigit rest) (point : Stops (· == '.') rest) :
    splitDigits? base.isDigit (mantissa ++ rest) = some (digits, rest) := by
  cases written with
  | whole some digits =>
      rw [splitDigits?_of_stops (span_append_of_stops digits digit) point, if_neg some]
  | @point whole fraction some before behind =>
      have stops : Stops base.isDigit ('.' :: (fraction ++ rest)) := stops_cons base.pointApart
      have later := span_append_of_stops behind digit
      rw [List.span_eq_takeWhile_dropWhile, Prod.mk.injEq] at later
      rw [List.append_assoc, List.cons_append,
        splitDigits?_of_point (span_append_of_stops before stops), later.1, later.2,
        if_neg (by tauto)]

end Mantissa

/-! ### Signs and exponents -/

section Scale

variable {base : Base}

def isSign (char : Char) : Bool := char == '-' || char == '+'

theorem isSign_of_isDigit {char : Char} (digit : char.isDigit = true) : isSign char = false := by
  rw [isSign, Bool.or_eq_false_iff, beq_eq_false_iff_ne, beq_eq_false_iff_ne]
  constructor
  · rintro rfl
    cases digit
  · rintro rfl
    cases digit

/-- A sign is split off, if there is one. -/
theorem splitSign_sound (text : List Char) : ∃ sign, text = sign ++ (splitSign text).2 ∧
    Sign sign (splitSign text).1 ∧ (sign = [] → Stops isSign (splitSign text).2) := by
  unfold splitSign
  split
  case h_1 rest => exact ⟨['-'], rfl, .minus, fun impossible => by cases impossible⟩
  case h_2 rest => exact ⟨['+'], rfl, .plus, fun impossible => by cases impossible⟩
  case h_3 noMinus noPlus =>
    refine ⟨[], rfl, .none, fun _ char rest same => ?_⟩
    rw [isSign, Bool.or_eq_false_iff, beq_eq_false_iff_ne, beq_eq_false_iff_ne]
    constructor
    · rintro rfl
      exact noMinus rest same
    · rintro rfl
      exact noPlus rest same

theorem splitSign_append {sign rest : List Char} {negative : Bool} (signed : Sign sign negative)
    (noSign : sign = [] → Stops isSign rest) : splitSign (sign ++ rest) = (negative, rest) := by
  cases signed with
  | minus => rfl
  | plus => rfl
  | none =>
      rw [List.nil_append]
      unfold splitSign
      split
      case h_1 behind => exact absurd (noSign rfl '-' behind rfl) (by decide)
      case h_2 behind => exact absurd (noSign rfl '+' behind rfl) (by decide)
      case h_3 => rfl

/-- How a text begins that has an exponent in front. -/
private theorem splitExponent_cons {mark : Char} (marked : mark ∈ base.marks) (behind : List Char) :
    splitExponent base.marks (mark :: behind) =
      if (splitSign behind).2.takeWhile Char.isDigit = [] then (0, mark :: behind)
      else
        (if (splitSign behind).1 then
            -(Nat.ofDigitChars 10 ((splitSign behind).2.takeWhile Char.isDigit) 0 : Int)
          else Nat.ofDigitChars 10 ((splitSign behind).2.takeWhile Char.isDigit) 0,
          (splitSign behind).2.dropWhile Char.isDigit) := by
  unfold splitExponent
  simp only [List.contains_eq_mem, marked, List.span_eq_takeWhile_dropWhile, List.isEmpty_iff,
    decide_true, if_true]

private theorem splitExponent_of_stops {text : List Char}
    (stops : Stops base.marks.contains text) : splitExponent base.marks text = (0, text) := by
  cases text with
  | nil => rfl
  | cons char rest =>
      unfold splitExponent
      dsimp only
      rw [stops char rest rfl, if_neg Bool.false_ne_true]

private theorem marked_or_stops (base : Base) (text : List Char) :
    (∃ mark behind, text = mark :: behind ∧ mark ∈ base.marks) ∨
      Stops base.marks.contains text := by
  cases text with
  | nil => exact Or.inr (stops_nil _)
  | cons char rest =>
      by_cases marked : char ∈ base.marks
      · exact Or.inl ⟨char, rest, rfl, marked⟩
      · exact Or.inr (stops_cons (by simpa using marked))

variable (base) in
theorem splitExponent_sound (text : List Char) :
    ∃ scale, text = scale ++ (splitExponent base.marks text).2 ∧
      base.Scale scale (splitExponent base.marks text).1 := by
  rcases marked_or_stops base text with ⟨mark, behind, rfl, marked⟩ | stops
  · rw [splitExponent_cons marked]
    split
    case isTrue => exact ⟨[], rfl, .none⟩
    case isFalse some =>
      obtain ⟨sign, begins, signed, _⟩ := splitSign_sound behind
      refine ⟨_, ?_, .written marked signed some fun char member => List.mem_takeWhile_imp member⟩
      rw [List.cons_append, List.append_assoc, List.takeWhile_append_dropWhile, ← begins]
  · rw [splitExponent_of_stops stops]
    exact ⟨[], rfl, .none⟩

theorem length_splitExponent_le (text : List Char) :
    (splitExponent base.marks text).2.length ≤ text.length := by
  obtain ⟨scale, begins, _⟩ := splitExponent_sound base text
  have joined := congrArg List.length begins
  rw [List.length_append] at joined
  omega

private theorem splitSign_of_digits {sign digits : List Char} {negative : Bool}
    (signed : Sign sign negative) (some : digits ≠ [])
    (decimal : ∀ char, char ∈ digits → char.isDigit = true) (rest : List Char) :
    splitSign (sign ++ (digits ++ rest)) = (negative, digits ++ rest) := by
  cases digits with
  | nil => exact absurd rfl some
  | cons first digits =>
      have digit := decimal first (List.mem_cons_self ..)
      exact splitSign_append signed fun _ => stops_cons (isSign_of_isDigit digit)

variable {scale : List Char} {exponent : Int} (written : base.Scale scale exponent)

include written

/-- An exponent in front is taken, perhaps with digits that follow it. -/
theorem length_splitExponent_append_le (rest : List Char) :
    (splitExponent base.marks (scale ++ rest)).2.length ≤ rest.length := by
  cases written with
  | none => exact length_splitExponent_le rest
  | @written mark sign digits negative marked signed some decimal =>
      rw [List.cons_append, List.append_assoc, splitExponent_cons marked,
        splitSign_of_digits signed some decimal, List.takeWhile_append_of_pos decimal,
        List.dropWhile_append_of_pos decimal,
        if_neg (List.append_ne_nil_of_left_ne_nil some _)]
      exact (List.dropWhile_suffix _).length_le

theorem splitExponent_eq : splitExponent base.marks scale = (exponent, []) := by
  cases written with
  | none => rfl
  | @written mark sign digits negative marked signed some decimal =>
      have split := splitSign_of_digits signed some decimal []
      rw [List.append_nil] at split
      rw [splitExponent_cons marked, split, List.takeWhile_eq_self_iff.mpr decimal,
        List.dropWhile_eq_nil_iff.mpr decimal, if_neg some]

end Scale

/-! ### Whole numerals -/

section Numeral

variable {base : Base}

/-- What is a numeral with some digits and some exponent. -/
def IsNumeral (base : Base) (text : List Char) : Prop :=
  ∃ digits exponent, base.Numeral text digits exponent

private theorem scale_stops {scale : List Char} {exponent : Int} (written : base.Scale scale exponent)
    (some : scale ≠ []) (rest : List Char) :
    Stops base.isDigit (scale ++ rest) ∧ Stops (· == '.') (scale ++ rest) := by
  cases written with
  | none => exact absurd rfl some
  | written marked _ _ _ =>
      exact ⟨stops_cons (isDigit_mark marked), stops_cons (by simpa using mark_ne_point marked)⟩

/-- A numeral that is the whole text is read with its own digits and its own exponent. -/
theorem splitDigits?_of_numeral {text : List Char} {digits : Digits} {exponent : Int}
    (numeral : base.Numeral text digits exponent) :
    ∃ scale, splitDigits? base.isDigit text = some (digits, scale) ∧
      splitExponent base.marks scale = (exponent, []) := by
  cases numeral with
  | @intro mantissa scale _ _ first later =>
      refine ⟨scale, ?_, splitExponent_eq later⟩
      by_cases none : scale = []
      · rw [none]
        exact splitDigits?_append first (stops_nil _) (stops_nil _)
      · have stops := scale_stops later none []
        rw [List.append_nil] at stops
        exact splitDigits?_append first stops.1 stops.2

/-- A text is a numeral in one way only. -/
theorem Numeral.unique {text : List Char} {digits digits' : Digits} {exponent exponent' : Int}
    (first : base.Numeral text digits exponent) (second : base.Numeral text digits' exponent') :
    digits = digits' ∧ exponent = exponent' := by
  obtain ⟨scale, split, scaled⟩ := splitDigits?_of_numeral first
  obtain ⟨scale', split', scaled'⟩ := splitDigits?_of_numeral second
  rw [split] at split'
  cases split'
  rw [scaled] at scaled'
  cases scaled'
  exact ⟨rfl, rfl⟩

/-- What follows the digits that are split off, and the exponent there, is no longer than what
follows any numeral at the beginning. -/
private theorem exists_split_of_numeral {chosen : List Char} (numeral : base.IsNumeral chosen)
    (rest : List Char) : ∃ digits left,
      splitDigits? base.isDigit (chosen ++ rest) = some (digits, left) ∧
        (splitExponent base.marks left).2.length ≤ rest.length := by
  obtain ⟨digits, exponent, numeral⟩ := numeral
  cases numeral with
  | @intro mantissa scale _ _ first later =>
      rw [List.append_assoc]
      by_cases none : scale = []
      · obtain ⟨found, left, split, shorter⟩ := exists_splitDigits? first (scale ++ rest)
        rw [none, List.nil_append] at split shorter ⊢
        exact ⟨found, left, split, (length_splitExponent_le left).trans shorter⟩
      · have stops := scale_stops later none rest
        exact ⟨_, _, splitDigits?_append first stops.1 stops.2,
          length_splitExponent_append_le later rest⟩

variable (base) in
theorem not_isNumeral_of_splitDigits? {text : List Char}
    (none : splitDigits? base.isDigit text = none) (chosen : List Char)
    (begins : chosen <+: text) : ¬ base.IsNumeral chosen := by
  intro numeral
  obtain ⟨rest, rfl⟩ := begins
  obtain ⟨_, _, split, _⟩ := exists_split_of_numeral numeral rest
  rw [none] at split
  cases split

variable (base) in
/-- The reader splits off the longest numeral. -/
theorem exists_longest {text left : List Char} {digits : Digits}
    (split : splitDigits? base.isDigit text = some (digits, left)) : ∃ chosen,
      Longest base.IsNumeral chosen text ∧
        base.Numeral chosen digits (splitExponent base.marks left).1 := by
  obtain ⟨mantissa, begins, first⟩ := splitDigits?_sound split
  obtain ⟨scale, continues, later⟩ := splitExponent_sound base left
  have whole : text = mantissa ++ scale ++ (splitExponent base.marks left).2 := by
    rw [List.append_assoc, ← continues, ← begins]
  refine ⟨mantissa ++ scale, ⟨⟨_, _, .intro first later⟩, ⟨_, whole.symm⟩, ?_⟩,
    .intro first later⟩
  intro other otherBegins numeral
  obtain ⟨rest, same⟩ := otherBegins
  obtain ⟨_, _, split', shorter⟩ := exists_split_of_numeral numeral rest
  rw [same, split] at split'
  cases split'
  have lengths := congrArg List.length (same.trans whole)
  rw [List.length_append, List.length_append] at lengths
  omega

theorem splitDigits?_of_longest {text chosen : List Char} {digits : Digits} {exponent : Int}
    (longest : Longest base.IsNumeral chosen text)
    (numeral : base.Numeral chosen digits exponent) : ∃ left,
      splitDigits? base.isDigit text = some (digits, left) ∧
        (splitExponent base.marks left).1 = exponent := by
  cases split : splitDigits? base.isDigit text with
  | none => exact absurd longest.form (not_isNumeral_of_splitDigits? base split _ longest.begins)
  | some found =>
      obtain ⟨chosen', longest', numeral'⟩ := exists_longest base split
      rw [longest'.unique longest] at numeral'
      obtain ⟨same, exponents⟩ := numeral'.unique numeral
      exact ⟨found.2, by rw [← same], exponents⟩

end Numeral
end Base
end Reading
end ScriptCore.Number
