import ScriptCore.Number.Binary64
import ScriptCore.Text.Blank

set_option autoImplicit false

/-! Reading the longest numeric beginning of a text: blanks, a sign, and then an
infinity, a not-a-number, a hexadecimal or a decimal numeral. What follows the
numeral is not looked at. -/

namespace ScriptCore.Number

namespace Reading

/-! ### Parts of numerals -/

/-- An optional sign: whether it is a minus, and the text behind it. -/
def splitSign : List Char → Bool × List Char
  | '-' :: rest => (true, rest)
  | '+' :: rest => (false, rest)
  | rest => (false, rest)

def isHexDigit (char : Char) : Bool :=
  char.isDigit || (decide ('a' ≤ char) && decide (char ≤ 'f')) ||
    (decide ('A' ≤ char) && decide (char ≤ 'F'))

def hexDigitValue (char : Char) : Nat :=
  if char.isDigit then char.toNat - '0'.toNat
  else if 'a' ≤ char then char.toNat - 'a'.toNat + 10
  else char.toNat - 'A'.toNat + 10

/-- The digits of a numeral, before and behind its point. -/
structure Digits where
  whole : List Char
  fraction : List Char
  deriving DecidableEq, Repr

/-- The longest run of digits with at most one point in it, and the rest. A point
needs a digit on one side; a text that starts otherwise has no digits. -/
def splitDigits? (isDigit : Char → Bool) (text : List Char) : Option (Digits × List Char) :=
  let (whole, rest) := text.span isDigit
  match rest with
  | '.' :: behind =>
      let (fraction, rest) := behind.span isDigit
      if whole.isEmpty && fraction.isEmpty then none else some (⟨whole, fraction⟩, rest)
  | _ => if whole.isEmpty then none else some (⟨whole, []⟩, rest)

/-- A signed decimal exponent behind one of the given marks, and the rest. A mark
without digits is not part of the numeral. -/
def splitExponent (marks : List Char) (text : List Char) : Int × List Char :=
  match text with
  | mark :: behind =>
      if marks.contains mark then
        let (negative, unsigned) := splitSign behind
        let (digits, rest) := unsigned.span Char.isDigit
        if digits.isEmpty then (0, text)
        else
          let size : Int := Nat.ofDigitChars 10 digits 0
          (if negative then -size else size, rest)
      else (0, text)
  | [] => (0, [])

/-! ### Numerals -/

/-- Whether a text begins with a word, in small or capital letters of ASCII. -/
def startsWithWord (word text : List Char) : Bool :=
  (text.take word.length).map Char.toLower == word

def special? (text : List Char) : Option Binary64 :=
  if startsWithWord ['i', 'n', 'f'] text then some (.infinite false)
  else if startsWithWord ['n', 'a', 'n'] text then some .nan
  else none

/-- Hexadecimal digits as a double takes them in: each digit makes the value
sixteen times as large and adds itself, rounded to fifty-three binary digits. -/
def hexMantissa (digits : List Char) : Nat :=
  digits.foldl (fun value digit => Binary64.roundWhole (16 * value + hexDigitValue digit)) 0

/-- Binary exponents are held in thirty-two bits and stay at the end of their range that
they run against. -/
def lastExponent : Int := 2147483647

/-- The place of the last hexadecimal digit: four less for each digit behind the point, and
the written exponent added, each held in its range. -/
def heldPower (fractionDigits : Nat) (exponent : Int) : Int :=
  let point := max (-lastExponent - 1) (-4 * fractionDigits)
  let written := max (-lastExponent) (min lastExponent exponent)
  max (-lastExponent - 1) (point + written)

/-- The product of a whole double and a double power of two. From `2 ^ 1024` on a
whole number or a power is infinite, and a power below `2 ^ -1023` is zero, since
it is found as the inverse of an infinite one. -/
def scaleWhole (whole : Nat) (power : Int) : Binary64 :=
  if 1024 ≤ power then
    if whole = 0 then .nan else .infinite false
  else if power ≤ -1024 then
    if whole < twoTo 1024 then .zero else .nan
  else if whole < twoTo 1024 then
    .ofFraction (whole * twoTo power.toNat) (twoTo (-power).toNat)
  else .infinite false

/-- `0x` with hexadecimal digits and a binary exponent. Without digits behind it
the `x` is no part of the numeral, which then is the zero before it. -/
def hexadecimal? : List Char → Option Binary64
  | '0' :: mark :: text =>
      if mark = 'x' ∨ mark = 'X' then
        match splitDigits? isHexDigit text with
        | none => some .zero
        | some (digits, rest) =>
            let (exponent, _) := splitExponent ['p', 'P'] rest
            some (scaleWhole (hexMantissa (digits.whole ++ digits.fraction))
              (heldPower digits.fraction.length exponent))
      else none
  | _ => none

/-- Decimal digits and a decimal exponent, rounded once from the exact value. -/
def decimal? (text : List Char) : Option Binary64 :=
  (splitDigits? Char.isDigit text).map fun (digits, rest) =>
    let (exponent, _) := splitExponent ['e', 'E'] rest
    .ofDecimal (Nat.ofDigitChars 10 (digits.whole ++ digits.fraction) 0)
      (exponent - digits.fraction.length)

def magnitude? (text : List Char) : Option Binary64 :=
  special? text <|> hexadecimal? text <|> decimal? text

end Reading

/-- The number that a text begins with. A text that begins with no numeral reads
as zero, whatever its sign. -/
def read (text : List Char) : Binary64 :=
  let (negative, unsigned) := Reading.splitSign (text.dropWhile Text.isBlank)
  match Reading.magnitude? unsigned with
  | some magnitude => if negative then magnitude.negate else magnitude
  | none => .zero

end ScriptCore.Number
