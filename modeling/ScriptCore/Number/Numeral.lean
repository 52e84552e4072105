import ScriptCore.Number.Shortest

set_option autoImplicit false

/-! Written numbers: the shortest text that reads back, and text with a fixed
number of decimal places. -/

namespace ScriptCore.Number

/-- How the shortest digits of a number are set out. -/
structure Layout where
  /-- Whether a whole number ends in `.0`. -/
  marksWhole : Bool
  /-- The decimal places of the leading digit for which the number is written
  positionally, the last one excluded; without bounds every number is. -/
  positional : Option (Int × Int)

/-- Digits only, however many it takes. -/
def Layout.plain : Layout := ⟨false, none⟩

/-- Marked as a number that need not be whole, and in scientific form below
`10 ^ -4` and from `10 ^ 16` on. -/
def Layout.marked : Layout := ⟨true, some (-4, 16)⟩

namespace Numeral

/-- `coefficient * 10 ^ place` without an exponent. -/
def positional (marksWhole : Bool) (decimal : Decimal) : List Char :=
  let digits := Nat.toDigits 10 decimal.coefficient
  let fraction := (-decimal.place).toNat
  if fraction = 0 then
    digits ++ List.replicate decimal.place.toNat '0' ++ (if marksWhole then ['.', '0'] else [])
  else
    let padded := digits.leftpad (fraction + 1) '0'
    padded.take (padded.length - fraction) ++ '.' :: padded.drop (padded.length - fraction)

/-- The decimal place of the leading digit. -/
def leadingPlace (decimal : Decimal) : Int :=
  decimal.place + (Nat.toDigits 10 decimal.coefficient).length - 1

/-- One digit, the other digits behind a point, and a power of ten. -/
def scientific (decimal : Decimal) : List Char :=
  let exponent := (toString (leadingPlace decimal)).toList
  match Nat.toDigits 10 decimal.coefficient with
  | [] => []
  | [digit] => digit :: 'e' :: exponent
  | digit :: more => digit :: '.' :: more ++ 'e' :: exponent

def sign (negative : Bool) : List Char := if negative then ['-'] else []

end Numeral

/-- The shortest text of a number that reads back as the same number. -/
def write (layout : Layout) : Binary64 → List Char
  | .nan => ['N', 'a', 'N']
  | .infinite negative => Numeral.sign negative ++ ['i', 'n', 'f']
  | .finite negative units =>
      let decimal := shortest units
      let lead := Numeral.leadingPlace decimal
      let isPositional := match layout.positional with
        | none => true
        | some (first, limit) => units == 0 || decide (first ≤ lead) && decide (lead < limit)
      Numeral.sign negative ++
        if isPositional then Numeral.positional layout.marksWhole decimal
        else Numeral.scientific decimal

/-- A number with the given count of digits behind the point, rounded from its
exact value; halfway the last digit is even. -/
def writeFixed (places : Nat) : Binary64 → List Char
  | .nan => ['N', 'a', 'N']
  | .infinite negative => Numeral.sign negative ++ ['i', 'n', 'f']
  | .finite negative units =>
      let digits := Nat.toDigits 10 (divNearest (units * tenTo places) Binary64.unitsPerOne)
      let padded := digits.leftpad (places + 1) '0'
      Numeral.sign negative ++ padded.take (padded.length - places) ++
        '.' :: padded.drop (padded.length - places)

end ScriptCore.Number
