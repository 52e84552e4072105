import ScriptCore.Number.Power

set_option autoImplicit false

/-! What the sixty-four bits of a double stand for, and rounding to a double.

Every finite double is a whole number of units of `2 ^ -1074`, so exact values
are natural numbers here and no fraction needs a type of its own. -/

namespace ScriptCore.Number

/-- The whole number nearest to `numerator / denominator`; halfway it is the even
neighbour. -/
def divNearest (numerator denominator : Nat) : Nat :=
  let below := numerator / denominator
  let rest := numerator % denominator
  if 2 * rest < denominator then below
  else if 2 * rest = denominator ∧ below % 2 = 0 then below
  else below + 1

/-- The value of a double. A finite value carries its sign, so that there are two
zeros, and its size in units of `2 ^ -1074`. -/
inductive Binary64 where
  | nan
  | infinite (negative : Bool)
  | finite (negative : Bool) (units : Nat)
  deriving DecidableEq, Repr

namespace Binary64

/-- Units in the number one. -/
def unitsPerOne : Nat := twoTo 1074

/-- Units in the first power of two that is too large for a finite double. -/
def unitsLimit : Nat := twoTo 2098

/-- Doubles near `units` lie `2 ^ spacing units` units apart: fifty-three binary
digits are kept, and near zero a single unit is the finest step. -/
def spacing (units : Nat) : Nat := units.log2 - 52

def zero : Binary64 := .finite false 0

def negate : Binary64 → Binary64
  | .nan => .nan
  | .infinite negative => .infinite (!negative)
  | .finite negative units => .finite (!negative) units

/-! ### Bits -/

def ofFloat (number : Float) : Binary64 :=
  let bits := number.toBits.toNat
  let negative := bits / twoTo 63 == 1
  let exponent := bits / twoTo 52 % twoTo 11
  let fraction := bits % twoTo 52
  if exponent = twoTo 11 - 1 then
    if fraction = 0 then .infinite negative else .nan
  else if exponent = 0 then .finite negative fraction
  else .finite negative ((twoTo 52 + fraction) * twoTo (exponent - 1))

/-- A double from its sign and its other sixty-three bits. -/
def floatOfFields (negative : Bool) (rest : Nat) : Float :=
  Float.ofBits (UInt64.ofNat ((if negative then twoTo 63 else 0) + rest))

/-- The double itself. The leading digit of a large value adds one to the exponent
field, which is where the bits leave it out. -/
def toFloat : Binary64 → Float
  | .nan => floatOfFields false (twoTo 63 - twoTo 51)
  | .infinite negative => floatOfFields negative (twoTo 63 - twoTo 52)
  | .finite negative units =>
      let places := spacing units
      floatOfFields negative (places * twoTo 52 + units / twoTo places)

/-! ### Rounding -/

/-- The double nearest to a fraction, halfway the one whose last binary digit is
even. A fraction that rounds past the largest finite double is infinite. -/
def ofFraction (numerator denominator : Nat) : Binary64 :=
  let scaled := numerator * unitsPerOne
  let places := spacing (scaled / denominator)
  let units := divNearest scaled (denominator * twoTo places) * twoTo places
  if units < unitsLimit then .finite false units else .infinite false

/-- The double nearest to `coefficient * 10 ^ exponent`. Far outside the range of
doubles the answer is known without the power. -/
def ofDecimal (coefficient : Nat) (exponent : Int) : Binary64 :=
  if coefficient = 0 then zero
  else if 310 < exponent then .infinite false
  else if exponent + coefficient.log2 < -400 then zero
  else ofFraction (coefficient * tenTo exponent.toNat) (tenTo (-exponent).toNat)

/-- Fifty-three leading binary digits of a whole number, rounded to nearest. -/
def roundWhole (number : Nat) : Nat :=
  let places := spacing number
  divNearest number (twoTo places) * twoTo places

end Binary64
end ScriptCore.Number
