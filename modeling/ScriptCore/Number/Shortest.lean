import ScriptCore.Number.Binary64

set_option autoImplicit false

/-! The shortest decimal that reads back as a given double, computed exactly.

The decimals with last place `10 ^ place` form a grid. The coarsest grid with a
point among the numbers that round to the double gives the fewest digits, and if
that grid has several such points the one nearest to the double is taken. -/

namespace ScriptCore.Number

/-- The number `coefficient * 10 ^ place`. -/
structure Decimal where
  coefficient : Nat
  place : Int
  deriving DecidableEq, Repr

namespace Shortest

/-- The numbers that round to one double, in quarters of a unit. -/
structure Basin where
  low : Nat
  centre : Nat
  high : Nat
  /-- Whether the ends belong to it: they do when the double's last digit is even. -/
  closed : Bool
  deriving Repr

/-- Half way to each neighbour. Below a power of two the doubles lie twice as
close, until they are one unit apart. -/
def basin (units : Nat) : Basin :=
  let places := Binary64.spacing units
  let gap := twoTo places
  let gapBelow := if units = twoTo (places + 52) ∧ 0 < places then gap else 2 * gap
  ⟨4 * units - gapBelow, 4 * units, 4 * units + 2 * gap, (units / gap) % 2 == 0⟩

/-- Whether `left` comes before `right`, or meets it where the ends belong. -/
def reaches (closed : Bool) (left right : Nat) : Bool :=
  if closed then decide (left ≤ right) else decide (left < right)

/-- The point of one grid that lies in the basin nearest to its centre; of two
that are equally near, the larger. -/
def nearestPoint? (area : Basin) (place : Int) : Option Decimal :=
  let scale := tenTo (-place).toNat
  let step := 4 * Binary64.unitsPerOne * tenTo place.toNat
  let centre := area.centre * scale
  let below := centre / step
  let hasBelow := reaches area.closed (area.low * scale) (below * step)
  let hasAbove := reaches area.closed ((below + 1) * step) (area.high * scale)
  if hasBelow && (!hasAbove || decide (2 * (centre % step) < step)) then some ⟨below, place⟩
  else if hasAbove then some ⟨below + 1, place⟩
  else none

/-- The first hit on grids of falling place. The last grid holds every double. -/
def search (area : Basin) : Nat → Int → Decimal
  | 0, place => ⟨area.centre * tenTo (-place).toNat / (4 * Binary64.unitsPerOne), place⟩
  | grids + 1, place =>
      match nearestPoint? area place with
      | some decimal => decimal
      | none => search area grids (place - 1)

end Shortest

/-- The decimal with the fewest digits that rounds to `units`, and of those the
nearest. The search starts above the leading digit and ends on the grid of
`10 ^ -1074`. -/
def shortest (units : Nat) : Decimal :=
  if units = 0 then ⟨0, 0⟩
  else
    let start := (Nat.toDigits 10 (units / Binary64.unitsPerOne)).length
    Shortest.search (Shortest.basin units) (start + 1074) start

end ScriptCore.Number
