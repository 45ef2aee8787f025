import StackCode.Decimal.Binary

/-!
# Shortest decimals

The shortest decimal of a binary value has the fewest significant digits among
the decimals that lie in the rounding interval of the value; of two such
decimals the nearer one is taken, and an exact tie goes up.  All arithmetic is
on natural numbers.
-/

namespace StackCode
namespace Decimal

/-- A decimal in scientific form: one digit, a point, the other digits, and a power of ten. -/
structure Scientific where
  /-- The significant digits, the leading one first. -/
  digits : List Char
  /-- The power of ten of the leading digit. -/
  exponent : Int
  deriving DecidableEq, Repr, Inhabited

/-- A value over the unit `10 ^ place`, with the half-gaps on its two sides over the same unit. -/
structure OnGrid where
  /-- The value is `numerator / denominator` units. -/
  numerator : Nat
  /-- The common denominator. -/
  denominator : Nat
  /-- Half the gap to the value below, over the same denominator. -/
  below : Nat
  /-- Half the gap to the value above, over the same denominator. -/
  above : Nat
  deriving DecidableEq, Repr, Inhabited

/-- Place a value on the grid of the multiples of `10 ^ place`. -/
def Binary.onGrid (value : Binary) (place : Int) : OnGrid :=
  let quarter := value.exponent - 2
  let factor := power 2 quarter.toNat * power 10 (-place).toNat
  { numerator := 4 * value.mantissa * factor
    denominator := power 2 (-quarter).toNat * power 10 place.toNat
    below := (if value.atBinade then 1 else 2) * factor
    above := 2 * factor }

/-- The multiple of the unit that stands for the value, if one lies in its rounding interval. -/
def OnGrid.hit? (grid : OnGrid) (inclusive : Bool) : Option Nat :=
  let quotient := grid.numerator / grid.denominator
  let rest := grid.numerator % grid.denominator
  let down := if inclusive then rest ≤ grid.below else rest < grid.below
  let up :=
    if inclusive then grid.denominator ≤ rest + grid.above else grid.denominator < rest + grid.above
  if up ∧ (¬down ∨ grid.denominator ≤ 2 * rest) then some (quotient + 1)
  else if down then some quotient
  else none

/-- Try one grid after the other, the coarse ones first. -/
def searchGrids (value : Binary) (inclusive : Bool) : Nat → Int → Nat × Int
  | 0, place => ((value.onGrid place).numerator / (value.onGrid place).denominator, place)
  | attempts + 1, place =>
    match (value.onGrid place).hit? inclusive with
    | some multiple => (multiple, place)
    | none => searchGrids value inclusive attempts (place - 1)

/-- A place above the leading digit of the value. -/
def Binary.leadingPlace (value : Binary) : Int :=
  Int.fdiv ((value.mantissa.log2 + 2 + value.exponent) * 30103) 100000 + 1

/-- The shortest decimal that stands for the value; seventeen digits always suffice. -/
def Binary.shortest (value : Binary) : Scientific :=
  if value.mantissa = 0 then { digits := ['0'], exponent := 0 }
  else
    let inclusive := value.mantissa % 2 == 0
    let (multiple, place) := searchGrids value inclusive 22 value.leadingPlace
    let digits := Nat.toDigits 10 multiple
    { digits, exponent := place + digits.length - 1 }

end Decimal
end StackCode
