import StackCode.Decimal.Shortest

/-!
# Layouts of decimals

Three ways to write a decimal.  The positional layout never uses an exponent and
writes an integral value without a point.  The power form always has an exponent.
The computerised layout always has a point with a digit on each side of it, and it
uses an exponent outside the range from a thousandth to ten million; it is made from
the power form.
-/

namespace StackCode
namespace Decimal
namespace Scientific

/-- Zeros that hold a place. -/
def zeros (count : Int) : List Char := List.replicate count.toNat '0'

/-- The digits split after the units, or `none` when there are too few of them. -/
def splitAtUnits? (decimal : Scientific) : Option (List Char × List Char) :=
  let whole := (decimal.exponent + 1).toNat
  if whole < decimal.digits.length then
    some (decimal.digits.take whole, decimal.digits.drop whole)
  else none

/-- All digits with place-holding zeros up to the units. -/
def wholeDigits (decimal : Scientific) : List Char :=
  decimal.digits ++ zeros (decimal.exponent + 1 - decimal.digits.length)

/-- A decimal below one, written with its leading zeros. -/
def belowOne (decimal : Scientific) : List Char :=
  ['0', '.'] ++ zeros (-decimal.exponent - 1) ++ decimal.digits

/-- Positional notation; an integral value has no point. -/
def positional (decimal : Scientific) : List Char :=
  if decimal.exponent < 0 then decimal.belowOne
  else
    match decimal.splitAtUnits? with
    | some (whole, fraction) => whole ++ ['.'] ++ fraction
    | none => decimal.wholeDigits

/-- The digits without the zeros at their end; nothing but zeros is a single zero. -/
def trimmed (decimal : Scientific) : Scientific :=
  match (decimal.digits.reverse.dropWhile (· == '0')).reverse with
  | [] => { decimal with digits := ['0'] }
  | digits => { decimal with digits }

/-- One digit, a point, the other digits or a zero, and the power of ten. -/
def exponential (decimal : Scientific) : List Char :=
  let fraction := if decimal.digits.tail.isEmpty then ['0'] else decimal.digits.tail
  decimal.digits.take 1 ++ ['.'] ++ fraction ++ ['E'] ++ (toString decimal.exponent).toList

/-- Decimal notation from a thousandth up to ten million, and an exponent outside that range. -/
def computerised (decimal : Scientific) : List Char :=
  let decimal := decimal.trimmed
  if decimal.exponent < -3 ∨ 7 ≤ decimal.exponent then decimal.exponential
  else if decimal.exponent < 0 then decimal.belowOne
  else
    match decimal.splitAtUnits? with
    | some (whole, fraction) => whole ++ ['.'] ++ fraction
    | none => decimal.wholeDigits ++ ['.', '0']

end Scientific

/-- Put a sign in front. -/
def signed (negative : Bool) (text : List Char) : String :=
  String.ofList (if negative then '-' :: text else text)

/-- Positional notation with a sign. -/
def positionalText (negative : Bool) (decimal : Scientific) : String :=
  signed negative decimal.positional

/-- One digit, a point if there are others, these others, and the power of ten: `-1.25e-4`. -/
def powerForm (negative : Bool) (decimal : Scientific) : String :=
  let digits := decimal.trimmed.digits
  let fraction := if digits.tail.isEmpty then [] else '.' :: digits.tail
  signed negative (digits.take 1 ++ fraction ++ 'e' :: (toString decimal.exponent).toList)

/-- The number that decimal digits spell. -/
def natural? (text : List Char) : Option Nat :=
  if text ≠ [] ∧ text.all Char.isDigit then some (Nat.ofDigitChars 10 text 0) else none

/-- The number that a text with an optional sign spells, if it has room in 32 bits. -/
def integer? (text : List Char) : Option Int :=
  let number : Option Int :=
    match text with
    | '-' :: digits => (natural? digits).map fun number => -number
    | '+' :: digits => (natural? digits).map fun number => number
    | digits => (natural? digits).map fun number => number
  number.filter fun number => -2147483648 ≤ number ∧ number ≤ 2147483647

/-- The sign and the decimal of a power form; a power that is absent or malformed is zero. -/
def ofPowerForm (text : String) : Bool × Scientific :=
  let (mantissa, power) := text.toList.span (· != 'e')
  let negative := mantissa.head? == some '-'
  let digits := (if negative then mantissa.tail else mantissa).filter (· != '.')
  (negative, { digits, exponent := (integer? power.tail).getD 0 })

/-- The computerised layout of a power form. -/
def computerisedText (text : String) : String :=
  let (negative, decimal) := ofPowerForm text
  signed negative decimal.computerised

/-- How the two infinities and the missing number are written. -/
structure SpecialNames where
  /-- The name of the value that is not a number. -/
  nan : String
  /-- The name of an infinity, without its sign. -/
  infinity : String

/-- Write a floating-point value with the given layout of its sign and its shortest decimal. -/
def Shape.write
    (names : SpecialNames)
    (layout : Bool → Scientific → String) :
    Shape → String
  | .nan => names.nan
  | .infinite negative => signed negative names.infinity.toList
  | .finite negative magnitude => layout negative magnitude.shortest

end Decimal
end StackCode
