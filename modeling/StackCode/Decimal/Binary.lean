/-!
# Binary floating-point values

A finite value is an integer times a power of two.  This module decodes the two
interchange formats into that form, together with the half-gaps to the two
neighbouring values, and computes the exact remainder of a division.  Nothing
here depends on how a value is written.
-/

namespace StackCode
namespace Decimal

/-- A power of a base. -/
def power (base exponent : Nat) : Nat := base.pow exponent

/-- A finite value without its sign: `mantissa * 2 ^ exponent`. -/
structure Binary where
  /-- The integral significand. -/
  mantissa : Nat
  /-- The power of two that scales it. -/
  exponent : Int
  /-- The significand is the least one of a normal value, so the gap below is half the gap above. -/
  atBinade : Bool
  deriving DecidableEq, Repr, Inhabited

/-- The three shapes of a floating-point value. -/
inductive Shape where
  /-- Not a number. -/
  | nan
  /-- An infinity. -/
  | infinite (negative : Bool)
  /-- A finite value. -/
  | finite (negative : Bool) (magnitude : Binary)
  deriving DecidableEq, Repr, Inhabited

/-- Decode an interchange format with the given widths of fraction and exponent. -/
def Shape.decode (fractionBits exponentBits bits : Nat) : Shape :=
  let fraction := bits % power 2 fractionBits
  let biased := bits / power 2 fractionBits % power 2 exponentBits
  let negative := bits / power 2 (fractionBits + exponentBits) % 2 == 1
  let bias : Int := power 2 (exponentBits - 1) - 1 + fractionBits
  if biased = power 2 exponentBits - 1 then
    if fraction = 0 then .infinite negative else .nan
  else if biased = 0 then
    .finite negative { mantissa := fraction, exponent := 1 - bias, atBinade := false }
  else
    .finite negative
      { mantissa := power 2 fractionBits + fraction
        exponent := biased - bias
        atBinade := fraction == 0 }

/-- The shape of a double-precision value. -/
def Shape.ofDouble (value : Float) : Shape := .decode 52 11 value.toBits.toNat

/-- The shape of a single-precision value. -/
def Shape.ofSingle (value : Float32) : Shape := .decode 23 8 value.toBits.toNat

/-- Scale a significand from one power of two to a smaller one. -/
def Binary.scaled (value : Binary) (exponent : Int) : Nat :=
  value.mantissa * power 2 (value.exponent - exponent).toNat

/--
The remainder of a division whose quotient is truncated.  It is exact, and it
has the sign of the dividend.
-/
def remainder (dividend divisor : Float) : Float :=
  match Shape.ofDouble dividend, Shape.ofDouble divisor with
  | .finite negative numerator, .finite _ denominator =>
    if denominator.mantissa = 0 then 0.0 / 0.0
    else
      let exponent := min numerator.exponent denominator.exponent
      let rest := numerator.scaled exponent % denominator.scaled exponent
      let magnitude := (Float.ofNat rest).scaleB exponent
      if negative then -magnitude else magnitude
  | .finite _ _, .infinite _ => dividend
  | _, _ => 0.0 / 0.0

/-- The remainder in single precision; the exact one is always representable. -/
def remainderSingle (dividend divisor : Float32) : Float32 :=
  (remainder dividend.toFloat divisor.toFloat).toFloat32

end Decimal
end StackCode
