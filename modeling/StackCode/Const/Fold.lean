import StackCode.Const
import StackCode.Operator

/-!
# Constant folding

Operators applied to constants.  A binary operation is carried out in the widest
kind among its operands, in the order int, long, float, double; the distance of
a shift takes no part in that.  Integral division by zero does not fold.
Addition of a string joins the texts of both operands.
-/

namespace StackCode

/-- The kind in which an arithmetic operation is carried out. -/
inductive NumericKind where
  | int
  | long
  | float
  | double
  deriving DecidableEq, Repr, Inhabited

namespace NumericKind

/-- The position of a kind in the order of widening. -/
def rank : NumericKind → Nat
  | int => 0
  | long => 1
  | float => 2
  | double => 3

/-- The wider of two kinds. -/
def promote (left right : NumericKind) : NumericKind :=
  if left.rank ≤ right.rank then right else left

/-- The kind to which a single numeric constant is promoted. -/
def ofConst? : Const → Option NumericKind
  | .byte _ => some int
  | .short _ => some int
  | .char _ => some int
  | .int _ => some int
  | .long _ => some long
  | .float _ => some float
  | .double _ => some double
  | _ => none

end NumericKind

namespace Const

/-! ## Promotion of operands -/

/-- An integral constant as a long integer. -/
def long? : Const → Option Int64
  | long value => some value
  | other => other.switchKey?.map Int32.toInt64

/-- A numeric constant in single precision. -/
def single? : Const → Option Float32
  | float value => some value
  | long value => some value.toFloat32
  | other => other.switchKey?.map Int32.toFloat32

/-- A numeric constant in double precision. -/
def double? : Const → Option Float
  | double value => some value
  | float value => some value.toFloat
  | long value => some value.toFloat
  | other => other.switchKey?.map Int32.toFloat

/-! ## Operations of each kind -/

/--
Apply an operator to two words of the same width.  Shifts and the logical
operators are not among its cases.
-/
def foldWords
    (const : BitVec width → Const)
    (op : BinaryOp)
    (left right : BitVec width) :
    Option Const :=
  match op with
  | .add => some (const (left + right))
  | .sub => some (const (left - right))
  | .mul => some (const (left * right))
  | .div => if right = 0 then none else some (const (left.sdiv right))
  | .rem => if right = 0 then none else some (const (left.srem right))
  | .bitAnd => some (const (left &&& right))
  | .bitOr => some (const (left ||| right))
  | .bitXor => some (const (left ^^^ right))
  | .eq => some (boolean (left == right))
  | .ne => some (boolean (left != right))
  | .lt => some (boolean (left.slt right))
  | .le => some (boolean (left.sle right))
  | .gt => some (boolean (right.slt left))
  | .ge => some (boolean (right.sle left))
  | _ => none

/-- Apply an operator to two integers. -/
def foldInt (op : BinaryOp) (left right : Int32) : Option Const :=
  foldWords (fun bits => int (.ofBitVec bits)) op left.toBitVec right.toBitVec

/-- Apply an operator to two long integers. -/
def foldLong (op : BinaryOp) (left right : Int64) : Option Const :=
  foldWords (fun bits => long (.ofBitVec bits)) op left.toBitVec right.toBitVec

/-- Apply an operator to two single-precision values. -/
def foldSingle (op : BinaryOp) (left right : Float32) : Option Const :=
  match op with
  | .add => some (float (left + right))
  | .sub => some (float (left - right))
  | .mul => some (float (left * right))
  | .div => some (float (left / right))
  | .rem => some (float (Decimal.remainderSingle left right))
  | .eq => some (boolean (left == right))
  | .ne => some (boolean (left != right))
  | .lt => some (boolean (left < right))
  | .le => some (boolean (left ≤ right))
  | .gt => some (boolean (right < left))
  | .ge => some (boolean (right ≤ left))
  | _ => none

/-- Apply an operator to two double-precision values. -/
def foldDouble (op : BinaryOp) (left right : Float) : Option Const :=
  match op with
  | .add => some (double (left + right))
  | .sub => some (double (left - right))
  | .mul => some (double (left * right))
  | .div => some (double (left / right))
  | .rem => some (double (Decimal.remainder left right))
  | .eq => some (boolean (left == right))
  | .ne => some (boolean (left != right))
  | .lt => some (boolean (left < right))
  | .le => some (boolean (left ≤ right))
  | .gt => some (boolean (right < left))
  | .ge => some (boolean (right ≤ left))
  | _ => none

/-- Apply an operator to two truth values. -/
def foldBool (op : BinaryOp) (left right : Bool) : Option Const :=
  match op with
  | .and => some (boolean (left && right))
  | .bitAnd => some (boolean (left && right))
  | .or => some (boolean (left || right))
  | .bitOr => some (boolean (left || right))
  | .bitXor => some (boolean (left != right))
  | .ne => some (boolean (left != right))
  | .eq => some (boolean (left == right))
  | _ => none

/-- Shift a word; the distance counts modulo the width. -/
def shiftWord (op : BinaryOp) (value : BitVec width) (distance : Int64) : BitVec width :=
  let masked := distance.toBitVec.toNat % width
  match op with
  | .shl => value <<< masked
  | .shr => value.sshiftRight masked
  | _ => value >>> masked

/-- Shift one integral constant by another; the width is that of the shifted one. -/
def foldShift (op : BinaryOp) (left right : Const) : Option Const := do
  let distance ← right.long?
  match ← NumericKind.ofConst? left with
  | .int => return int (.ofBitVec (shiftWord op (← left.switchKey?).toBitVec distance))
  | .long => return long (.ofBitVec (shiftWord op (← left.long?).toBitVec distance))
  | _ => none

/-! ## Concatenation -/

/-- Concatenation spells the infinities out. -/
def concatNames : Decimal.SpecialNames := { nan := "NaN", infinity := "Infinity" }

/-- The text of a floating-point value in a concatenation. -/
def floatText (shape : Decimal.Shape) : String :=
  shape.write concatNames fun negative decimal =>
    Decimal.computerisedText (Decimal.powerForm negative decimal)

/-- What a constant contributes to a concatenation; half of a surrogate pair contributes nothing. -/
def concatText : Const → String
  | string value => value
  | char unit => ((unitChar? unit).map fun character => String.ofList [character]).getD ""
  | long value => toString value.toInt
  | float value => floatText (.ofSingle value)
  | double value => floatText (.ofDouble value)
  | other => other.text

/-! ## Folding -/

/-- Apply an operator to two numeric constants in their common kind. -/
def foldNumeric (op : BinaryOp) (left right : Const) : Option Const := do
  match NumericKind.promote (← NumericKind.ofConst? left) (← NumericKind.ofConst? right) with
  | .int => foldInt op (← left.switchKey?) (← right.switchKey?)
  | .long => foldLong op (← left.long?) (← right.long?)
  | .float => foldSingle op (← left.single?) (← right.single?)
  | .double => foldDouble op (← left.double?) (← right.double?)

/-- The value of a binary operation on constants, if it has one at compile time. -/
def foldBinary (op : BinaryOp) (left right : Const) : Option Const :=
  if op = .add ∧ (left.string?.isSome ∨ right.string?.isSome) then
    some (string (left.concatText ++ right.concatText))
  else
    match left.bool?, right.bool? with
    | some first, some second => foldBool op first second
    | _, _ => if op.isShift then foldShift op left right else foldNumeric op left right

/-- The value of a unary operation on a constant, if it has one at compile time. -/
def foldUnary (op : UnaryOp) (value : Const) : Option Const :=
  match op with
  | .not => value.bool?.map fun truth => boolean !truth
  | .plus => do
    match ← NumericKind.ofConst? value with
    | .int => return int (← value.switchKey?)
    | _ => return value
  | .neg => do
    match ← NumericKind.ofConst? value with
    | .int => return int (-(← value.switchKey?))
    | .long => return long (-(← value.long?))
    | .float => return float (-(← value.single?))
    | .double => return double (-(← value.double?))
  | .bitNot => do
    match ← NumericKind.ofConst? value with
    | .int => return int (~~~(← value.switchKey?))
    | .long => return long (~~~(← value.long?))
    | _ => none

end Const

end StackCode
