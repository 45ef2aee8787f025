/-!
# Operators

The unary and binary operators of the expression language.
-/

namespace StackCode

/-- A unary operator. -/
inductive UnaryOp where
  | plus
  | neg
  | not
  | bitNot
  deriving DecidableEq, Repr, Inhabited

/-- A binary operator. -/
inductive BinaryOp where
  | add
  | sub
  | mul
  | div
  | rem
  | shl
  | shr
  | ushr
  | bitAnd
  | bitOr
  | bitXor
  | eq
  | ne
  | lt
  | le
  | gt
  | ge
  | and
  | or
  deriving DecidableEq, Repr, Inhabited

namespace BinaryOp

/-- The operator compares two values and yields a truth value. -/
def isComparison : BinaryOp → Bool
  | eq => true
  | ne => true
  | lt => true
  | le => true
  | gt => true
  | ge => true
  | _ => false

/-- The operator shifts its left operand. -/
def isShift : BinaryOp → Bool
  | shl => true
  | shr => true
  | ushr => true
  | _ => false

/-- The operator evaluates its right operand only if the left one leaves it open. -/
def isShortCircuit : BinaryOp → Bool
  | and => true
  | or => true
  | _ => false

/-- The name of an operator as it stands in error messages. -/
def text : BinaryOp → String
  | add => "Add"
  | sub => "Sub"
  | mul => "Mul"
  | div => "Div"
  | rem => "Rem"
  | shl => "Shl"
  | shr => "Shr"
  | ushr => "UShr"
  | bitAnd => "BitAnd"
  | bitOr => "BitOr"
  | bitXor => "BitXor"
  | eq => "Eq"
  | ne => "Ne"
  | lt => "Lt"
  | le => "Le"
  | gt => "Gt"
  | ge => "Ge"
  | and => "And"
  | or => "Or"

end BinaryOp

end StackCode
