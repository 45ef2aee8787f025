import StackCode.Emit

/-!
# Code for expressions

An expression is emitted for its value or, with branch targets, as a condition.
A condition falls through into one of its targets and jumps to the other; the
caller binds both labels.
-/

namespace StackCode

/-- Where a condition goes. -/
structure BranchTargets where
  /-- Where control is when the condition holds. -/
  whenTrue : Label
  /-- Where control is when it does not. -/
  whenFalse : Label
  /-- The code falls through into `whenTrue`, and otherwise into `whenFalse`. -/
  fallsTrue : Bool
  deriving DecidableEq, Repr, Inhabited

namespace BranchTargets

/-- The same jumps for the opposite condition. -/
def inverted (targets : BranchTargets) : BranchTargets :=
  { whenTrue := targets.whenFalse, whenFalse := targets.whenTrue, fallsTrue := !targets.fallsTrue }

end BranchTargets

namespace Emit

/-! ## Selection of operations -/

/-- The operation of an arithmetic or bitwise operator on values of a kind. -/
def arithmetic? : BinaryOp → ValueKind → Option Opcode
  | .add, .int => some .iadd
  | .add, .long => some .ladd
  | .add, .float => some .fadd
  | .add, .double => some .dadd
  | .sub, .int => some .isub
  | .sub, .long => some .lsub
  | .sub, .float => some .fsub
  | .sub, .double => some .dsub
  | .mul, .int => some .imul
  | .mul, .long => some .lmul
  | .mul, .float => some .fmul
  | .mul, .double => some .dmul
  | .div, .int => some .idiv
  | .div, .long => some .ldiv
  | .div, .float => some .fdiv
  | .div, .double => some .ddiv
  | .rem, .int => some .irem
  | .rem, .long => some .lrem
  | .rem, .float => some .frem
  | .rem, .double => some .drem
  | .shl, .int => some .ishl
  | .shl, .long => some .lshl
  | .shr, .int => some .ishr
  | .shr, .long => some .lshr
  | .ushr, .int => some .iushr
  | .ushr, .long => some .lushr
  | .bitAnd, .int => some .iand
  | .bitAnd, .long => some .land
  | .bitOr, .int => some .ior
  | .bitOr, .long => some .lor
  | .bitXor, .int => some .ixor
  | .bitXor, .long => some .lxor
  | _, _ => none

/-- The operation that changes the kind of a primitive value; equal kinds need none. -/
def widen : ValueKind → ValueKind → List Opcode
  | .int, .long => [.i2l]
  | .int, .float => [.i2f]
  | .int, .double => [.i2d]
  | .long, .int => [.l2i]
  | .long, .float => [.l2f]
  | .long, .double => [.l2d]
  | .float, .int => [.f2i]
  | .float, .long => [.f2l]
  | .float, .double => [.f2d]
  | .double, .int => [.d2i]
  | .double, .long => [.d2l]
  | .double, .float => [.d2f]
  | _, _ => []

/-- The operation that cuts an integer down to a narrower type. -/
def narrow : Ty → List Opcode
  | .prim .byte => [.i2b]
  | .prim .char => [.i2c]
  | .prim .short => [.i2s]
  | _ => []

/-- The operations that convert a primitive value of a kind to a type. -/
def primitiveConversion (source : ValueKind) (target : Ty) : List Opcode :=
  widen source target.kind ++ narrow target

/-- The branch that is taken when a comparison of two integers holds. -/
def integerBranch : BinaryOp → Opcode
  | .eq => .ifIcmpeq
  | .ne => .ifIcmpne
  | .lt => .ifIcmplt
  | .le => .ifIcmple
  | .gt => .ifIcmpgt
  | _ => .ifIcmpge

/-- The branch that is taken when a comparison of an integer with zero holds. -/
def zeroBranch : BinaryOp → Opcode
  | .eq => .ifeq
  | .ne => .ifne
  | .lt => .iflt
  | .le => .ifle
  | .gt => .ifgt
  | _ => .ifge

/-- An unordered pair must make `<` and `≤` fail, so they compare with the other bias. -/
def isLess : BinaryOp → Bool
  | .lt => true
  | .le => true
  | _ => false

/-- The operation that replaces two values of a kind by the sign of their comparison. -/
def threeWay? (op : BinaryOp) : ValueKind → Option Opcode
  | .long => some .lcmp
  | .float => some (if isLess op then .fcmpg else .fcmpl)
  | .double => some (if isLess op then .dcmpg else .dcmpl)
  | _ => none

/-! ## Parts of expressions -/

/-- Push a literal; truth values and the null reference have operations of their own. -/
def pushLiteral : Const → Emit Unit
  | .boolean true => op .iconst1
  | .boolean false => op .iconst0
  | .null => op .aconstNull
  | other => push other

/-- Apply a conversion to a value of the given type. -/
def convert (source : Ty) : Conversion → Emit Unit
  | .box method => invoke method
  | .unbox method => invoke method
  | .cast target =>
    if target.isReference then checkCast target.erasure
    else (primitiveConversion source.kind target).forM op

/-- Apply a unary operator to a value of the given kind. -/
def applyUnary (kind : ValueKind) : UnaryOp → Emit Unit
  | .plus => return
  | .neg =>
    match kind with
    | .long => op .lneg
    | .float => op .fneg
    | .double => op .dneg
    | _ => op .ineg
  | .bitNot =>
    match kind with
    | .long => do
      push (.long (-1))
      op .lxor
    | _ => do
      pushInt (-1)
      op .ixor
  | .not => do
    op .iconst1
    op .ixor

/--
Compare two values that `pushLeft` and `pushRight` push, and return the branch
that is taken when the comparison holds.
-/
def compare
    (op : BinaryOp)
    (left right : Expr)
    (pushLeft pushRight : Emit Unit) :
    Emit Opcode := do
  match left.type.kind with
  | .reference =>
    pushLeft
    if right.constant?.any Const.isNull then
      return if op = .eq then .ifnull else .ifnonnull
    pushRight
    return if op = .eq then .ifAcmpeq else .ifAcmpne
  | kind =>
    pushLeft
    pushRight
    match threeWay? op kind with
    | some opcode =>
      Emit.op opcode
      return zeroBranch op
    | none => return integerBranch op

/-- Branch on what a comparison has left, with the branch that is taken when it holds. -/
def branchOn (opcode : Opcode) (targets : BranchTargets) : Emit Unit :=
  if targets.fallsTrue then
    match opcode.negate? with
    | some negated => jump negated targets.whenFalse
    | none => defect .unbranched
  else jump opcode targets.whenTrue

/-- Go to where a known condition leads, unless the code falls through to it. -/
def branchKnown (value : Bool) (targets : BranchTargets) : Emit Unit :=
  match value, targets.fallsTrue with
  | false, true => goto targets.whenFalse
  | true, false => goto targets.whenTrue
  | _, _ => return

/-- Turn a condition into a truth value on the stack. -/
def materialize (condition : BranchTargets → Emit Unit) : Emit Unit := do
  let whenTrue ← newLabel
  let whenFalse ← newLabel
  let done ← newLabel
  condition { whenTrue, whenFalse, fallsTrue := true }
  mark whenTrue
  op .iconst1
  goto done
  mark whenFalse
  op .iconst0
  mark done

/-- A binary operator other than a comparison or a logical one, on two pushed values. -/
def applyBinary (info : ExprInfo) (op : BinaryOp) (left : Expr) : Emit Unit :=
  let kind := if op.isShift then left.type.kind else info.type.kind
  match arithmetic? op kind with
  | some opcode => Emit.op opcode
  | none => throw (.unsupported (.operator op kind) info.span)

/-- Duplicate a value of a type, for an assignment whose value is used. -/
def duplicate (type : Ty) : Emit Unit :=
  if type.kind.width = 2 then op .dup2 else op .dup

/-- Create the function object of a compiled lambda. -/
def createClosure (function : Lambda) : Emit Unit := do
  match ← lambdaTarget? function.id with
  | some target =>
    target.receiver.forM loadRef
    emit (.closure target.method function.interface)
  | none => defect (.uncompiledLambda function.id)

/-- Push a value that the tree knows at compile time, or else compute it. -/
def pushKnown (info : ExprInfo) (compute : Emit Unit) : Emit Unit :=
  match info.constant with
  | some value => pushLiteral value
  | none => compute

/-- Apply the conversion of an expression to its value. -/
def applyConversion (info : ExprInfo) : Emit Unit :=
  info.conversion.forM (convert info.type)

/-- Push a receiver, or the receiver of the source if none is written. -/
def pushReceiver : Option (Emit Unit) → Emit Unit
  | some pushObject => pushObject
  | none => loadSelf

/-! ## Expressions -/

/-- The code of an expression in its two modes. -/
structure ExprCode where
  /-- Push the value. -/
  value : Emit Unit
  /-- Go where the value, taken as a condition, leads. -/
  branch : BranchTargets → Emit Unit

namespace ExprCode

/-- A condition whose value may be known; `test` branches if it is not. -/
def known
    (info : ExprInfo)
    (test : BranchTargets → Emit Unit)
    (targets : BranchTargets) :
    Emit Unit :=
  match info.constant.bind Const.bool? with
  | some value => branchKnown value targets
  | none => test targets

/-- The code of an expression that branches by testing its value. -/
def ofValue (info : ExprInfo) (value : Emit Unit) : ExprCode :=
  { value
    branch := known info fun targets => do
      value
      branchOn .ifne targets }

/-- The code of an expression that computes its value by branching. -/
def ofTest (info : ExprInfo) (test : BranchTargets → Emit Unit) : ExprCode :=
  { value := do
      pushKnown info (materialize test)
      applyConversion info
    branch := known info test }

/-- The code of a logical conjunction. -/
def conjunction (info : ExprInfo) (left right : ExprCode) : ExprCode :=
  ofTest info fun targets => do
    left.branch { targets with fallsTrue := true }
    right.branch targets

/-- The code of a logical disjunction. -/
def disjunction (info : ExprInfo) (left right : ExprCode) : ExprCode :=
  ofTest info fun targets => do
    left.branch { targets with fallsTrue := false }
    right.branch targets

/-- The code of a comparison. -/
def comparison
    (info : ExprInfo)
    (op : BinaryOp)
    (left right : Expr)
    (leftCode rightCode : ExprCode) :
    ExprCode :=
  ofTest info fun targets => do
    branchOn (← compare op left right leftCode.value rightCode.value) targets

/-- The code of an arithmetic or bitwise operation. -/
def operation
    (info : ExprInfo)
    (op : BinaryOp)
    (left : Expr)
    (leftCode rightCode : ExprCode) :
    ExprCode :=
  ofValue info do
    pushKnown info do
      if op = .add ∧ info.type.isString then
        throw (.unsupported .concatenation info.span)
      else
        leftCode.value
        rightCode.value
        applyBinary info op left
    applyConversion info

/-- The code of a unary operation; a negated condition swaps its targets. -/
def unary (info : ExprInfo) (op : UnaryOp) (operand : ExprCode) : ExprCode :=
  let value : Emit Unit := do
    pushKnown info do
      operand.value
      applyUnary info.type.kind op
    applyConversion info
  match op with
  | .not => { value, branch := known info fun targets => operand.branch targets.inverted }
  | _ => ofValue info value

/-- The code of a binary operation. -/
def binary
    (info : ExprInfo)
    (op : BinaryOp)
    (left right : Expr)
    (leftCode rightCode : ExprCode) :
    ExprCode :=
  match op with
  | .and => conjunction info leftCode rightCode
  | .or => disjunction info leftCode rightCode
  | op =>
    if op.isComparison then comparison info op left right leftCode rightCode
    else operation info op left leftCode rightCode

end ExprCode

mutual

/-- The code of an expression. -/
def exprCode : Expr → ExprCode
  | .literal info value =>
    .ofValue info do
      pushKnown info (pushLiteral value)
      applyConversion info
  | .localVar info id =>
    .ofValue info do
      pushKnown info (loadLocal id info.span)
      applyConversion info
  | .self info =>
    .ofValue info do
      pushKnown info loadSelf
      applyConversion info
  | .assign info target value =>
    .ofValue info do
      (exprCode value).value
      duplicate value.type
      storeLocal target info.type info.span
  | .unary info op operand => .unary info op (exprCode operand)
  | .binary info op left right => .binary info op left right (exprCode left) (exprCode right)
  | .call info receiver method args =>
    .ofValue info do
      if receiver.isSome ∨ method.invoke ≠ .static then pushReceiver (optionCode receiver)
      listCode args
      invoke method
      applyConversion info
  | .field info receiver field =>
    .ofValue info do
      pushKnown info do
        if !field.isStatic then pushReceiver (optionCode receiver)
        getField field
      applyConversion info
  | .new info constructor args =>
    .ofValue info do
      emit (.new constructor.owner)
      op .dup
      listCode args
      invoke constructor
      applyConversion info
  | .lambda info function =>
    .ofValue info do
      createClosure function
      applyConversion info

/-- Push the value of an expression that may be missing. -/
def optionCode : Option Expr → Option (Emit Unit)
  | none => none
  | some expr => some (exprCode expr).value

/-- Push the values of expressions in sequence. -/
def listCode : List Expr → Emit Unit
  | [] => return
  | expr :: exprs => do
    (exprCode expr).value
    listCode exprs

end

/-- Push the value of an expression. -/
def pushValue (expr : Expr) : Emit Unit := (exprCode expr).value

/-- Emit an expression as a condition. -/
def branch (condition : Expr) (targets : BranchTargets) : Emit Unit :=
  (exprCode condition).branch targets

/-- Evaluate an expression for its effect. -/
def evaluate : Expr → Emit Unit
  | .assign info target value => do
    pushValue value
    storeLocal target info.type info.span
  | other => do
    pushValue other
    dropKind other.resultType.kind

end Emit

end StackCode
