import StackCode.Const.Fold
import StackCode.Tree.Basic

/-!
# Folding the constants of a tree

Attach a value to every operator expression whose operands have one, innermost
first.  A value that is already there stays.  The labels of a switch and the key
of a jump to a case are constants of their own; lambdas inside them are no part
of the program and are left alone.
-/

namespace StackCode

/-- The same facts with a constant, unless there is one already. -/
def ExprInfo.orConstant (info : ExprInfo) (value : Option Const) : ExprInfo :=
  { info with constant := info.constant.or value }

mutual

/-- Fold an expression; `deep` decides whether the bodies of its lambdas are folded too. -/
def Expr.fold (deep : Bool) : Expr → Expr
  | .literal info value => .literal info value
  | .localVar info id => .localVar info id
  | .self info => .self info
  | .assign info target value => .assign info target (value.fold deep)
  | .unary info op operand =>
    let operand := operand.fold deep
    .unary (info.orConstant (operand.constant?.bind (Const.foldUnary op))) op operand
  | .binary info op left right =>
    let left := left.fold deep
    let right := right.fold deep
    let value := left.constant?.bind fun first => right.constant?.bind (Const.foldBinary op first)
    .binary (info.orConstant value) op left right
  | .call info receiver method args =>
    .call info (Expr.optionFold deep receiver) method (Expr.listFold deep args)
  | .field info receiver field => .field info (Expr.optionFold deep receiver) field
  | .new info constructor args => .new info constructor (Expr.listFold deep args)
  | .lambda info function => .lambda info (function.fold deep)

/-- Fold an expression that may be missing. -/
def Expr.optionFold (deep : Bool) : Option Expr → Option Expr
  | none => none
  | some expr => some (expr.fold deep)

/-- Fold expressions in sequence. -/
def Expr.listFold (deep : Bool) : List Expr → List Expr
  | [] => []
  | expr :: exprs => expr.fold deep :: Expr.listFold deep exprs

/-- Fold the labels of a switch section. -/
def Expr.labelFold : List (Option Expr) → List (Option Expr)
  | [] => []
  | label :: labels => Expr.optionFold false label :: Expr.labelFold labels

/-- Fold the body of a lambda, or leave it alone. -/
def Lambda.fold (deep : Bool) : Lambda → Lambda
  | ⟨id, params, ret, body, interface⟩ =>
    ⟨id, params, ret, if deep then body.fold else body, interface⟩

/-- Fold the constants of a statement and of everything inside it. -/
def Stmt.fold : Stmt → Stmt
  | .block tag body => .block tag (Stmt.listFold body)
  | .cond tag condition thenBranch elseBranch =>
    .cond tag (condition.fold true) thenBranch.fold (Stmt.optionFold elseBranch)
  | .whileLoop tag condition body => .whileLoop tag (condition.fold true) body.fold
  | .doLoop tag body condition => .doLoop tag body.fold (condition.fold true)
  | .forLoop tag init condition update body =>
    .forLoop tag (Stmt.listFold init) (Expr.optionFold true condition) (Expr.listFold true update)
      body.fold
  | .forEach tag decl collection source body =>
    .forEach tag decl (collection.fold true) source body.fold
  | .switch tag selector kind sections =>
    .switch tag (selector.fold true) kind (Section.listFold sections)
  | .guard tag body catches finalizer =>
    .guard tag body.fold (CatchClause.listFold catches) (Stmt.optionFold finalizer)
  | .acquire tag resources body => .acquire tag (Resource.listFold resources) body.fold
  | .synchronized tag lock body => .synchronized tag (lock.fold true) body.fold
  | .labeled tag label body => .labeled tag label body.fold
  | .goto tag label => .goto tag label
  | .gotoCase tag key => .gotoCase tag (Expr.optionFold false key)
  | .breakJump tag label => .breakJump tag label
  | .continueJump tag label => .continueJump tag label
  | .ret tag value => .ret tag (Expr.optionFold true value)
  | .throw tag exception => .throw tag (Expr.optionFold true exception)
  | .yield tag value => .yield tag (Expr.optionFold true value)
  | .eval tag expr => .eval tag (expr.fold true)
  | .empty tag => .empty tag
  | .declare tag declarators => .declare tag (Declarator.listFold declarators)

/-- Fold a statement that may be missing. -/
def Stmt.optionFold : Option Stmt → Option Stmt
  | none => none
  | some stmt => some stmt.fold

/-- Fold statements in sequence. -/
def Stmt.listFold : List Stmt → List Stmt
  | [] => []
  | stmt :: stmts => stmt.fold :: Stmt.listFold stmts

/-- Fold switch sections. -/
def Section.listFold : List Section → List Section
  | [] => []
  | ⟨labels, body⟩ :: sections =>
    ⟨Expr.labelFold labels, Stmt.listFold body⟩ :: Section.listFold sections

/-- Fold catch clauses. -/
def CatchClause.listFold : List CatchClause → List CatchClause
  | [] => []
  | ⟨type, decl, body⟩ :: catches => ⟨type, decl, body.fold⟩ :: CatchClause.listFold catches

/-- Fold resources. -/
def Resource.listFold : List Resource → List Resource
  | [] => []
  | ⟨decl, init, dispose⟩ :: resources =>
    ⟨decl, init.fold true, dispose⟩ :: Resource.listFold resources

/-- Fold declarators. -/
def Declarator.listFold : List Declarator → List Declarator
  | [] => []
  | ⟨decl, init⟩ :: declarators =>
    ⟨decl, Expr.optionFold true init⟩ :: Declarator.listFold declarators

end

end StackCode
