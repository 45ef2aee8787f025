import StackCode.Tree.Basic

/-!
# Numbering statements

Every statement of a body, those in lambdas included, gets a number of its own.
A statement comes before everything inside it; the lambdas in its expressions
come before the statements inside it.
-/

namespace StackCode

/-- A computation that hands out numbers in ascending order. -/
abbrev Numbering := StateM Nat

/-- The next number. -/
def Numbering.next : Numbering StmtId := fun number => (⟨number⟩, number + 1)

/-- The same tag with the next number for its identifier. -/
def StmtTag.number (tag : StmtTag) : Numbering StmtTag := do
  return { tag with id := ← Numbering.next }

mutual

/-- Number the statements in the lambdas of an expression. -/
def Expr.number : Expr → Numbering Expr
  | .literal info value => return .literal info value
  | .localVar info id => return .localVar info id
  | .self info => return .self info
  | .assign info target value => return .assign info target (← value.number)
  | .unary info op operand => return .unary info op (← operand.number)
  | .binary info op left right => return .binary info op (← left.number) (← right.number)
  | .call info receiver method args =>
    return .call info (← Expr.optionNumber receiver) method (← Expr.listNumber args)
  | .field info receiver field => return .field info (← Expr.optionNumber receiver) field
  | .new info constructor args => return .new info constructor (← Expr.listNumber args)
  | .lambda info function => return .lambda info (← function.number)

/-- Number the statements in an expression that may be missing. -/
def Expr.optionNumber : Option Expr → Numbering (Option Expr)
  | none => return none
  | some expr => return some (← expr.number)

/-- Number the statements in expressions in sequence. -/
def Expr.listNumber : List Expr → Numbering (List Expr)
  | [] => return []
  | expr :: exprs => return (← expr.number) :: (← Expr.listNumber exprs)

/-- Number the statements in the labels of one switch section. -/
def Expr.labelNumber : List (Option Expr) → Numbering (List (Option Expr))
  | [] => return []
  | label :: labels => return (← Expr.optionNumber label) :: (← Expr.labelNumber labels)

/-- Number the statements of a lambda. -/
def Lambda.number : Lambda → Numbering Lambda
  | ⟨id, params, ret, body, interface⟩ => return ⟨id, params, ret, ← body.number, interface⟩

/-- Number a statement and everything inside it. -/
def Stmt.number : Stmt → Numbering Stmt
  | .block tag body => return .block (← tag.number) (← Stmt.listNumber body)
  | .cond tag condition thenBranch elseBranch =>
    return .cond (← tag.number) (← condition.number) (← thenBranch.number)
      (← Stmt.optionNumber elseBranch)
  | .whileLoop tag condition body =>
    return .whileLoop (← tag.number) (← condition.number) (← body.number)
  | .doLoop tag body condition => do
    let tag ← tag.number
    let condition ← condition.number
    return .doLoop tag (← body.number) condition
  | .forLoop tag init condition update body => do
    let tag ← tag.number
    let condition ← Expr.optionNumber condition
    let update ← Expr.listNumber update
    return .forLoop tag (← Stmt.listNumber init) condition update (← body.number)
  | .forEach tag decl collection source body =>
    return .forEach (← tag.number) decl (← collection.number) source (← body.number)
  | .switch tag selector kind sections => do
    let tag ← tag.number
    let selector ← selector.number
    let labels ← Section.numberLabels sections
    let bodies ← Section.numberBodies sections
    return .switch tag selector kind (List.zipWith Section.mk labels bodies)
  | .guard tag body catches finalizer =>
    return .guard (← tag.number) (← body.number) (← CatchClause.listNumber catches)
      (← Stmt.optionNumber finalizer)
  | .acquire tag resources body =>
    return .acquire (← tag.number) (← Resource.listNumber resources) (← body.number)
  | .synchronized tag lock body =>
    return .synchronized (← tag.number) (← lock.number) (← body.number)
  | .labeled tag label body => return .labeled (← tag.number) label (← body.number)
  | .goto tag label => return .goto (← tag.number) label
  | .gotoCase tag key => return .gotoCase (← tag.number) (← Expr.optionNumber key)
  | .breakJump tag label => return .breakJump (← tag.number) label
  | .continueJump tag label => return .continueJump (← tag.number) label
  | .ret tag value => return .ret (← tag.number) (← Expr.optionNumber value)
  | .throw tag exception => return .throw (← tag.number) (← Expr.optionNumber exception)
  | .yield tag value => return .yield (← tag.number) (← Expr.optionNumber value)
  | .eval tag expr => return .eval (← tag.number) (← expr.number)
  | .empty tag => return .empty (← tag.number)
  | .declare tag declarators =>
    return .declare (← tag.number) (← Declarator.listNumber declarators)

/-- Number a statement that may be missing. -/
def Stmt.optionNumber : Option Stmt → Numbering (Option Stmt)
  | none => return none
  | some stmt => return some (← stmt.number)

/-- Number statements in sequence. -/
def Stmt.listNumber : List Stmt → Numbering (List Stmt)
  | [] => return []
  | stmt :: stmts => return (← stmt.number) :: (← Stmt.listNumber stmts)

/-- Number the statements in the labels of switch sections. -/
def Section.numberLabels : List Section → Numbering (List (List (Option Expr)))
  | [] => return []
  | ⟨labels, _⟩ :: sections =>
    return (← Expr.labelNumber labels) :: (← Section.numberLabels sections)

/-- Number the statements of switch sections. -/
def Section.numberBodies : List Section → Numbering (List (List Stmt))
  | [] => return []
  | ⟨_, body⟩ :: sections => return (← Stmt.listNumber body) :: (← Section.numberBodies sections)

/-- Number the bodies of catch clauses. -/
def CatchClause.listNumber : List CatchClause → Numbering (List CatchClause)
  | [] => return []
  | ⟨type, decl, body⟩ :: catches =>
    return ⟨type, decl, ← body.number⟩ :: (← CatchClause.listNumber catches)

/-- Number the statements in the expressions of resources. -/
def Resource.listNumber : List Resource → Numbering (List Resource)
  | [] => return []
  | ⟨decl, init, dispose⟩ :: resources =>
    return ⟨decl, ← init.number, dispose⟩ :: (← Resource.listNumber resources)

/-- Number the statements in initial values. -/
def Declarator.listNumber : List Declarator → Numbering (List Declarator)
  | [] => return []
  | ⟨decl, init⟩ :: declarators =>
    return ⟨decl, ← Expr.optionNumber init⟩ :: (← Declarator.listNumber declarators)

end

/-- Number a body; its outermost statement gets the number one. -/
def Stmt.numbered (body : Stmt) : Stmt := (body.number 1).1

end StackCode
