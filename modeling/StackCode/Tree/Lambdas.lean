import StackCode.Tree.Basic

/-!
# The lambdas of a body

The lambdas that stand in a body and not inside another lambda.  They are listed
statement by statement: first those in the expressions of the statement itself,
then those in the statements inside it.
-/

namespace StackCode

mutual

/-- The outermost lambdas of an expression. -/
def Expr.lambdas : Expr → List Lambda
  | .literal _ _ => []
  | .localVar _ _ => []
  | .self _ => []
  | .assign _ _ value => value.lambdas
  | .unary _ _ operand => operand.lambdas
  | .binary _ _ left right => left.lambdas ++ right.lambdas
  | .call _ receiver _ args => Expr.optionLambdas receiver ++ Expr.listLambdas args
  | .field _ receiver _ => Expr.optionLambdas receiver
  | .new _ _ args => Expr.listLambdas args
  | .lambda _ function => [function]

/-- The outermost lambdas of an expression that may be missing. -/
def Expr.optionLambdas : Option Expr → List Lambda
  | none => []
  | some expr => expr.lambdas

/-- The outermost lambdas of expressions in sequence. -/
def Expr.listLambdas : List Expr → List Lambda
  | [] => []
  | expr :: exprs => expr.lambdas ++ Expr.listLambdas exprs

end

mutual

/-- The outermost lambdas of a statement. -/
def Stmt.lambdas : Stmt → List Lambda
  | .block _ body => Stmt.listLambdas body
  | .cond _ condition thenBranch elseBranch =>
    condition.lambdas ++ thenBranch.lambdas ++ Stmt.optionLambdas elseBranch
  | .whileLoop _ condition body => condition.lambdas ++ body.lambdas
  | .doLoop _ body condition => condition.lambdas ++ body.lambdas
  | .forLoop _ init condition update body =>
    Expr.optionLambdas condition ++ Expr.listLambdas update ++ Stmt.listLambdas init ++ body.lambdas
  | .forEach _ _ collection _ body => collection.lambdas ++ body.lambdas
  | .switch _ selector _ sections =>
    selector.lambdas ++
      Expr.listLambdas (sections.flatMap fun switchSection =>
        switchSection.labels.filterMap fun label => label) ++
      Section.listLambdas sections
  | .guard _ body catches finalizer =>
    body.lambdas ++ CatchClause.listLambdas catches ++ Stmt.optionLambdas finalizer
  | .acquire _ resources body => Expr.listLambdas (resources.map Resource.init) ++ body.lambdas
  | .synchronized _ lock body => lock.lambdas ++ body.lambdas
  | .labeled _ _ body => body.lambdas
  | .goto _ _ => []
  | .gotoCase _ key => Expr.optionLambdas key
  | .breakJump _ _ => []
  | .continueJump _ _ => []
  | .ret _ value => Expr.optionLambdas value
  | .throw _ exception => Expr.optionLambdas exception
  | .yield _ value => Expr.optionLambdas value
  | .eval _ expr => expr.lambdas
  | .empty _ => []
  | .declare _ declarators => Expr.listLambdas (declarators.filterMap Declarator.init)

/-- The outermost lambdas of a statement that may be missing. -/
def Stmt.optionLambdas : Option Stmt → List Lambda
  | none => []
  | some stmt => stmt.lambdas

/-- The outermost lambdas of statements in sequence. -/
def Stmt.listLambdas : List Stmt → List Lambda
  | [] => []
  | stmt :: stmts => stmt.lambdas ++ Stmt.listLambdas stmts

/-- The outermost lambdas of the statements of switch sections. -/
def Section.listLambdas : List Section → List Lambda
  | [] => []
  | ⟨_, body⟩ :: sections => Stmt.listLambdas body ++ Section.listLambdas sections

/-- The outermost lambdas of the bodies of catch clauses. -/
def CatchClause.listLambdas : List CatchClause → List Lambda
  | [] => []
  | ⟨_, _, body⟩ :: catches => body.lambdas ++ CatchClause.listLambdas catches

end

end StackCode
