import StackCode.Tree.Basic

/-!
# Visits

Reading a tree in source order is a list of visits.  A statement is entered and
left, an expression is visited before its operands, and the declaration of a
local is visited where the local comes into being.  Analyses of a tree are folds
over this list.  The bodies of lambdas are part of it only if they are asked
for.
-/

namespace StackCode

/-- One step of reading a tree. -/
inductive Visit where
  /-- A statement begins. -/
  | enter (stmt : Stmt)
  /-- A statement ends. -/
  | leave (stmt : Stmt)
  /-- An expression is met. -/
  | expr (expr : Expr)
  /-- The function of a lambda expression is met. -/
  | lambda (lambda : Lambda)
  /-- A local is declared. -/
  | declare (decl : LocalDecl)

mutual

/-- The visits of an expression. -/
def Expr.visits (deep : Bool) : Expr → List Visit
  | .literal info value => [.expr (.literal info value)]
  | .localVar info id => [.expr (.localVar info id)]
  | .self info => [.expr (.self info)]
  | .assign info target value => .expr (.assign info target value) :: value.visits deep
  | .unary info op operand => .expr (.unary info op operand) :: operand.visits deep
  | .binary info op left right =>
    .expr (.binary info op left right) :: left.visits deep ++ right.visits deep
  | .call info receiver method args =>
    .expr (.call info receiver method args) ::
      Expr.optionVisits deep receiver ++ Expr.listVisits deep args
  | .field info receiver field =>
    .expr (.field info receiver field) :: Expr.optionVisits deep receiver
  | .new info constructor args =>
    .expr (.new info constructor args) :: Expr.listVisits deep args
  | .lambda info function =>
    .expr (.lambda info function) :: .lambda function ::
      if deep then function.visits deep else []

/-- The visits of an expression that may be missing. -/
def Expr.optionVisits (deep : Bool) : Option Expr → List Visit
  | none => []
  | some expr => expr.visits deep

/-- The visits of expressions in sequence. -/
def Expr.listVisits (deep : Bool) : List Expr → List Visit
  | [] => []
  | expr :: exprs => expr.visits deep ++ Expr.listVisits deep exprs

/-- The visits of the labels of a switch section. -/
def Expr.labelVisits (deep : Bool) : List (Option Expr) → List Visit
  | [] => []
  | label :: labels => Expr.optionVisits deep label ++ Expr.labelVisits deep labels

/-- The visits inside a lambda: its parameters, then its body. -/
def Lambda.visits (deep : Bool) : Lambda → List Visit
  | ⟨_, params, _, body, _⟩ => params.map Visit.declare ++ body.visits deep

/-- The visits of a statement. -/
def Stmt.visits (deep : Bool) : Stmt → List Visit
  | .block tag body =>
    .enter (.block tag body) :: Stmt.listVisits deep body ++ [.leave (.block tag body)]
  | .cond tag condition thenBranch elseBranch =>
    .enter (.cond tag condition thenBranch elseBranch) ::
      condition.visits deep ++ thenBranch.visits deep ++ Stmt.optionVisits deep elseBranch ++
      [.leave (.cond tag condition thenBranch elseBranch)]
  | .whileLoop tag condition body =>
    .enter (.whileLoop tag condition body) ::
      condition.visits deep ++ body.visits deep ++ [.leave (.whileLoop tag condition body)]
  | .doLoop tag body condition =>
    .enter (.doLoop tag body condition) ::
      body.visits deep ++ condition.visits deep ++ [.leave (.doLoop tag body condition)]
  | .forLoop tag init condition update body =>
    .enter (.forLoop tag init condition update body) ::
      Stmt.listVisits deep init ++ Expr.optionVisits deep condition ++ body.visits deep ++
      Expr.listVisits deep update ++ [.leave (.forLoop tag init condition update body)]
  | .forEach tag decl collection source body =>
    .enter (.forEach tag decl collection source body) ::
      collection.visits deep ++ .declare decl :: body.visits deep ++
      [.leave (.forEach tag decl collection source body)]
  | .switch tag selector kind sections =>
    .enter (.switch tag selector kind sections) ::
      selector.visits deep ++ Section.listVisits deep sections ++
      [.leave (.switch tag selector kind sections)]
  | .guard tag body catches finalizer =>
    .enter (.guard tag body catches finalizer) ::
      body.visits deep ++ CatchClause.listVisits deep catches ++
      Stmt.optionVisits deep finalizer ++ [.leave (.guard tag body catches finalizer)]
  | .acquire tag resources body =>
    .enter (.acquire tag resources body) ::
      Resource.listVisits deep resources ++ body.visits deep ++
      [.leave (.acquire tag resources body)]
  | .synchronized tag lock body =>
    .enter (.synchronized tag lock body) ::
      lock.visits deep ++ body.visits deep ++ [.leave (.synchronized tag lock body)]
  | .labeled tag label body =>
    .enter (.labeled tag label body) :: body.visits deep ++ [.leave (.labeled tag label body)]
  | .goto tag label => [.enter (.goto tag label), .leave (.goto tag label)]
  | .gotoCase tag key =>
    .enter (.gotoCase tag key) :: Expr.optionVisits deep key ++ [.leave (.gotoCase tag key)]
  | .breakJump tag label => [.enter (.breakJump tag label), .leave (.breakJump tag label)]
  | .continueJump tag label => [.enter (.continueJump tag label), .leave (.continueJump tag label)]
  | .ret tag value =>
    .enter (.ret tag value) :: Expr.optionVisits deep value ++ [.leave (.ret tag value)]
  | .throw tag exception =>
    .enter (.throw tag exception) :: Expr.optionVisits deep exception ++
      [.leave (.throw tag exception)]
  | .yield tag value =>
    .enter (.yield tag value) :: Expr.optionVisits deep value ++ [.leave (.yield tag value)]
  | .eval tag expr => .enter (.eval tag expr) :: expr.visits deep ++ [.leave (.eval tag expr)]
  | .empty tag => [.enter (.empty tag), .leave (.empty tag)]
  | .declare tag declarators =>
    .enter (.declare tag declarators) :: Declarator.listVisits deep declarators ++
      [.leave (.declare tag declarators)]

/-- The visits of a statement that may be missing. -/
def Stmt.optionVisits (deep : Bool) : Option Stmt → List Visit
  | none => []
  | some stmt => stmt.visits deep

/-- The visits of statements in sequence. -/
def Stmt.listVisits (deep : Bool) : List Stmt → List Visit
  | [] => []
  | stmt :: stmts => stmt.visits deep ++ Stmt.listVisits deep stmts

/-- The visits of switch sections: the labels of each, then its statements. -/
def Section.listVisits (deep : Bool) : List Section → List Visit
  | [] => []
  | ⟨labels, body⟩ :: sections =>
    Expr.labelVisits deep labels ++ Stmt.listVisits deep body ++ Section.listVisits deep sections

/-- The visits of catch clauses: the local of each, then its body. -/
def CatchClause.listVisits (deep : Bool) : List CatchClause → List Visit
  | [] => []
  | ⟨_, decl, body⟩ :: catches =>
    decl.toList.map Visit.declare ++ body.visits deep ++ CatchClause.listVisits deep catches

/-- The visits of resources: each is acquired before its local is declared. -/
def Resource.listVisits (deep : Bool) : List Resource → List Visit
  | [] => []
  | ⟨decl, init, _⟩ :: resources =>
    init.visits deep ++ decl.toList.map Visit.declare ++ Resource.listVisits deep resources

/-- The visits of declarators: each local is declared before its initial value is read. -/
def Declarator.listVisits (deep : Bool) : List Declarator → List Visit
  | [] => []
  | ⟨decl, init⟩ :: declarators =>
    .declare decl :: Expr.optionVisits deep init ++ Declarator.listVisits deep declarators

end

/-- Reading a statement begins with entering it. -/
theorem Stmt.visits_eq_cons (deep : Bool) (stmt : Stmt) :
    ∃ rest, stmt.visits deep = .enter stmt :: rest := by
  cases stmt <;> simp [Stmt.visits]

/-! ## Simple readings of a tree -/

namespace Visit

/-- The identifier of a statement that is entered. -/
def stmtId? : Visit → Option StmtId
  | enter stmt => some stmt.id
  | _ => none

/-- The local that is declared. -/
def decl? : Visit → Option LocalDecl
  | declare decl => some decl
  | _ => none

/-- The local that is read or assigned. -/
def use? : Visit → Option LocalId
  | expr (.localVar _ id) => some id
  | expr (.assign _ target _) => some target
  | _ => none

/-- The lambda that is met. -/
def lambda? : Visit → Option Lambda
  | lambda function => some function
  | _ => none

/-- The visit begins a statement that hands out an element. -/
def isYield : Visit → Bool
  | enter (.yield _ (some _)) => true
  | _ => false

/-- The visit meets the receiver of the source. -/
def isSelf : Visit → Bool
  | expr (.self _) => true
  | _ => false

end Visit

namespace Stmt

/-- The identifiers of a statement and of all statements inside it, lambdas left out. -/
def ids (stmt : Stmt) : List StmtId := (stmt.visits false).filterMap Visit.stmtId?

/-- The number of suspension points inside a statement, lambdas left out. -/
def countYields (stmt : Stmt) : Nat := (stmt.visits false).countP Visit.isYield

/-- Some expression inside the statement, lambdas included, refers to the receiver. -/
def usesSelf (stmt : Stmt) : Bool := (stmt.visits true).any Visit.isSelf

/-- The locals declared inside a statement, lambdas left out. -/
def declaredLocals (stmt : Stmt) : List LocalDecl := (stmt.visits false).filterMap Visit.decl?

/-- The number of statements inside a statement and itself, lambdas left out. -/
def size (stmt : Stmt) : Nat := stmt.ids.length

/-- A statement counts itself. -/
theorem size_pos (stmt : Stmt) : 0 < stmt.size := by
  obtain ⟨rest, visits⟩ := stmt.visits_eq_cons false
  simp [size, ids, visits, Visit.stmtId?]

/-- The number of lambdas inside a statement, those inside other lambdas included. -/
def lambdaCount (stmt : Stmt) : Nat := ((stmt.visits true).filterMap Visit.lambda?).length

end Stmt

end StackCode
