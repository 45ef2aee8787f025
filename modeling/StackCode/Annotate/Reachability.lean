import StackCode.Annotate.Targets

/-!
# Reachability

Mark every statement that control can reach, and tell whether control can reach
its end.  A statement that a `goto` names is reached whatever stands before it.
The bodies of lambdas are marked with their own targets.
-/

namespace StackCode

namespace Targets

/-- Some `break` goes to the statement. -/
def isBroken (targets : Targets) (id : StmtId) : Bool := targets.ofBreaks.contains id

/-- Some `continue` goes to the statement. -/
def isContinued (targets : Targets) (id : StmtId) : Bool := targets.ofContinues.contains id

/-- The statement is entered if it is reached from before or by a `goto`. -/
def enters (targets : Targets) (tag : StmtTag) (reached : Bool) : Bool :=
  reached || targets.ofGotos.contains tag.id

/-- The tag of a statement, with the facts about it if it is entered. -/
def mark
    (targets : Targets)
    (tag : StmtTag)
    (entered completes : Bool)
    (yieldCount : Nat) :
    StmtTag :=
  { tag with
    info :=
      if entered then
        some
          { target := targets.target? tag.id
            completes
            targeted := targets.isTargeted tag.id
            yieldCount }
      else none }

end Targets

/-- A statement with its facts, and whether its end is reached. -/
abbrev Reached (α : Type) := α × Bool

mutual

/-- Mark the bodies of the lambdas in an expression. -/
def Expr.reach : Expr → Expr
  | .literal info value => .literal info value
  | .localVar info id => .localVar info id
  | .self info => .self info
  | .assign info target value => .assign info target value.reach
  | .unary info op operand => .unary info op operand.reach
  | .binary info op left right => .binary info op left.reach right.reach
  | .call info receiver method args =>
    .call info (Expr.optionReach receiver) method (Expr.listReach args)
  | .field info receiver field => .field info (Expr.optionReach receiver) field
  | .new info constructor args => .new info constructor (Expr.listReach args)
  | .lambda info function => .lambda info function.reach

/-- Mark the bodies of the lambdas in an expression that may be missing. -/
def Expr.optionReach : Option Expr → Option Expr
  | none => none
  | some expr => some expr.reach

/-- Mark the bodies of the lambdas in expressions in sequence. -/
def Expr.listReach : List Expr → List Expr
  | [] => []
  | expr :: exprs => expr.reach :: Expr.listReach exprs

/-- Mark the body of a lambda. -/
def Lambda.reach : Lambda → Lambda
  | ⟨id, params, ret, body, interface⟩ =>
    ⟨id, params, ret, (body.reach (Targets.ofBody body) true).1, interface⟩

/-- Mark a statement that is reached, or not, from what stands before it. -/
def Stmt.reach (targets : Targets) (reached : Bool) : Stmt → Reached Stmt
  | .block tag body =>
    let entered := targets.enters tag reached
    let (marked, completes) := Stmt.listReach targets true entered body
    let count := (Stmt.block tag body).countYields
    (.block (targets.mark tag entered completes count) marked, completes)
  | .cond tag condition thenBranch elseBranch =>
    let entered := targets.enters tag reached
    let known := condition.constantBool?
    let (marked, thenEnds) := thenBranch.reach targets (entered && known != some false)
    let (markedElse, elseEnds) :=
      Stmt.optionReach targets (entered && known != some true) elseBranch
    let completes := entered && (thenEnds || elseEnds)
    let count := (Stmt.cond tag condition thenBranch elseBranch).countYields
    (.cond (targets.mark tag entered completes count) condition.reach marked markedElse, completes)
  | .whileLoop tag condition body =>
    let entered := targets.enters tag reached
    let known := condition.constantBool?
    let marked := (body.reach targets (entered && known != some false)).1
    let completes := entered && (known != some true || targets.isBroken tag.id)
    let count := (Stmt.whileLoop tag condition body).countYields
    (.whileLoop (targets.mark tag entered completes count) condition.reach marked, completes)
  | .doLoop tag body condition =>
    let entered := targets.enters tag reached
    let (marked, bodyEnds) := body.reach targets entered
    let tested := bodyEnds || targets.isContinued tag.id
    let completes :=
      entered &&
        ((tested && condition.constantBool? != some true) || targets.isBroken tag.id)
    let count := (Stmt.doLoop tag body condition).countYields
    (.doLoop (targets.mark tag entered completes count) marked condition.reach, completes)
  | .forLoop tag init condition update body =>
    let entered := targets.enters tag reached
    let known := condition.bind Expr.constantBool?
    let (markedInit, initEnds) := Stmt.listReach targets entered entered init
    let endless := condition.isNone || known == some true
    let marked := (body.reach targets (entered && initEnds && known != some false)).1
    let completes := entered && ((initEnds && !endless) || targets.isBroken tag.id)
    let count := (Stmt.forLoop tag init condition update body).countYields
    (.forLoop (targets.mark tag entered completes count) markedInit (Expr.optionReach condition)
      (Expr.listReach update) marked, completes)
  | .forEach tag decl collection source body =>
    let entered := targets.enters tag reached
    let marked := (body.reach targets entered).1
    let count := (Stmt.forEach tag decl collection source body).countYields
    (.forEach (targets.mark tag entered entered count) decl collection.reach source marked, entered)
  | .switch tag selector kind sections =>
    let entered := targets.enters tag reached
    let (marked, lastEnds) := Section.listReach targets entered true sections
    let completes :=
      entered && (!sections.any Section.isDefault || lastEnds || targets.isBroken tag.id)
    let count := (Stmt.switch tag selector kind sections).countYields
    (.switch (targets.mark tag entered completes count) selector.reach kind marked, completes)
  | .guard tag body catches finalizer =>
    let entered := targets.enters tag reached
    let (marked, bodyEnds) := body.reach targets entered
    let (markedCatches, catchEnds) := CatchClause.listReach targets entered catches
    let (markedFinalizer, finalizerEnds) := Stmt.optionReach targets entered finalizer
    let completes :=
      entered && (bodyEnds || catchEnds) && (finalizer.isNone || finalizerEnds)
    let count := (Stmt.guard tag body catches finalizer).countYields
    (.guard (targets.mark tag entered completes count) marked markedCatches markedFinalizer,
      completes)
  | .acquire tag resources body =>
    let entered := targets.enters tag reached
    let (marked, bodyEnds) := body.reach targets entered
    let completes := entered && bodyEnds
    let count := (Stmt.acquire tag resources body).countYields
    (.acquire (targets.mark tag entered completes count) (Resource.listReach resources) marked,
      completes)
  | .synchronized tag lock body =>
    let entered := targets.enters tag reached
    let (marked, bodyEnds) := body.reach targets entered
    let completes := entered && bodyEnds
    let count := (Stmt.synchronized tag lock body).countYields
    (.synchronized (targets.mark tag entered completes count) lock.reach marked, completes)
  | .labeled tag label body =>
    let entered := targets.enters tag reached
    let (marked, bodyEnds) := body.reach targets entered
    let completes := entered && (bodyEnds || targets.isBroken tag.id)
    let count := (Stmt.labeled tag label body).countYields
    (.labeled (targets.mark tag entered completes count) label marked, completes)
  | .goto tag label => (.goto (targets.mark tag (targets.enters tag reached) false 0) label, false)
  | .gotoCase tag key =>
    (.gotoCase (targets.mark tag (targets.enters tag reached) false 0) key, false)
  | .breakJump tag label =>
    (.breakJump (targets.mark tag (targets.enters tag reached) false 0) label, false)
  | .continueJump tag label =>
    (.continueJump (targets.mark tag (targets.enters tag reached) false 0) label, false)
  | .ret tag value =>
    (.ret (targets.mark tag (targets.enters tag reached) false 0) (Expr.optionReach value), false)
  | .throw tag exception =>
    (.throw (targets.mark tag (targets.enters tag reached) false 0) (Expr.optionReach exception),
      false)
  | .yield tag value =>
    let entered := targets.enters tag reached
    let completes := entered && value.isSome
    let count := (Stmt.yield tag value).countYields
    (.yield (targets.mark tag entered completes count) (Expr.optionReach value), completes)
  | .eval tag expr =>
    let entered := targets.enters tag reached
    (.eval (targets.mark tag entered entered 0) expr.reach, entered)
  | .empty tag =>
    let entered := targets.enters tag reached
    (.empty (targets.mark tag entered entered 0), entered)
  | .declare tag declarators =>
    let entered := targets.enters tag reached
    (.declare (targets.mark tag entered entered 0) (Declarator.listReach declarators), entered)

/-- Mark a statement that may be missing; control passes through a missing one. -/
def Stmt.optionReach (targets : Targets) (reached : Bool) : Option Stmt → Reached (Option Stmt)
  | none => (none, reached)
  | some stmt =>
    let (marked, completes) := stmt.reach targets reached
    (some marked, completes)

/--
Mark statements in sequence.  If control flows through them, each is reached
when the one before it completes.
-/
def Stmt.listReach (targets : Targets) (flows reached : Bool) : List Stmt → Reached (List Stmt)
  | [] => ([], reached)
  | stmt :: stmts =>
    let (marked, completes) := stmt.reach targets reached
    let (rest, restCompletes) := Stmt.listReach targets flows (flows && completes) stmts
    (marked :: rest, restCompletes)

/-- Mark switch sections, each reached with the switch; the end of the last one counts. -/
def Section.listReach
    (targets : Targets)
    (entered lastEnds : Bool) :
    List Section → Reached (List Section)
  | [] => ([], lastEnds)
  | ⟨labels, body⟩ :: sections =>
    let (marked, completes) := Stmt.listReach targets entered entered body
    let (rest, restCompletes) := Section.listReach targets entered completes sections
    (⟨labels, marked⟩ :: rest, restCompletes)

/-- Mark catch clauses, each reached with its statement; the end of any of them counts. -/
def CatchClause.listReach
    (targets : Targets)
    (entered : Bool) :
    List CatchClause → Reached (List CatchClause)
  | [] => ([], false)
  | ⟨type, decl, body⟩ :: catches =>
    let (marked, completes) := body.reach targets entered
    let (rest, restCompletes) := CatchClause.listReach targets entered catches
    (⟨type, decl, marked⟩ :: rest, completes || restCompletes)

/-- Mark the bodies of the lambdas in resources. -/
def Resource.listReach : List Resource → List Resource
  | [] => []
  | ⟨decl, init, dispose⟩ :: resources =>
    ⟨decl, init.reach, dispose⟩ :: Resource.listReach resources

/-- Mark the bodies of the lambdas in initial values. -/
def Declarator.listReach : List Declarator → List Declarator
  | [] => []
  | ⟨decl, init⟩ :: declarators =>
    ⟨decl, Expr.optionReach init⟩ :: Declarator.listReach declarators

end

end StackCode
