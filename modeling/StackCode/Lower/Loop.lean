import StackCode.Lower.Cleanup

/-!
# Conditionals and loops

A loop tests its condition at the bottom.  A condition that is known at compile
time leaves no test behind.
-/

namespace StackCode
namespace Emit

/-- A conditional whose condition has to be tested. -/
def lowerTested
    (lower : Lowering)
    (condition : Expr)
    (thenBranch : Stmt)
    (elseBranch : Option Stmt) :
    Emit Unit := do
  let whenTrue ← newLabel
  let whenFalse ← newLabel
  branch condition { whenTrue, whenFalse, fallsTrue := true }
  mark whenTrue
  lower thenBranch
  match elseBranch with
  | none => mark whenFalse
  | some elseBranch =>
    let done ← newLabel
    if thenBranch.completes then goto done
    mark whenFalse
    lower elseBranch
    if thenBranch.completes then mark done

/-- A conditional statement. -/
def lowerCond
    (lower : Lowering)
    (condition : Expr)
    (thenBranch : Stmt)
    (elseBranch : Option Stmt) :
    Emit Unit :=
  match condition.constantBool? with
  | some true => lower thenBranch
  | some false => elseBranch.forM lower
  | none => lowerTested lower condition thenBranch elseBranch

/-- Jump back to the start of a loop while its condition holds. -/
def lowerBackEdge (condition : Expr) (labels : StmtLabels) : Emit Unit :=
  branch condition { whenTrue := labels.start, whenFalse := labels.stop, fallsTrue := false }

/-- A loop that tests its condition first. -/
def lowerWhile (lower : Lowering) (id : StmtId) (condition : Expr) (body : Stmt) : Emit Unit := do
  let known := condition.constantBool?
  if known = some false then return
  let labels ← labelsOf id
  pushFrame id .loop
  if known.isNone then goto labels.next
  mark labels.start
  lower body
  mark labels.next
  match known with
  | some _ => goto labels.start
  | none => lowerBackEdge condition labels
  popFrame
  mark labels.stop

/-- A loop that tests its condition last. -/
def lowerDo (lower : Lowering) (id : StmtId) (body : Stmt) (condition : Expr) : Emit Unit := do
  let labels ← labelsOf id
  pushFrame id .loop
  mark labels.start
  lower body
  mark labels.next
  match condition.constantBool? with
  | some true => goto labels.start
  | some false => pure ()
  | none => lowerBackEdge condition labels
  popFrame
  mark labels.stop

/-- A counting loop after its initialisation; `condition` is one that has to be tested. -/
def lowerForRounds
    (lower : Lowering)
    (id : StmtId)
    (condition : Option Expr)
    (update : List Expr)
    (body : Stmt) :
    Emit Unit := do
  let labels ← labelsOf id
  let test ← newLabel
  pushFrame id .loop
  if condition.isSome then goto test
  mark labels.start
  lower body
  mark labels.next
  update.forM evaluate
  match condition with
  | some condition =>
    mark test
    lowerBackEdge condition labels
  | none => goto labels.start
  popFrame
  mark labels.stop

/-- A loop with initialisation and update. -/
def lowerFor
    (lower : Lowering)
    (id : StmtId)
    (init : List Stmt)
    (condition : Option Expr)
    (update : List Expr)
    (body : Stmt) :
    Emit Unit :=
  inScope do
    init.forM lower
    match condition.bind Expr.constantBool? with
    | some false => return
    | some true => lowerForRounds lower id none update body
    | none => lowerForRounds lower id condition update body

end Emit
end StackCode
