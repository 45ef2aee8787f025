import StackCode.Lower.ForEach
import StackCode.Lower.Guard
import StackCode.Lower.Jump
import StackCode.Lower.Loop
import StackCode.Lower.Switch
import StackCode.Lower.Yield

/-!
# Lowering statements

Lowering a statement may lower the finally bodies around it again, so it is no
recursion on the statement alone.  A bound on the nesting of statements that are
being lowered makes it total; the statement together with the finally bodies of
the frames around it give a bound that is never exceeded.
-/

namespace StackCode
namespace Emit

/-- Declare locals; one that is saved at suspensions must not stay without a value. -/
def lowerDeclarators (span : Span) (declarators : List Declarator) : Emit Unit :=
  declarators.forM fun declarator => do
    let decl := declarator.decl
    let _ ← declareLocal decl
    match declarator.init with
    | some init =>
      pushValue init
      storeLocal decl.id decl.type span
    | none =>
      if ← isPromoted decl.id then
        pushZero decl.type.kind
        storeLocal decl.id decl.type span

/-- A labeled statement. -/
def lowerLabeled (lower : Lowering) (id : StmtId) (body : Stmt) : Emit Unit := do
  let labels ← labelsOf id
  pushFrame id .labeled
  mark labels.start
  lower body
  popFrame
  mark labels.stop

/-- Lower a reachable statement; `lower` lowers the statements inside it and finally bodies. -/
def lowerReachable (lower : Lowering) (stmt : Stmt) : Emit Unit :=
  match stmt with
  | .block _ body => inScope (body.forM lower)
  | .cond _ condition thenBranch elseBranch => lowerCond lower condition thenBranch elseBranch
  | .whileLoop tag condition body => lowerWhile lower tag.id condition body
  | .doLoop tag body condition => lowerDo lower tag.id body condition
  | .forLoop tag init condition update body => lowerFor lower tag.id init condition update body
  | .forEach tag decl collection source body =>
    lowerForEach lower tag stmt.yields decl collection source body
  | .switch tag selector kind sections => lowerSwitch lower tag.id selector kind sections
  | .guard tag body catches finalizer => lowerGuard lower tag.id body catches finalizer
  | .acquire tag resources body => lowerAcquire lower tag stmt.yields resources body
  | .synchronized tag lock body => lowerSynchronized lower tag.id lock body
  | .labeled tag _ body => lowerLabeled lower tag.id body
  | .goto _ _ => lowerJump lower stmt StmtLabels.start
  | .gotoCase _ key => lowerGotoCase lower stmt key
  | .breakJump _ _ => lowerJump lower stmt StmtLabels.stop
  | .continueJump _ _ => lowerJump lower stmt StmtLabels.next
  | .ret _ value => lowerReturn lower value
  | .throw tag exception => lowerThrow tag.span exception
  | .yield tag value => lowerYield lower tag.span value
  | .eval _ expr => evaluate expr
  | .empty _ => return
  | .declare tag declarators => lowerDeclarators tag.span declarators

/-- Lower a statement with at most the given number of statements being lowered at once. -/
def lowerWithin : Nat → Lowering
  | 0, _ => defect .nesting
  | depth + 1, stmt =>
    if stmt.isReachable then lowerReachable (lowerWithin depth) stmt else return

/-- A bound on the number of statements that are being lowered at once. -/
def nestingBound : List Frame → Stmt → Nat
  | [], stmt => stmt.size
  | frame :: frames, stmt => frame.finalizerSize + nestingBound frames stmt

theorem size_le_nestingBound (frames : List Frame) (stmt : Stmt) :
    stmt.size ≤ nestingBound frames stmt := by
  induction frames with
  | nil => exact Nat.le_refl _
  | cons frame frames ih =>
    exact Nat.le_trans ih (Nat.le_add_left _ _)

/-- Lower a statement; an unreachable one has no code. -/
def lower (stmt : Stmt) : Emit Unit := do
  lowerWithin (nestingBound (← method).frames stmt) stmt

/-- An unreachable statement has no code. -/
theorem lower_of_unreachable
    {stmt : Stmt}
    (unreachable : stmt.isReachable = false)
    (state : Emission) :
    lower stmt state = .ok () state := by
  have room : nestingBound state.method.frames stmt ≠ 0 := by
    have positive := stmt.size_pos
    have bound := size_le_nestingBound state.method.frames stmt
    omega
  obtain ⟨depth, bound⟩ := Nat.exists_eq_succ_of_ne_zero room
  change lowerWithin (nestingBound state.method.frames stmt) stmt state = _
  rw [bound]
  simp [lowerWithin, unreachable]
  rfl

/-- Lower a whole method body and return at its end, if control reaches it. -/
def lowerBody (body : Stmt) : Emit Unit := do
  setParents body
  lower body
  if body.completes then
    let method ← method
    if method.returnType.isVoid then returnKind .void
    else defect (.missingReturn method.className method.methodName)

end Emit
end StackCode
