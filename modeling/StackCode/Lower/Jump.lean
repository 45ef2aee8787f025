import StackCode.Lower.Cleanup

/-!
# Jumps

Statements that leave their place: jumps to other statements, returns and
throws.
-/

namespace StackCode
namespace Emit

/-- The statement to which a jump goes. -/
def targetOf (stmt : Stmt) : Emit StmtId :=
  match stmt.target? with
  | some target => return target
  | none => throw (.unresolvedTarget stmt.kindName stmt.span)

/-- Jump to one of the labels of the target of a statement. -/
def lowerJump (lower : Lowering) (stmt : Stmt) (label : StmtLabels → Label) : Emit Unit := do
  let target ← targetOf stmt
  exitTo lower target (label (← labelsOf target))

/-- The key of a case that a jump names. -/
def gotoKey : Option Expr → Emit CaseKey
  | none => return .default
  | some expr =>
    match expr.constant?.bind CaseKey.ofConst? with
    | some key => return key
    | none => throw (.nonConstantCaseLabel expr.span)

/-- Jump to a section of a switch. -/
def lowerGotoCase (lower : Lowering) (stmt : Stmt) (key : Option Expr) : Emit Unit := do
  let target ← targetOf stmt
  let key ← gotoKey key
  match ← caseLabel? target key with
  | some label => exitTo lower target label
  | none => throw (.missingCaseLabel key stmt.span)

/-- Return a value; it waits in a temporary while cleanup runs. -/
def lowerReturn (lower : Lowering) : Option Expr → Emit Unit
  | none => do
    let regions ← leaveMethod lower
    returnKind .void
    resumeRegions regions
  | some value => do
    let type := (← method).returnType
    if ← hasPendingCleanup then
      pushValue value
      let temp ← newTemp type
      store type.kind temp
      let regions ← leaveMethod lower
      load type.kind temp
      returnKind type.kind
      resumeRegions regions
    else
      pushValue value
      returnKind type.kind

/-- Throw an exception, or the caught one again. -/
def lowerThrow (span : Span) : Option Expr → Emit Unit
  | some exception => do
    pushValue exception
    op .athrow
  | none => do
    match ← catchSlot? with
    | some slot =>
      loadRef slot
      op .athrow
    | none => throw (.rethrowOutsideCatch span)

end Emit
end StackCode
