import StackCode.Lower.Cleanup

/-!
# Suspension

Handing out an element stores it, notes where to resume, saves every live slot
and returns true; resuming loads the slots again.  Ending the iteration runs all
cleanup, notes that nothing is left and returns false.
-/

namespace StackCode
namespace Emit

/-- Note that the iteration is over, and return false. -/
def finishIteration (state : FieldRef) : Emit Unit := do
  loadRef 0
  pushInt (-1)
  putField state
  op .iconst0
  returnKind .int

/-- Refuse to suspend where the method could not be resumed. -/
def checkSuspendable (span : Span) : Emit Unit := do
  if ← holdsMonitor then throw (.yieldInsideRegion .synchronizedBody span)
  if (← catchSlot?).isSome then throw (.yieldInsideRegion .catchBody span)
  if ← inFinally then throw (.yieldInsideRegion .finallyBody span)

/-- Hand out an element and suspend. -/
def lowerElement (suspension : Suspension) (span : Span) (value : Expr) : Emit Unit := do
  checkSuspendable span
  match ← nextYield? with
  | none => defect (.uncountedYield span)
  | some (state, resume) =>
    log .trace ("yield state " ++ toString state ++ " at " ++ span.text)
    loadRef 0
    pushValue value
    putField suspension.current
    loadRef 0
    pushInt (.ofNat state)
    putField suspension.state
    saveLive
    op .iconst1
    returnKind .int
    mark resume
    reloadLive

/-- End the iteration. -/
def lowerEnd (lower : Lowering) (suspension : Suspension) (span : Span) : Emit Unit := do
  if ← inFinally then throw (.yieldInsideRegion .finallyBody span)
  let regions ← leaveMethod lower
  finishIteration suspension.state
  resumeRegions regions

/-- A suspension point or the end of an iteration. -/
def lowerYield (lower : Lowering) (span : Span) (value : Option Expr) : Emit Unit := do
  match (← method).suspension with
  | none => throw (.yieldOutsideIterator span)
  | some suspension =>
    match value with
    | some value => lowerElement suspension span value
    | none => lowerEnd lower suspension span

end Emit
end StackCode
