import StackCode.Emit.Expression

/-!
# Leaving constructs

An exit that leaves constructs with a protected region runs their cleanup, the
innermost first, before it jumps.  Each cleanup stands outside of the region it
belongs to and runs with the frames from its own one inwards detached.

Lowering is open-ended here: `lower` is how a statement inside the one at hand
is lowered.
-/

namespace StackCode

/-- How a statement is lowered. -/
abbrev Lowering := Stmt → Emit Unit

namespace Emit

/-- Emit one copy of a finally body, with labels of its own. -/
def inlineFinalizer (lower : Lowering) (finalizer : Stmt) : Emit Unit := do
  pushLabelLayer finalizer
  enterFinally
  lower finalizer
  exitFinally
  popLabelLayer

/-- Dispose of the resource in a slot unless there is none. -/
def disposeResource (slot : Nat) (dispose : MethodRef) : Emit Unit := do
  let skip ← newLabel
  loadRef slot
  jump .ifnull skip
  loadRef slot
  invoke dispose
  mark skip

/-- Dispose of the iterator in a slot. -/
def disposeIterator (slot : Nat) (dispose : MethodRef) : Emit Unit := do
  loadRef slot
  invoke dispose

/-- Give up the monitor in a slot. -/
def exitMonitor (slot : Nat) : Emit Unit := do
  loadRef slot
  op .monitorexit

/-- The cleanup that leaving a frame takes. -/
def cleanup (lower : Lowering) (frame : Frame) : Emit Unit :=
  match frame.kind with
  | .finalized finalizer _ => inlineFinalizer lower finalizer
  | .monitor slot _ => exitMonitor slot
  | .resource slot dispose _ => disposeResource slot dispose
  | .iterator slot dispose _ => disposeIterator slot dispose
  | .loop => return
  | .switch => return
  | .labeled => return

/-- Run a step with all but the given number of outer frames detached. -/
def withOuterFrames (depth : Nat) (step : Emit Unit) : Emit Unit := do
  let detached ← detachFrames depth
  step
  restoreFrames detached

/--
Clean up the given frames, the innermost first, up to the first one that `stays`.
The regions that were cut on the way are returned.
-/
def cleanupFrames (lower : Lowering) (stays : Frame → Bool) : List Frame → Emit (List RegionId)
  | [] => return []
  | frame :: outer =>
    if stays frame then return []
    else
      match frame.region? with
      | none => cleanupFrames lower stays outer
      | some region => do
        suspendRegion region
        withOuterFrames outer.length (cleanup lower frame)
        return region :: (← cleanupFrames lower stays outer)

/-- Clean up everything that an exit from the method leaves. -/
def leaveMethod (lower : Lowering) : Emit (List RegionId) := do
  cleanupFrames lower (fun _ => false) (← method).frames

/-- Clean up everything that a jump to a statement leaves. -/
def leaveFor (lower : Lowering) (target : StmtId) : Emit (List RegionId) := do
  let method ← method
  let around := method.parents.ancestors target
  cleanupFrames lower (fun frame => around.contains frame.stmt) method.frames

/-- Go on with the regions that an exit has cut. -/
def resumeRegions (regions : List RegionId) : Emit Unit := regions.forM resumeRegion

/-- Leave for a statement and jump to a label. -/
def exitTo (lower : Lowering) (target : StmtId) (label : Label) : Emit Unit := do
  let regions ← leaveFor lower target
  goto label
  resumeRegions regions

/-- The handler that catches everything: keep the exception, clean up, and throw it again. -/
def rethrowAfter (step : Emit Unit) : Emit Unit :=
  inScope do
    let exception ← newTemp (.ofClass Library.throwable)
    storeRef exception
    step
    loadRef exception
    op .athrow

end Emit

end StackCode
