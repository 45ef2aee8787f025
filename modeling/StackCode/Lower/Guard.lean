import StackCode.Lower.Cleanup

/-!
# Protected statements

A finally body is emitted once as the handler that catches everything and once
more at every exit from what it protects; resources and monitors are treated in
the same way.  Handlers protect the segments that are left after all exits have
cut theirs out.
-/

namespace StackCode
namespace Emit

/-- Run the finally body of a part that has come to its end, and go to the end of the statement. -/
def finishPart
    (lower : Lowering)
    (part : Stmt)
    (finalizer : Option Stmt)
    (done : Label) :
    Emit Unit := do
  if part.completes then
    finalizer.forM (inlineFinalizer lower)
    goto done

/-- Lower a part; if there is a finally body, in a region and under a frame of its own. -/
def inFinalized
    (id : StmtId)
    (finalizer : Option Stmt)
    (step : Emit Unit) :
    Emit (List (Label × Label)) := do
  match finalizer with
  | none =>
    step
    return []
  | some finalizer =>
    let region ← openRegion
    pushFrame id (.finalized finalizer region)
    step
    popFrame
    closeRegion region

/-- Keep the caught exception in the declared local, or else in a temporary. -/
def bindException (clause : CatchClause) : Emit Nat := do
  match clause.decl with
  | some decl => storeDeclared decl clause.body.span
  | none =>
    let temp ← newTemp (clause.type.getD (.ofClass Library.throwable))
    storeRef temp
    return temp

/-- The body of a catch clause. -/
def lowerCatchBody (lower : Lowering) (clause : CatchClause) : Emit Unit :=
  inScope do
    pushCatch (← bindException clause)
    lower clause.body
    popCatch

/-- A catch clause for the given segments; the segments of its own region are returned. -/
def lowerCatch
    (lower : Lowering)
    (id : StmtId)
    (finalizer : Option Stmt)
    (done : Label)
    (segments : List (Label × Label))
    (clause : CatchClause) :
    Emit (List (Label × Label)) := do
  protect segments (← here) clause.type
  let guarded ← inFinalized id finalizer (lowerCatchBody lower clause)
  finishPart lower clause.body finalizer done
  return guarded

/-- The protected block of a try statement; its segments are returned. -/
def lowerGuardBody
    (lower : Lowering)
    (id : StmtId)
    (body : Stmt)
    (finalizer : Option Stmt) :
    Emit (List (Label × Label)) := do
  let region ← openRegion
  finalizer.forM fun finalizer => pushFrame id (.finalized finalizer region)
  lower body
  if finalizer.isSome then popFrame
  closeRegion region

/-- A try statement. -/
def lowerGuard
    (lower : Lowering)
    (id : StmtId)
    (body : Stmt)
    (catches : List CatchClause)
    (finalizer : Option Stmt) :
    Emit Unit := do
  let done ← newLabel
  let segments ← lowerGuardBody lower id body finalizer
  finishPart lower body finalizer done
  let guarded ← catches.mapM (lowerCatch lower id finalizer done segments)
  finalizer.forM fun finalizer => do
    protect (segments ++ guarded.flatten) (← here) none
    rethrowAfter (inlineFinalizer lower finalizer)
  mark done

/--
Lower a part under a frame with a region of its own.  `release` runs when the
part has come to its end and when an exception leaves it.
-/
def lowerReleasing
    (id : StmtId)
    (kind : RegionId → FrameKind)
    (completes : Bool)
    (part release : Emit Unit) :
    Emit Unit := do
  let region ← openRegion
  pushFrame id (kind region)
  part
  popFrame
  let segments ← closeRegion region
  let done ← newLabel
  if completes then
    release
    goto done
  protect segments (← here) none
  rethrowAfter release
  mark done

/-- A statement that holds a monitor. -/
def lowerSynchronized (lower : Lowering) (id : StmtId) (lock : Expr) (body : Stmt) : Emit Unit :=
  inScope do
    pushValue lock
    op .dup
    let slot ← newTemp .object
    storeRef slot
    op .monitorenter
    lowerReleasing id (.monitor slot) body.completes (lower body) (exitMonitor slot)

/-- Acquire a resource and return the slot that holds it. -/
def acquireResource (spans : Bool) (span : Span) (resource : Resource) : Emit Nat := do
  pushValue resource.init
  match resource.decl with
  | none =>
    let temp ← newSpillTemp resource.init.type spans
    storeRef temp
    return temp
  | some decl =>
    if spans then
      op .dup
      let temp ← newSpillTemp decl.type true
      storeRef temp
      let _ ← declareLocal decl
      storeLocal decl.id decl.type span
      return temp
    else storeDeclared decl span

/-- Acquire resources from left to right; each is disposed of after everything to its right. -/
def lowerResources
    (lower : Lowering)
    (tag : StmtTag)
    (spans : Bool)
    (body : Stmt) :
    List Resource → Emit Unit
  | [] => lower body
  | resource :: resources => do
    let slot ← acquireResource spans tag.span resource
    lowerReleasing tag.id (.resource slot resource.dispose) body.completes
      (lowerResources lower tag spans body resources)
      (disposeResource slot resource.dispose)

/-- A statement with resources. -/
def lowerAcquire
    (lower : Lowering)
    (tag : StmtTag)
    (spans : Bool)
    (resources : List Resource)
    (body : Stmt) :
    Emit Unit :=
  inScope (lowerResources lower tag spans body resources)

end Emit
end StackCode
