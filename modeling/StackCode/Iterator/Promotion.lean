import StackCode.Tree.FreeLocals

/-!
# Promotion

Which locals of an iterator need a field because their values must survive a
suspension.  The body is read once, in source order.  A local is promoted if it
is met both before and after a suspension point, or inside a suspending loop
that it was first met outside of; a parameter is promoted as soon as it is used.
A local that a lambda captures lives in its field all the time.
-/

namespace StackCode

/-- The locals of an iterator that need a field, each set in ascending order. -/
structure Promotion where
  /-- Kept in a slot while the iterator runs and in a field while it is suspended. -/
  promoted : List LocalId
  /-- Kept in a field all the time. -/
  resident : List LocalId
  deriving DecidableEq, Repr, Inhabited

/-- Where a local was first met. -/
structure FirstUse where
  /-- The number of suspension points before it. -/
  epoch : Nat
  /-- The number of loops around it. -/
  loopDepth : Nat
  deriving DecidableEq, Repr, Inhabited

/-- What is known of the locals while a body is read. -/
structure Liveness where
  /-- The number of suspension points so far. -/
  epoch : Nat := 0
  /-- For every loop around the current point, the innermost one first, whether it suspends. -/
  loops : List Bool := []
  /-- Where locals were first met. -/
  first : List (LocalId × FirstUse) := []
  /-- The locals that need a field. -/
  promoted : List LocalId := []
  deriving DecidableEq, Repr, Inhabited

namespace Liveness

/-- A suspension lies between the first use of a local and the current point. -/
def isCrossed (state : Liveness) (first : FirstUse) : Bool :=
  first.epoch ≠ state.epoch || (state.loops.take (state.loops.length - first.loopDepth)).any id

/-- A local that is no parameter is met. -/
def touch (state : Liveness) (id : LocalId) : Liveness :=
  match state.first.lookup id with
  | some first =>
    if state.isCrossed first then { state with promoted := id :: state.promoted } else state
  | none =>
    let now : FirstUse := { epoch := state.epoch, loopDepth := state.loops.length }
    { state with first := (id, now) :: state.first }

/-- A local is met. -/
def meet (params : List LocalDecl) (state : Liveness) (id : LocalId) : Liveness :=
  if params.any fun param => param.id == id then { state with promoted := id :: state.promoted }
  else state.touch id

/-- What a visit adds. -/
def step (params : List LocalDecl) (state : Liveness) : Visit → Liveness
  | .enter stmt => if stmt.isLoop then { state with loops := stmt.yields :: state.loops } else state
  | .leave (.yield _ (some _)) => { state with epoch := state.epoch + 1 }
  | .leave stmt => if stmt.isLoop then { state with loops := state.loops.tail } else state
  | .declare decl => state.meet params decl.id
  | .expr (.localVar _ id) => state.meet params id
  | .expr (.assign _ target _) => state.meet params target
  | _ => state

end Liveness

/-- The locals of an iterator body that need a field. -/
def Stmt.promotion (body : Stmt) (params : List LocalDecl) : Promotion :=
  let final := (body.visits false).foldl (Liveness.step params) {}
  let resident := body.captured
  { promoted := LocalId.ascending (final.promoted.filter fun id => !resident.contains id)
    resident }

end StackCode
