import StackCode.Tree.Visit

/-!
# Enclosing constructs

While a body is lowered, every construct around the current point has a frame.
Leaving a frame that owns a protected region early takes cleanup code.
-/

namespace StackCode

/-- The number of a protected region within its method. -/
abbrev RegionId := Nat

/-- A construct around the current point. -/
inductive FrameKind where
  /-- A loop. -/
  | loop
  /-- A switch. -/
  | switch
  /-- A labeled statement. -/
  | labeled
  /-- The protected part of a try statement with a finally body. -/
  | finalized (finalizer : Stmt) (region : RegionId)
  /-- A statement that holds the monitor in a slot. -/
  | monitor (slot : Nat) (region : RegionId)
  /-- A statement that has to dispose of the resource in a slot, if there is one. -/
  | resource (slot : Nat) (dispose : MethodRef) (region : RegionId)
  /-- A loop that has to dispose of the iterator in a slot. -/
  | iterator (slot : Nat) (dispose : MethodRef) (region : RegionId)
  deriving Inhabited

/-- A construct around the current point, with the statement it comes from. -/
structure Frame where
  /-- The statement. -/
  stmt : StmtId
  /-- What kind of construct it is. -/
  kind : FrameKind
  deriving Inhabited

namespace Frame

/-- The protected region of a frame. -/
def region? (frame : Frame) : Option RegionId :=
  match frame.kind with
  | .loop => none
  | .switch => none
  | .labeled => none
  | .finalized _ region => some region
  | .monitor _ region => some region
  | .resource _ _ region => some region
  | .iterator _ _ region => some region

/-- Leaving the frame early takes cleanup code. -/
def needsCleanup (frame : Frame) : Bool := frame.region?.isSome

/-- The frame holds a monitor. -/
def isMonitor (frame : Frame) : Bool :=
  match frame.kind with
  | .monitor _ _ => true
  | _ => false

/-- The number of statements that cleaning the frame up lowers again. -/
def finalizerSize (frame : Frame) : Nat :=
  match frame.kind with
  | .finalized finalizer _ => finalizer.size
  | _ => 0

end Frame

/-- A protected range under construction; every cut begins a new segment. -/
structure OpenRegion where
  /-- The finished segments. -/
  segments : List (Label × Label) := []
  /-- The start of the current segment, while protection is on. -/
  current : Option Label := none
  deriving DecidableEq, Repr, Inhabited

namespace OpenRegion

/-- Protection ends here. -/
def suspend (region : OpenRegion) (stop : Label) : OpenRegion :=
  match region.current with
  | some start => { segments := region.segments ++ [(start, stop)], current := none }
  | none => region

/-- Protection is on from here. -/
def resume (region : OpenRegion) (start : Label) : OpenRegion :=
  match region.current with
  | some _ => region
  | none => { region with current := some start }

end OpenRegion

/-! ## Ancestry -/

/-- The statement directly around every statement; the newest entry counts. -/
abbrev ParentMap := List (StmtId × StmtId)

namespace ParentMap

/-- What a visit adds to the open statements, the innermost one first, and to the map. -/
def step (state : List StmtId × ParentMap) : Visit → List StmtId × ParentMap
  | .enter stmt =>
    (stmt.id :: state.1, (state.1.take 1).map (fun parent => (stmt.id, parent)) ++ state.2)
  | .leave _ => (state.1.tail, state.2)
  | _ => state

/-- The parents of all statements inside a body. -/
def ofBody (body : Stmt) : ParentMap := ((body.visits false).foldl step ([], [])).2

/-- Follow the parents of a statement, at most the given number of times and never in a circle. -/
def climb (parents : ParentMap) : Nat → StmtId → List StmtId → List StmtId
  | 0, _, seen => seen
  | steps + 1, id, seen =>
    if id ∈ seen then seen
    else
      match parents.lookup id with
      | some parent => climb parents steps parent (id :: seen)
      | none => id :: seen

/-- A statement and all statements around it. -/
def ancestors (parents : ParentMap) (id : StmtId) : List StmtId :=
  climb parents (parents.length + 2) id []

end ParentMap

end StackCode
