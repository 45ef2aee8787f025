import Mathlib.Data.List.Flatten
import Mathlib.Data.List.Zip
import StackCode.Proofs.Constructs
import StackCode.Proofs.Continuation

/-!
# How a lowering is put together

Every lowering is made of the same few kinds of steps: plain ones, the labels of
statements, scopes, frames, protected regions, copies of finally bodies, exits,
and the lowering of the statements inside.  This module says once for every
statement how its lowering is made of them; what holds of the steps then holds
of every lowering.

A step is described by the constructs around it before and after, and by what it
uses up: the statements whose labels it binds, the labels that it binds itself,
the regions that it closes, and the statements that it lowers, in their order.
-/

namespace StackCode

namespace MethodContext

/-- The method with one more construct around the current point. -/
def push (method : MethodContext) (frame : Frame) : MethodContext :=
  { method with frames := frame :: method.frames }

/-- The method without the innermost construct. -/
def pop (method : MethodContext) : MethodContext := { method with frames := method.frames.tail }

/-- The method in a finally body, with the given constructs around it. -/
def finalizing (method : MethodContext) (frames : List Frame) : MethodContext :=
  { method with frames, finallyDepth := method.finallyDepth + 1 }

/-- The finally bodies of the constructs around a point may be lowered there. -/
def AllowsCleanup (start : MethodContext) (Call : MethodContext → Stmt → Prop) : Prop :=
  ∀ inner frame outer finalizer region, start.frames = inner ++ frame :: outer →
    frame.kind = .finalized finalizer region → Call (start.finalizing outer) finalizer

/-- The method in the sections of a switch. -/
def inSwitch (method : MethodContext) (id : StmtId) (cases : CaseMap) : MethodContext :=
  { method with switches := (id, cases) :: method.switches }.push { stmt := id, kind := .switch }

/-- The place of a part of a statement, which the given constructs of the statement protect. -/
structure Inside
    (outer : MethodContext)
    (id : StmtId)
    (protects : List Construct)
    (inner : MethodContext) :
    Prop where
  /-- The frames of the statement come before those around it. -/
  frames : ∃ own,
    inner.frames = own ++ outer.frames ∧ (∀ frame ∈ own, frame.stmt = id) ∧
      own.filterMap Frame.construct? = protects
  /-- So do the sections of the statement, if it is a switch. -/
  switches : ∃ own, inner.switches = own ++ outer.switches ∧ ∀ entry ∈ own, entry.1 = id
  /-- It is the same body. -/
  parents : inner.parents = outer.parents
  /-- The part is in no further finally body. -/
  finallyDepth : inner.finallyDepth = outer.finallyDepth

namespace Inside

variable {outer between inner : MethodContext} {id : StmtId} {first second : List Construct}

/-- The constructs that protect the part come before those around the statement. -/
theorem constructs (inside : outer.Inside id first inner) :
    inner.constructs = first ++ outer.constructs := by
  obtain ⟨own, frames, -, rfl⟩ := inside.frames
  unfold MethodContext.constructs
  rw [frames, List.filterMap_append]

theorem refl (method : MethodContext) (id : StmtId) : method.Inside id [] method where
  frames := ⟨[], rfl, nofun, rfl⟩
  switches := ⟨[], rfl, nofun⟩
  parents := rfl
  finallyDepth := rfl

/-- The protection of two places adds up. -/
theorem trans (outside : outer.Inside id first between) (inside : between.Inside id second inner) :
    outer.Inside id (second ++ first) inner where
  frames := by
    obtain ⟨added, frames, own, rfl⟩ := inside.frames
    obtain ⟨earlier, earlierFrames, earlierOwn, rfl⟩ := outside.frames
    refine ⟨added ++ earlier, ?_, ?_, List.filterMap_append⟩
    · rw [frames, earlierFrames, List.append_assoc]
    · intro frame member
      obtain member | member := List.mem_append.mp member
      · exact own frame member
      · exact earlierOwn frame member
  switches := by
    obtain ⟨added, switches, own⟩ := inside.switches
    obtain ⟨earlier, earlierSwitches, earlierOwn⟩ := outside.switches
    refine ⟨added ++ earlier, ?_, List.forall_mem_append.mpr ⟨own, earlierOwn⟩⟩
    rw [switches, earlierSwitches, List.append_assoc]
  parents := inside.parents.trans outside.parents
  finallyDepth := inside.finallyDepth.trans outside.finallyDepth

end Inside

/-- A frame is inside the constructs around it. -/
theorem inside_push (method : MethodContext) (frame : Frame) :
    method.Inside frame.stmt frame.construct?.toList (method.push frame) where
  frames := by
    refine ⟨[frame], rfl, ?_, by cases found : frame.construct? <;> simp [found]⟩
    intro other member
    rw [List.mem_singleton.mp member]
  switches := ⟨[], rfl, nofun⟩
  parents := rfl
  finallyDepth := rfl

/-- The sections of a switch are not protected by it. -/
theorem inside_inSwitch (method : MethodContext) (id : StmtId) (cases : CaseMap) :
    method.Inside id [] (method.inSwitch id cases) where
  frames := ⟨[{ stmt := id, kind := .switch }], rfl, by simp, rfl⟩
  switches := ⟨[(id, cases)], rfl, by simp⟩
  parents := rfl
  finallyDepth := rfl

/-- A frame without a cleanup protects nothing. -/
theorem inside_push_of_none
    (method : MethodContext) {id : StmtId} {kind : FrameKind}
    (found : Frame.construct? { stmt := id, kind } = none) :
    method.Inside id [] (method.push { stmt := id, kind }) := by
  have inside := method.inside_push { stmt := id, kind }
  rwa [found] at inside

end MethodContext

namespace Emit

variable {stmt : Stmt} {start : MethodContext}

/--
A step that is put together from the elementary steps of lowering; `apart` says that no
two constructs around a point share a region.
-/
inductive Woven
    (apart : Prop)
    (lower : Lowering)
    (Call : MethodContext → Stmt → Prop) :
    (start stop : MethodContext) →
    (ids : List StmtId) →
    (labels : List Label) →
    (regions : List RegionId) →
    (parts : List Stmt) →
    {α : Type} → Emit α → Prop where
  /-- Code is emitted. -/
  | plain {start ids labels regions parts} {step : Emit α}
      (stepPlain : ∀ {writable}, Plain writable .any (fun _ => True) labels step) :
      Woven apart lower Call start start ids labels regions parts step
  /-- The step fails. -/
  | throw {start stop ids labels regions parts} {error : Error}
      (proper : (error.breaksBookkeeping || error.exceedsRoom) = false) :
      Woven apart lower Call start stop ids labels regions parts (throw error : Emit α)
  /-- Less is used up than there is. -/
  | weaken {start stop ids labels regions parts ids' labels' regions' parts'} {step : Emit α}
      (woven : Woven apart lower Call start stop ids' labels' regions' parts' step)
      (idsWithin : ids'.Subperm ids)
      (labelsWithin : labels'.Subperm labels)
      (regionsWithin : regions'.Subperm regions)
      (partsWithin : parts'.Sublist parts) :
      Woven apart lower Call start stop ids labels regions parts step
  /-- One step after the other. -/
  | bind {start between stop ids labels regions parts ids' labels' regions' parts'}
      {first : Emit α} {next : α → Emit β}
      (firstWoven : Woven apart lower Call start between ids labels regions parts first)
      (nextWoven : ∀ value,
        Woven apart lower Call between stop ids' labels' regions' parts' (next value)) :
      Woven apart lower Call start stop (ids ++ ids') (labels ++ labels') (regions ++ regions')
        (parts ++ parts') (first >>= next)
  /-- The state is read. -/
  | reading {start stop ids labels regions parts} {next : MethodContext → Emit β}
      (nextWoven : ∀ method, method.setting = start →
        Woven apart lower Call start stop ids labels regions parts (next method)) :
      Woven apart lower Call start stop ids labels regions parts (method >>= next)
  /-- A label is handed out for the steps that follow. -/
  | fresh {start stop ids labels regions parts} {next : Label → Emit β}
      (nextWoven : ∀ label,
        Woven apart lower Call start stop ids (labels ++ [label]) regions parts (next label)) :
      Woven apart lower Call start stop ids labels regions parts (newLabel >>= next)
  /-- The labels of a statement are left to be bound by the steps that follow. -/
  | ownLabels {start stop ids labels regions parts} {id : StmtId} {next : StmtLabels → Emit β}
      (nextWoven : ∀ found : StmtLabels,
        Woven apart lower Call start stop ids
          (labels ++ [found.start, found.next, found.stop]) regions parts (next found)) :
      Woven apart lower Call start stop (id :: ids) labels regions parts (labelsOf id >>= next)
  /-- The labels of some statement are looked up. -/
  | otherLabels {start ids labels regions parts} (id : StmtId) :
      Woven apart lower Call start start ids labels regions parts (labelsOf id)
  /-- A label is handed out for the current position. -/
  | here {start ids labels regions parts} :
      Woven apart lower Call start start ids labels regions parts here
  /-- Segments are protected. -/
  | protect {start ids labels regions parts}
      (segments : List (Label × Label)) (handler : Label) (catchType : Option Ty) :
      Woven apart lower Call start start ids labels regions parts
        (protect segments handler catchType)
  /-- A local gets its storage. -/
  | declareLocal {start ids labels regions parts} (decl : LocalDecl) :
      Woven apart lower Call start start ids labels regions parts (declareLocal decl)
  /-- A temporary is reserved that may be kept at suspensions. -/
  | newSpillTemp {start ids labels regions parts} (type : Ty) (spans : Bool) :
      Woven apart lower Call start start ids labels regions parts (newSpillTemp type spans)
  /-- A scope is opened and closed again. -/
  | inScope {start ids labels regions parts} {step : Emit Unit}
      (inside : Woven apart lower Call start start ids labels regions parts step) :
      Woven apart lower Call start start ids labels regions parts (inScope step)
  /-- A construct begins; its region is a new one that the steps that follow close. -/
  | pushFrame {start stop ids labels regions parts} {id : StmtId} {kind : FrameKind}
      {next : Emit β}
      (opened : apart → ∀ region ∈ Frame.region? { stmt := id, kind }, region ∈ regions ∧
        ∀ frame ∈ start.frames, frame.region? ≠ some region)
      (nextWoven : Woven apart lower Call (start.push { stmt := id, kind }) stop ids labels
        regions parts next) :
      Woven apart lower Call start stop ids labels regions parts
        (pushFrame id kind >>= fun _ => next)
  /-- The innermost construct ends. -/
  | popFrame {start ids labels regions parts} :
      Woven apart lower Call start start.pop ids labels regions parts popFrame
  /-- A catch body begins. -/
  | pushCatch {start ids labels regions parts} (slot : Nat) :
      Woven apart lower Call start { start with catchSlots := slot :: start.catchSlots } ids
        labels regions parts (pushCatch slot)
  /-- A catch body ends. -/
  | popCatch {start ids labels regions parts} :
      Woven apart lower Call start { start with catchSlots := start.catchSlots.tail } ids
        labels regions parts popCatch
  /-- The sections of a switch begin. -/
  | pushSwitch {start ids labels regions parts} (id : StmtId) (cases : CaseMap) :
      Woven apart lower Call start { start with switches := (id, cases) :: start.switches } ids
        labels regions parts (pushSwitch id cases)
  /-- The sections of a switch end. -/
  | popSwitch {start ids labels regions parts} :
      Woven apart lower Call start { start with switches := start.switches.tail } ids
        labels regions parts popSwitch
  /-- A region is opened that the steps that follow close. -/
  | openRegion {start stop ids labels regions parts} {next : RegionId → Emit β}
      (nextWoven : ∀ region, (apart → ∀ frame ∈ start.frames, frame.region? ≠ some region) →
        Woven apart lower Call start stop ids labels (regions ++ [region]) parts
          (next region)) :
      Woven apart lower Call start stop ids labels regions parts (openRegion >>= next)
  /-- A region is closed that no construct around the current point has. -/
  | closeRegion {start ids labels regions parts} {region : RegionId}
      (absent : apart → ∀ frame ∈ start.frames, frame.region? ≠ some region)
      (member : region ∈ regions) :
      Woven apart lower Call start start ids labels regions parts (closeRegion region)
  /-- A statement inside is lowered. -/
  | call {start ids labels regions parts} {stmt : Stmt}
      (allowed : Call start stmt)
      (member : stmt ∈ parts) :
      Woven apart lower Call start start ids labels regions parts (lower stmt)
  /-- A finally body is copied. -/
  | copy {start ids labels regions parts} {finalizer : Stmt}
      (allowed : Call (start.finalizing start.frames) finalizer) :
      Woven apart lower Call start start ids labels regions parts
        (inlineFinalizer lower finalizer)
  /-- Constructs are left, with a cleanup for each. -/
  | exit {start ids labels regions parts} {stays : Frame → Bool} {leave : Emit Unit}
      (allowed : start.AllowsCleanup Call)
      (leavePlain : ∀ {writable}, Plain writable .any (fun _ => True) [] leave) :
      Woven apart lower Call start start ids labels regions parts (do
        let cut ← cleanupFrames lower stays start.frames
        leave
        resumeRegions cut)

namespace Woven

variable {apart : Prop} {lower : Lowering} {Call : MethodContext → Stmt → Prop}
variable {start between stop : MethodContext}
variable {ids : List StmtId} {labels : List Label} {regions : List RegionId} {parts : List Stmt}
variable {body : Stmt} {step : Emit α} {next : Emit β} {first : Emit Unit}

/-! ## Sequences -/

/-- A step that uses nothing up leaves everything for the steps that follow. -/
theorem andThen
    {first : Emit α} {next : α → Emit β}
    (firstWoven : Woven apart lower Call start between [] [] [] [] first)
    (nextWoven : ∀ value,
      Woven apart lower Call between stop ids labels regions parts (next value)) :
    Woven apart lower Call start stop ids labels regions parts (first >>= next) :=
  .bind firstWoven nextWoven

theorem seq
    (firstWoven : Woven apart lower Call start between [] [] [] [] first)
    (nextWoven : Woven apart lower Call between stop ids labels regions parts next) :
    Woven apart lower Call start stop ids labels regions parts (first >>= fun _ => next) :=
  .andThen firstWoven fun _ => nextWoven

/-- All statements are lowered before the steps that follow. -/
theorem partsFirst
    {first : Emit α} {next : α → Emit β}
    (firstWoven : Woven apart lower Call start between [] [] [] parts first)
    (nextWoven : ∀ value,
      Woven apart lower Call between stop ids labels regions [] (next value)) :
    Woven apart lower Call start stop ids labels regions parts (first >>= next) := by
  have whole := Woven.bind firstWoven nextWoven
  rwa [List.append_nil] at whole

/-- Code is emitted before the steps that follow. -/
theorem code
    (firstPlain : ∀ {writable}, Plain writable .any (fun _ => True) [] first)
    (nextWoven : Woven apart lower Call start stop ids labels regions parts next) :
    Woven apart lower Call start stop ids labels regions parts (first >>= fun _ => next) :=
  .seq (.plain firstPlain) nextWoven

theorem pure (value : α) :
    Woven apart lower Call start start ids labels regions parts (pure value : Emit α) :=
  .plain (.pure value)

/-- A label is bound, and the others are left for the steps that follow. -/
theorem mark
    {label : Label}
    (nextWoven : Woven apart lower Call start stop ids labels regions parts next) :
    Woven apart lower Call start stop ids (label :: labels) regions parts
      (mark label >>= fun _ => next) := by
  have first : Woven apart lower Call start start [] [label] [] [] (Emit.mark label) :=
    .plain (.markOne trivial)
  exact .bind first fun _ => nextWoven

/-- A label is bound in the end. -/
theorem markLast {label : Label} :
    Woven apart lower Call start start ids [label] regions parts (Emit.mark label) :=
  .plain (.markOne trivial)

/-- A statement is lowered, and the others are left for the steps that follow. -/
theorem part
    {stmt : Stmt}
    (allowed : Call start stmt)
    (nextWoven : Woven apart lower Call start stop ids labels regions parts next) :
    Woven apart lower Call start stop ids labels regions (stmt :: parts)
      (lower stmt >>= fun _ => next) := by
  have first : Woven apart lower Call start start [] [] [] [stmt] (lower stmt) :=
    .call allowed (List.mem_singleton.mpr rfl)
  exact .bind first fun _ => nextWoven

/-- A statement is lowered in the end. -/
theorem partLast {stmt : Stmt} (allowed : Call start stmt) :
    Woven apart lower Call start start ids labels regions [stmt] (lower stmt) :=
  .call allowed (List.mem_singleton.mpr rfl)

/-- Only labels are left over or out of order. -/
theorem bindLess
    {less : List Label}
    (woven : Woven apart lower Call start stop ids less regions parts step)
    (within : less.Subperm labels) :
    Woven apart lower Call start stop ids labels regions parts step :=
  .weaken woven (List.Subperm.refl _) within (List.Subperm.refl _) (List.Sublist.refl _)

/-- Statements are left out. -/
theorem lowerLess
    {less : List Stmt}
    (woven : Woven apart lower Call start stop ids labels regions less step)
    (within : less.Sublist parts) :
    Woven apart lower Call start stop ids labels regions parts step :=
  .weaken woven (List.Subperm.refl _) (List.Subperm.refl _) (List.Subperm.refl _) within

/-- No labels of statements are bound. -/
theorem claimNone (woven : Woven apart lower Call start stop [] labels regions parts step) :
    Woven apart lower Call start stop ids labels regions parts step :=
  .weaken woven List.nil_subperm (List.Subperm.refl _) (List.Subperm.refl _) (List.Sublist.refl _)

/-- Nothing is used up of what there is. -/
theorem none (woven : Woven apart lower Call start stop [] [] [] [] step) :
    Woven apart lower Call start stop ids labels regions parts step :=
  .weaken woven List.nil_subperm List.nil_subperm List.nil_subperm (List.nil_sublist _)

theorem ite {condition : Prop} [Decidable condition] {other : Emit α}
    (stepWoven : Woven apart lower Call start stop ids labels regions parts step)
    (otherWoven : Woven apart lower Call start stop ids labels regions parts other) :
    Woven apart lower Call start stop ids labels regions parts
      (if condition then step else other) := by
  split
  · exact stepWoven
  · exact otherWoven

/-- Code is emitted before the steps that follow, or it is not. -/
theorem codeIf {condition : Prop} [Decidable condition] {next : Unit → Emit β}
    (firstPlain : ∀ {writable}, Plain writable .any (fun _ => True) [] first)
    (nextWoven : Woven apart lower Call start stop ids labels regions parts (next ())) :
    Woven apart lower Call start stop ids labels regions parts
      (if condition then first >>= next else next ()) :=
  .ite (.andThen (.plain firstPlain) fun _ => nextWoven) nextWoven

/-- Statements are lowered one after the other. -/
theorem forM
    (stmts : List Stmt)
    (allowed : ∀ stmt ∈ stmts, Call start stmt) :
    Woven apart lower Call start start ids labels regions stmts (stmts.forM lower) := by
  induction stmts with
  | nil => exact pure ()
  | cons stmt stmts ih =>
    refine part (allowed stmt List.mem_cons_self) (ih ?_)
    exact fun other member => allowed other (List.mem_cons_of_mem stmt member)

/-- Labels are handed out for the steps that follow. -/
theorem freshList
    (count : Nat) {next : List Label → Emit β}
    (nextWoven : ∀ found,
      Woven apart lower Call start stop ids (labels ++ found) regions parts (next found)) :
    Woven apart lower Call start stop ids labels regions parts (newLabels count >>= next) := by
  induction count generalizing labels next with
  | zero =>
    have nothing := nextWoven []
    rw [List.append_nil] at nothing
    exact nothing
  | succ count ih =>
    have split : (newLabels (count + 1) >>= next) =
        (newLabel >>= fun label => newLabels count >>= fun found => next (label :: found)) := by
      simp only [newLabels, bind_assoc, pure_bind]
    rw [split]
    refine .fresh fun label => ih fun found => ?_
    rw [List.append_assoc]
    exact nextWoven (label :: found)

/-! ## Storage -/

theorem storeDeclared (decl : LocalDecl) (span : Span) :
    Woven apart lower Call start start ids labels regions parts (storeDeclared decl span) := by
  refine .andThen (.declareLocal decl) fun access => ?_
  cases access with
  | slot slot kind => exact .plain (.seq (.store kind slot) (.pure slot))
  | captured holder path =>
    refine .plain (.seq (.op .dup) (.bind (.newTemp decl.type) fun temp => ?_))
    exact .seq (.store _ temp) (.seq (.storeLocal _ _ _) (.pure temp))

theorem bindElement (decl : LocalDecl) (span : Span) :
    Woven apart lower Call start start ids labels regions parts (bindElement decl span) :=
  .andThen (.declareLocal decl) fun _ => .plain (.storeLocal _ _ _)

theorem bindException (clause : CatchClause) :
    Woven apart lower Call start start ids labels regions parts (bindException clause) := by
  unfold Emit.bindException
  split
  · exact storeDeclared _ _
  · exact .plain (.bind (.newTemp _) fun temp => .seq (.store _ temp) (.pure temp))

theorem acquireResource (spans : Bool) (span : Span) (resource : Resource) :
    Woven apart lower Call start start ids labels regions parts
      (acquireResource spans span resource) := by
  refine .code (.pushValue .all) ?_
  split
  · exact .andThen (.newSpillTemp _ spans) fun temp => .plain (.seq (.store _ temp) (.pure temp))
  · refine .ite (.code (.op _) (.andThen (.newSpillTemp _ true) fun temp => ?_)) (storeDeclared _ _)
    refine .code (.store _ temp) (.andThen (.declareLocal _) fun _ => ?_)
    exact .plain (.seq (.storeLocal _ _ _) (.pure temp))

theorem lowerDeclarators (span : Span) (declarators : List Declarator) :
    Woven apart lower Call start start ids labels regions parts
      (lowerDeclarators span declarators) := by
  unfold Emit.lowerDeclarators
  induction declarators with
  | nil => exact pure ()
  | cons declarator declarators ih =>
    refine .seq (.andThen (.declareLocal _) fun _ => ?_) ih
    split
    · exact .plain (.seq (.pushValue .all) (.storeLocal _ _ _))
    · refine .andThen
        (.plain (.bind (.looking (fun _ _ => rfl) fun _ => .pure _) fun _ => .pure _)) fun _ => ?_
      exact .ite (.plain (.seq (.pushZero _) (.storeLocal _ _ _))) (pure ())

/-! ## Exits -/

section Exits

variable (allowed : start.AllowsCleanup Call)
include allowed

theorem leaving
    {leave : Emit Unit}
    (leavePlain : ∀ {writable}, Plain writable .any (fun _ => True) [] leave) :
    Woven apart lower Call start start ids labels regions parts (do
      let cut ← leaveMethod lower
      leave
      resumeRegions cut) := by
  simp only [leaveMethod, bind_assoc]
  refine .reading fun method current => ?_
  have frames : method.frames = start.frames := by rw [← current]; rfl
  rw [frames]
  exact .exit allowed leavePlain

theorem exitTo (target : StmtId) (label : Label) :
    Woven apart lower Call start start ids labels regions parts (exitTo lower target label) := by
  simp only [Emit.exitTo, leaveFor, bind_assoc]
  refine .reading fun method current => ?_
  have frames : method.frames = start.frames := by rw [← current]; rfl
  rw [frames]
  exact .exit allowed (.goto trivial)

theorem lowerJump (stmt : Stmt) (label : StmtLabels → Label) :
    Woven apart lower Call start start ids labels regions parts (lowerJump lower stmt label) :=
  .andThen (.plain (.targetOf stmt)) fun target =>
    .andThen (.otherLabels target) fun _ => exitTo allowed target _

theorem lowerGotoCase (stmt : Stmt) (key : Option Expr) :
    Woven apart lower Call start start ids labels regions parts
      (lowerGotoCase lower stmt key) := by
  refine .andThen (.plain (.targetOf stmt)) fun target => ?_
  refine .andThen (.plain (.gotoKey key)) fun key => ?_
  refine .andThen (.plain (.looking (fun _ _ => rfl) fun _ => .pure _)) fun label => ?_
  cases label with
  | some label => exact exitTo allowed target label
  | none => exact .throw rfl

/-- A return leaves all constructs. -/
theorem lowerReturn (value : Option Expr) :
    Woven apart lower Call start start ids labels regions parts (lowerReturn lower value) := by
  cases value with
  | none => exact leaving allowed (.op _)
  | some value =>
    refine .reading fun method _ => ?_
    refine .andThen (.plain (.looking (fun _ _ => rfl) fun _ => .pure _)) fun pending => .ite ?_ ?_
    · refine .code (.pushValue .all) (.andThen (.plain (.newTemp _)) fun temp => ?_)
      refine .code (.store _ temp) ?_
      have leave : Woven apart lower Call start start ids labels regions parts (do
          let cut ← leaveMethod lower
          (do load method.returnType.kind temp; returnKind method.returnType.kind)
          resumeRegions cut) :=
        leaving allowed (.seq (.load _ temp) (.op _))
      simpa only [bind_assoc] using leave
    · exact .plain (.seq (.pushValue .all) (.op _))

end Exits

/-! ## Conditionals and loops -/

/-- The branches stand where the statement does. -/
theorem lowerTested
    (condition : Expr) {thenBranch : Stmt} {elseBranch : Option Stmt}
    (allowedThen : Call start thenBranch)
    (allowedElse : ∀ stmt ∈ elseBranch, Call start stmt) :
    Woven apart lower Call start start ids [] regions (thenBranch :: elseBranch.toList)
      (lowerTested lower condition thenBranch elseBranch) := by
  refine .fresh fun whenTrue => .fresh fun whenFalse => ?_
  refine .code (.branch .all trivial trivial) (.mark (.part allowedThen ?_))
  cases elseBranch with
  | none => exact .markLast
  | some elseBranch =>
    refine .fresh fun done => .codeIf (.goto trivial) (.mark (.part (allowedElse _ rfl) ?_))
    exact .ite .markLast (pure ())

theorem lowerCond
    (condition : Expr) {thenBranch : Stmt} {elseBranch : Option Stmt}
    (allowedThen : Call start thenBranch)
    (allowedElse : ∀ stmt ∈ elseBranch, Call start stmt) :
    Woven apart lower Call start start ids [] regions (thenBranch :: elseBranch.toList)
      (lowerCond lower condition thenBranch elseBranch) := by
  unfold Emit.lowerCond
  split
  · exact .call allowedThen List.mem_cons_self
  · cases elseBranch with
    | none => exact pure ()
    | some elseBranch => exact .call (allowedElse _ rfl) (by simp)
  · exact lowerTested condition allowedThen allowedElse

/-- The body of a loop stands inside it. -/
theorem lowerWhile
    (id : StmtId) (condition : Expr)
    (allowed : Call (start.push { stmt := id, kind := .loop }) body) :
    Woven apart lower Call start start [id] [] regions [body]
      (lowerWhile lower id condition body) := by
  refine .ite (pure ()) (.ownLabels fun labels => .pushFrame nofun (.codeIf (.goto trivial) ?_))
  refine .mark (.part allowed (.mark ?_))
  split
  · exact .code (.goto trivial) (.seq .popFrame .markLast)
  · exact .code (.branch .all trivial trivial) (.seq .popFrame .markLast)

theorem lowerDo
    (id : StmtId) (condition : Expr)
    (allowed : Call (start.push { stmt := id, kind := .loop }) body) :
    Woven apart lower Call start start [id] [] regions [body]
      (lowerDo lower id body condition) := by
  refine .ownLabels fun labels => .pushFrame nofun (.mark (.part allowed (.mark ?_)))
  split
  · exact .code (.goto trivial) (.seq .popFrame .markLast)
  · exact .seq .popFrame .markLast
  · exact .code (.branch .all trivial trivial) (.seq .popFrame .markLast)

/-- The label of a test is handed out last but bound before the end of the loop. -/
theorem subperm_test (labels : StmtLabels) (test : Label) :
    [labels.start, labels.next, test, labels.stop].Subperm
      [labels.start, labels.next, labels.stop, test] :=
  List.Perm.subperm (.cons _ (.cons _ (.swap _ _ _)))

/-- The update and the test stand behind the body. -/
theorem lowerForRounds
    (id : StmtId) (condition : Option Expr) (update : List Expr)
    (allowed : Call (start.push { stmt := id, kind := .loop }) body) :
    Woven apart lower Call start start [id] [] regions [body]
      (lowerForRounds lower id condition update body) := by
  refine .ownLabels fun labels => .fresh fun test => ?_
  refine .bindLess (.pushFrame nofun (.codeIf (.goto trivial) (.mark (.part allowed ?_))))
    (subperm_test labels test)
  refine .mark (.code (.forM _ fun expr _ => .evaluate .all) ?_)
  cases condition with
  | some condition =>
    exact .mark (.code (.branch .all trivial trivial) (.seq .popFrame .markLast))
  | none =>
    refine .code (.goto trivial) (.seq .popFrame (.bindLess .markLast ?_))
    exact (List.sublist_cons_self _ _).subperm

theorem lowerFor
    (id : StmtId) {init : List Stmt} (condition : Option Expr) (update : List Expr)
    (allowedInit : ∀ stmt ∈ init, Call start stmt)
    (allowed : Call (start.push { stmt := id, kind := .loop }) body) :
    Woven apart lower Call start start [id] [] regions (init ++ [body])
      (lowerFor lower id init condition update body) := by
  have initial : Woven apart lower Call start start [] [] [] init (init.forM lower) :=
    forM init allowedInit
  refine .inScope (.bind initial fun _ => ?_)
  split
  · exact pure ()
  · exact lowerForRounds id _ update allowed
  · exact lowerForRounds id condition update allowed

theorem lowerLabeled
    (id : StmtId)
    (allowed : Call (start.push { stmt := id, kind := .labeled }) body) :
    Woven apart lower Call start start [id] [] regions [body] (lowerLabeled lower id body) := by
  refine .ownLabels fun labels => .pushFrame nofun (.mark (.part allowed (.seq .popFrame ?_)))
  exact .bindLess .markLast (List.sublist_cons_self _ _).subperm

/-! ## Loops over collections -/

theorem lowerArrayLoop
    (tag : StmtTag) (spans : Bool) (labels : StmtLabels) (decl : LocalDecl) (collection : Expr)
    (allowed : Call (start.push { stmt := tag.id, kind := .loop }) body) :
    Woven apart lower Call start start ids [labels.start, labels.next, labels.stop] regions
      [body] (lowerArrayLoop lower tag spans labels decl collection body) := by
  unfold Emit.lowerArrayLoop
  split
  · exact .plain (.fail rfl)
  · next element _ =>
    refine .code (.pushValue .all) (.andThen (.newSpillTemp _ spans) fun array => ?_)
    refine .code (.store _ array) (.andThen (.newSpillTemp _ spans) fun index => ?_)
    refine .code (.push _) (.code (.store _ index) (.fresh fun test => ?_))
    refine .bindLess (.pushFrame nofun (.code (.goto trivial) (.mark ?_)))
      (subperm_test labels test)
    have round : Woven apart lower Call (start.push { stmt := tag.id, kind := .loop })
        (start.push { stmt := tag.id, kind := .loop }) [] [] [] [body] (Emit.inScope do
          loadRef array
          load .int index
          op (elementLoad element)
          Emit.bindElement decl tag.span
          lower body) :=
      .inScope (.code (.load _ _) (.code (.load _ _) (.code (.op _)
        (.seq (bindElement decl tag.span) (.partLast allowed)))))
    refine .bind round fun _ =>
      .mark (.code (.quiet rfl nofun nofun) (.mark (.code (.load _ _) ?_)))
    exact .code (.load _ _) (.code (.op _) (.code (.jump _ trivial) (.seq .popFrame .markLast)))

/-- The iterator is asked behind the body whether it goes on. -/
theorem lowerIteratorRounds
    (tag : StmtTag) (labels : StmtLabels) (decl : LocalDecl) (slot : Nat) (hasNext next : MethodRef)
    (allowed : Call (start.push { stmt := tag.id, kind := .loop }) body) :
    Woven apart lower Call start start ids [labels.start, labels.next, labels.stop] regions
      [body] (lowerIteratorRounds lower tag labels decl slot hasNext next body) := by
  refine .pushFrame nofun (.code (.goto trivial) (.mark ?_))
  have element : Woven apart lower Call (start.push { stmt := tag.id, kind := .loop })
      (start.push { stmt := tag.id, kind := .loop }) [] [] [] [body] (Emit.inScope do
        loadRef slot
        invoke next
        if decl.type.erasure ≠ next.ret.erasure then checkCast decl.type.erasure
        Emit.bindElement decl tag.span
        lower body) :=
    .inScope (.code (.load _ _) (.code (.invoke trivial) (.codeIf (.checkCast _)
      (.seq (bindElement decl tag.span) (.partLast allowed)))))
  refine .bind element fun _ => .mark (.code (.load _ _) (.code (.invoke trivial) ?_))
  exact .code (.jump _ trivial) (.seq .popFrame .markLast)

theorem rethrowAfter
    {step : Emit Unit}
    (inside : Woven apart lower Call start start [] [] [] [] step) :
    Woven apart lower Call start start ids labels regions parts (rethrowAfter step) := by
  refine .none (.inScope (.andThen (.plain (.newTemp _)) fun exception => ?_))
  exact .code (.store _ _) (.seq inside (.plain (.seq (.load _ _) (.op _))))

/-- The region of a loop is closed before its iterator is disposed of. -/
theorem lowerDisposing
    (id : StmtId) (slot : Nat) (dispose : MethodRef) {rounds : Emit Unit}
    (inside : ∀ region,
      Woven apart lower Call (start.push { stmt := id, kind := .iterator slot dispose region })
        (start.push { stmt := id, kind := .iterator slot dispose region }) [] labels [] parts
        rounds) :
    Woven apart lower Call start start ids labels [] parts
      (lowerDisposing id slot dispose rounds) := by
  refine .openRegion fun region absent => .pushFrame ?_ ?_
  · rintro told _ ⟨⟩
    exact ⟨List.mem_singleton.mpr rfl, absent told⟩
  · have rest : Woven apart lower Call
        (start.push { stmt := id, kind := .iterator slot dispose region }) start ids [] [region]
        [] (do
          Emit.popFrame
          let segments ← Emit.closeRegion region
          let after ← newLabel
          disposeIterator slot dispose
          goto after
          Emit.protect segments (← Emit.here) Option.none
          Emit.rethrowAfter (disposeIterator slot dispose)
          Emit.mark after) := by
      refine .seq .popFrame ?_
      have closed :
          Woven apart lower Call start start [] [] [region] [] (Emit.closeRegion region) :=
        .closeRegion absent (List.mem_singleton.mpr rfl)
      refine .bind closed fun segments => .fresh fun after => ?_
      refine .code (.disposeIterator _ trivial)
        (.code (.goto trivial) (.andThen .here fun handler => ?_))
      refine .seq (.protect segments handler Option.none) (.seq ?_ .markLast)
      exact rethrowAfter (.plain (.disposeIterator _ trivial))
    have whole := Woven.bind (inside region) fun _ => rest
    rwa [List.append_nil, List.append_nil] at whole

/-- The source of the elements says what protects the body. -/
theorem lowerForEach
    (tag : StmtTag) (spans : Bool) (decl : LocalDecl) (collection : Expr) (source : ElementSource)
    (allowed : ∀ {inner}, start.Inside tag.id (source.constructs tag.id) inner → Call inner body) :
    Woven apart lower Call start start [tag.id] [] [] [body]
      (lowerForEach lower tag spans decl collection source body) := by
  refine .inScope (.ownLabels fun labels => ?_)
  cases source with
  | array =>
    refine lowerArrayLoop tag spans labels decl collection (allowed ?_)
    exact start.inside_push { stmt := tag.id, kind := .loop }
  | iterator iterator hasNext next dispose =>
    simp only [lowerIteratorLoop]
    refine .codeIf (.fail rfl) ?_
    refine .code (.pushValue .all) (.code (.invoke trivial) ?_)
    refine .andThen (.newSpillTemp _ spans) fun slot => .code (.store _ slot) ?_
    cases dispose with
    | none =>
      refine lowerIteratorRounds tag labels decl slot hasNext next (allowed ?_)
      exact start.inside_push { stmt := tag.id, kind := .loop }
    | some dispose =>
      refine lowerDisposing tag.id slot dispose fun region => ?_
      refine lowerIteratorRounds tag labels decl slot hasNext next (allowed ?_)
      have disposing := start.inside_push { stmt := tag.id, kind := .iterator slot dispose region }
      exact disposing.trans (MethodContext.inside_push _ { stmt := tag.id, kind := .loop })

/-! ## Switches -/

theorem sublist_map_fst_zip (first : List α) (second : List β) :
    ((first.zip second).map Prod.fst).Sublist first := by
  induction first generalizing second with
  | nil => simp
  | cons value first ih =>
    cases second with
    | nil => simp
    | cons other second => simpa using ih second

theorem sublist_map_snd_zip (first : List α) (second : List β) :
    ((first.zip second).map Prod.snd).Sublist second := by
  have swapped := sublist_map_fst_zip second first
  rwa [← List.zip_swap, List.map_map] at swapped

/-- Each section begins at its own label. -/
theorem lowerSections
    (sections : List (Section × Label))
    (allowed : ∀ entry ∈ sections, ∀ stmt ∈ entry.1.body, Call start stmt) :
    Woven apart lower Call start start [] (sections.map Prod.snd) []
      (sections.flatMap fun entry => entry.1.body) (sections.forM fun entry => do
        Emit.mark entry.2
        entry.1.body.forM lower) := by
  induction sections with
  | nil => exact pure ()
  | cons entry sections ih =>
    have first : Woven apart lower Call start start [] [entry.2] [] entry.1.body (do
        Emit.mark entry.2
        entry.1.body.forM lower) :=
      .mark (forM entry.1.body (allowed entry List.mem_cons_self))
    refine .bind first fun _ => ih ?_
    exact fun other member => allowed other (List.mem_cons_of_mem entry member)

/-- The sections of a switch are lowered where control is dispatched to them. -/
theorem lowerPlaced
    (id : StmtId) (cases : CaseMap) (labels : StmtLabels) (starts : List Label)
    {sections : List Section}
    (allowed : ∀ stmt ∈ sections.flatMap Section.body, Call (start.inSwitch id cases) stmt) :
    Woven apart lower Call start start [] ([labels.start, labels.next, labels.stop] ++ starts) []
      (sections.flatMap Section.body)
      (lowerPlaced lower id cases (sections.zip starts) labels.stop) := by
  have bodies : ((sections.zip starts).flatMap fun entry => entry.1.body).Sublist
      (sections.flatMap Section.body) := by
    have kept := (sublist_map_fst_zip sections starts).flatMap Section.body
    rwa [List.flatMap_map] at kept
  have closing : Woven apart lower Call (start.inSwitch id cases) start [] [labels.stop] [] []
      (do Emit.popFrame; Emit.popSwitch; Emit.mark labels.stop) :=
    .seq .popFrame (.seq .popSwitch .markLast)
  -- The sections are bound before the end of the switch, which was handed out before them.
  have order : (((sections.zip starts).map Prod.snd) ++ [labels.stop]).Subperm
      (starts ++ [labels.start, labels.next, labels.stop]) := by
    refine List.Subperm.append (sublist_map_snd_zip sections starts).subperm ?_
    exact List.Sublist.subperm (by simp)
  refine .bindLess ?_ (order.trans List.perm_append_comm.subperm)
  refine .lowerLess (.seq (.pushSwitch id cases) (.pushFrame nofun ?_)) bodies
  rw [← List.append_nil ((sections.zip starts).flatMap _)]
  refine .bind (lowerSections (sections.zip starts) ?_) fun _ => closing
  exact fun entry member stmt found => allowed stmt
    (List.mem_flatMap.mpr ⟨entry.1, (List.of_mem_zip member).1, found⟩)

/-- The sections stand inside the switch. -/
theorem lowerSwitch
    (id : StmtId) (selector : Expr) (kind : SelectorKind) {sections : List Section}
    (allowed : ∀ {inner}, start.Inside id [] inner → ∀ stmt ∈ sections.flatMap Section.body,
      Call inner stmt) :
    Woven apart lower Call start start [id] [] [] (sections.flatMap Section.body)
      (lowerSwitch lower id selector kind sections) := by
  refine .inScope (.ownLabels fun labels => .freshList _ fun starts => ?_)
  refine .andThen (.plain (.caseMap sections starts)) fun cases => ?_
  refine .code (.lowerDispatch (fun _ _ => trivial) .all (fun _ _ => trivial) sections
    (fun _ _ => trivial) trivial) ?_
  exact lowerPlaced id cases labels starts (allowed (start.inside_inSwitch id cases))

/-! ## Protected statements -/

theorem finishPart
    (part : Stmt) (finalizer : Option Stmt) (done : Label)
    (allowed : ∀ stmt ∈ finalizer, Call (start.finalizing start.frames) stmt) :
    Woven apart lower Call start start ids labels regions parts
      (finishPart lower part finalizer done) := by
  refine .ite (.seq ?_ (.plain (.goto trivial))) (pure ())
  cases finalizer with
  | none => exact pure ()
  | some finalizer => exact .copy (allowed finalizer rfl)

/-- The constructs of a try statement. -/
def guardConstructs (id : StmtId) (finalizer : Option Stmt) : List Construct :=
  finalizer.toList.map fun finalizer => { stmt := id, cleanup := .finalizer finalizer }

/-- A step is protected if there is a finally body. -/
theorem inFinalized
    (id : StmtId) (finalizer : Option Stmt) {step : Emit Unit}
    (inside : ∀ {inner}, start.Inside id (guardConstructs id finalizer) inner →
      Woven apart lower Call inner inner [] [] [] parts step) :
    Woven apart lower Call start start [] [] [] parts (inFinalized id finalizer step) := by
  cases finalizer with
  | none =>
    exact .partsFirst (inside (.refl start id)) fun _ => pure []
  | some finalizer =>
    refine .openRegion fun region absent => .pushFrame ?_ ?_
    · rintro told _ ⟨⟩
      exact ⟨List.mem_singleton.mpr rfl, absent told⟩
    · have framed := inside (start.inside_push { stmt := id, kind := .finalized finalizer region })
      have closing : Woven apart lower Call
          (start.push { stmt := id, kind := .finalized finalizer region }) start [] [] [region] []
          (do Emit.popFrame; Emit.closeRegion region) :=
        .seq .popFrame (.closeRegion absent (List.mem_singleton.mpr rfl))
      exact .partsFirst framed fun _ => closing

theorem lowerCatchBody
    (id : StmtId) (clause : CatchClause)
    (allowed : ∀ {inner}, start.Inside id [] inner → Call inner clause.body) :
    Woven apart lower Call start start [] [] [] [clause.body] (lowerCatchBody lower clause) := by
  refine .inScope (.andThen (bindException clause) fun slot => .seq (.pushCatch slot) ?_)
  exact .part (allowed ⟨⟨[], rfl, nofun, rfl⟩, ⟨[], rfl, nofun⟩, rfl, rfl⟩) .popCatch

/-- A handler stands where the finally body protects it. -/
theorem lowerCatch
    (id : StmtId) (finalizer : Option Stmt) (done : Label) (segments : List (Label × Label))
    (clause : CatchClause)
    (allowedBody : ∀ {inner}, start.Inside id (guardConstructs id finalizer) inner →
      Call inner clause.body)
    (allowedFinalizer : ∀ stmt ∈ finalizer, Call (start.finalizing start.frames) stmt) :
    Woven apart lower Call start start [] [] [] [clause.body]
      (lowerCatch lower id finalizer done segments clause) := by
  refine .andThen .here fun handler => .seq (.protect segments handler _) ?_
  have guarded : Woven apart lower Call start start [] [] [] [clause.body]
      (Emit.inFinalized id finalizer (Emit.lowerCatchBody lower clause)) :=
    inFinalized id finalizer fun outer => lowerCatchBody id clause fun inner =>
      allowedBody (outer.trans inner)
  refine .bind guarded fun segments => .seq (finishPart _ finalizer done allowedFinalizer) (pure _)

/-- Each clause has the finalizer around it. -/
theorem lowerCatches
    (id : StmtId) (finalizer : Option Stmt) (done : Label) (segments : List (Label × Label))
    (catches : List CatchClause)
    (allowedBody : ∀ {inner}, start.Inside id (guardConstructs id finalizer) inner →
      ∀ clause ∈ catches, Call inner clause.body)
    (allowedFinalizer : ∀ stmt ∈ finalizer, Call (start.finalizing start.frames) stmt) :
    Woven apart lower Call start start [] [] [] (catches.map CatchClause.body)
      (catches.mapM (Emit.lowerCatch lower id finalizer done segments)) := by
  induction catches with
  | nil => exact pure []
  | cons clause catches ih =>
    rw [List.mapM_cons]
    have first : Woven apart lower Call start start [] [] [] [clause.body]
        (Emit.lowerCatch lower id finalizer done segments clause) :=
      lowerCatch id finalizer done segments clause
        (fun inside => allowedBody inside clause List.mem_cons_self) allowedFinalizer
    refine .bind first fun _ => ?_
    have others := ih fun inside other member =>
      allowedBody inside other (List.mem_cons_of_mem clause member)
    exact .partsFirst others fun _ => pure _

/-- The body has the finalizer around it too. -/
theorem lowerGuardBody
    (id : StmtId) (finalizer : Option Stmt)
    (allowed : ∀ {inner}, start.Inside id (guardConstructs id finalizer) inner → Call inner body) :
    Woven apart lower Call start start [] [] [] [body]
      (lowerGuardBody lower id body finalizer) := by
  refine .openRegion fun region absent => ?_
  cases finalizer with
  | none =>
    refine .code (.pure ()) (.part (allowed (.refl start _)) ?_)
    exact .closeRegion absent (List.mem_singleton.mpr rfl)
  | some finalizer =>
    have inside := start.inside_push { stmt := id, kind := .finalized finalizer region }
    refine .pushFrame ?_ (.part (allowed inside) (.seq .popFrame ?_))
    · rintro told _ ⟨⟩
      exact ⟨List.mem_singleton.mpr rfl, absent told⟩
    · exact .closeRegion absent (List.mem_singleton.mpr rfl)

/-- The finally body itself stands outside, wherever it is copied. -/
theorem lowerGuard
    (id : StmtId) {catches : List CatchClause} {finalizer : Option Stmt}
    (allowedBody : ∀ {inner}, start.Inside id (guardConstructs id finalizer) inner →
      ∀ stmt ∈ body :: catches.map CatchClause.body, Call inner stmt)
    (allowedFinalizer : ∀ stmt ∈ finalizer, Call (start.finalizing start.frames) stmt) :
    Woven apart lower Call start start [] [] [] (body :: catches.map CatchClause.body)
      (lowerGuard lower id body catches finalizer) := by
  refine .fresh fun done => ?_
  have guarded : Woven apart lower Call start start [] [] [] [body]
      (Emit.lowerGuardBody lower id body finalizer) :=
    lowerGuardBody id finalizer fun inside => allowedBody inside body List.mem_cons_self
  refine .bind guarded fun segments => ?_
  refine .seq (finishPart body finalizer done allowedFinalizer) ?_
  have caught : Woven apart lower Call start start [] [] [] (catches.map CatchClause.body)
      (catches.mapM (Emit.lowerCatch lower id finalizer done segments)) :=
    lowerCatches id finalizer done segments catches (fun inside clause member =>
      allowedBody inside clause.body (List.mem_cons_of_mem body (List.mem_map_of_mem member)))
      allowedFinalizer
  have handler : ∀ guarded : List (List (Label × Label)),
      Woven apart lower Call start start [] [done] [] [] (do
        finalizer.forM fun finalizer => do
          Emit.protect (segments ++ guarded.flatten) (← Emit.here) Option.none
          Emit.rethrowAfter (Emit.inlineFinalizer lower finalizer)
        Emit.mark done) := by
    refine fun guarded => .seq ?_ .markLast
    cases finalizer with
    | none => exact pure ()
    | some finalizer =>
      refine .andThen .here fun handler => .seq (.protect _ handler Option.none) ?_
      exact rethrowAfter (.copy (allowedFinalizer finalizer rfl))
  exact .partsFirst caught handler

/-- What is held is released outside of its region. -/
theorem lowerReleasing
    (id : StmtId) {kind : RegionId → FrameKind} (completes : Bool) {part release : Emit Unit}
    (opened : ∀ region, Frame.region? { stmt := id, kind := kind region } = some region)
    (partWoven : ∀ region, Woven apart lower Call (start.push { stmt := id, kind := kind region })
      (start.push { stmt := id, kind := kind region }) [] [] [] parts part)
    (releasePlain : ∀ {writable}, Plain writable .any (fun _ => True) [] release) :
    Woven apart lower Call start start [] [] [] parts
      (lowerReleasing id kind completes part release) := by
  refine .openRegion fun region absent => .pushFrame ?_ ?_
  · intro told found same
    rw [opened region] at same
    obtain rfl := Option.mem_some_iff.mp same
    exact ⟨List.mem_singleton.mpr rfl, absent told⟩
  · have closed : Woven apart lower Call start start [] [] [region] []
        (Emit.closeRegion region) :=
      .closeRegion absent (List.mem_singleton.mpr rfl)
    have handler : ∀ segments done, Woven apart lower Call start start [] [done] [] [] (do
        Emit.protect segments (← Emit.here) Option.none
        Emit.rethrowAfter release
        Emit.mark done) := fun segments done =>
      .andThen .here fun handler => .seq (.protect segments handler Option.none)
        (.seq (rethrowAfter (.plain releasePlain)) .markLast)
    have closing : Woven apart lower Call (start.push { stmt := id, kind := kind region }) start
        [] [] [region] [] (do
          Emit.popFrame
          let segments ← Emit.closeRegion region
          let done ← newLabel
          if completes then
            release
            goto done
          Emit.protect segments (← Emit.here) Option.none
          Emit.rethrowAfter release
          Emit.mark done) := by
      refine .seq .popFrame (.bind closed fun segments => .fresh fun done => ?_)
      exact .ite (.code releasePlain (.code (.goto trivial) (handler segments done)))
        (handler segments done)
    exact .partsFirst (partWoven region) fun _ => closing

/-- The body stands inside the monitor. -/
theorem lowerSynchronized
    (id : StmtId) (lock : Expr)
    (allowed : ∀ {inner}, start.Inside id [{ stmt := id, cleanup := .monitor }] inner →
      Call inner body) :
    Woven apart lower Call start start [] [] [] [body]
      (lowerSynchronized lower id lock body) := by
  refine .inScope (.code (.pushValue .all) (.code (.op _) ?_))
  refine .andThen (.plain (.newTemp _)) fun slot => .code (.store _ slot) (.code (.op _) ?_)
  refine lowerReleasing id _ (fun _ => rfl) (fun region => .partLast (allowed ?_))
    (.exitMonitor slot)
  exact start.inside_push { stmt := id, kind := .monitor slot region }

/-- The body stands inside of all resources. -/
theorem lowerResources
    (tag : StmtTag) (spans : Bool) (resources : List Resource)
    (allowed : ∀ {inner}, start.Inside tag.id (resources.map fun resource =>
      { stmt := tag.id, cleanup := .resource resource.dispose }).reverse inner → Call inner body) :
    Woven apart lower Call start start [] [] [] [body]
      (lowerResources lower tag spans body resources) := by
  induction resources generalizing start with
  | nil => exact .partLast (allowed (.refl start _))
  | cons resource resources ih =>
    refine .andThen (acquireResource spans tag.span resource) fun slot => ?_
    refine lowerReleasing tag.id _ (fun _ => rfl) (fun region => ih ?_)
      (.disposeResource _ trivial)
    intro inner inside
    have outside :=
      start.inside_push { stmt := tag.id, kind := .resource slot resource.dispose region }
    refine allowed ?_
    rw [List.map_cons, List.reverse_cons]
    exact outside.trans inside

end Woven

/-! ## All statements -/

/--
The places at which the lowering of a statement lowers others: its parts where
they stand, and finally bodies outside of what they belong to.
-/
inductive Calls (stmt : Stmt) (start : MethodContext) : MethodContext → Stmt → Prop where
  /-- A part of the statement is lowered. -/
  | part {inner : MethodContext} {part : Stmt} {protects : List Construct}
      (member : (part, protects) ∈ stmt.parts)
      (inside : start.Inside stmt.id protects inner) :
      Calls stmt start inner part
  /-- The finally body of the statement is copied. -/
  | finalizer {finalizer : Stmt}
      (member : (finalizer, []) ∈ stmt.parts) :
      Calls stmt start (start.finalizing start.frames) finalizer
  /-- The finally body of a construct around the statement is copied. -/
  | cleanup {inner outer : List Frame} {frame : Frame} {finalizer : Stmt} {region : RegionId}
      (frames : start.frames = inner ++ frame :: outer)
      (kind : frame.kind = .finalized finalizer region) :
      Calls stmt start (start.finalizing outer) finalizer

theorem Calls.parents {part : Stmt} {inner : MethodContext} (calls : Calls stmt start inner part) :
    inner.parents = start.parents := by
  cases calls with
  | part _ inside => exact inside.parents
  | finalizer _ => rfl
  | cleanup _ _ => rfl

/-- Where a statement lowers others, no sections are open in addition but its own. -/
theorem Calls.switches {part : Stmt} {inner : MethodContext} (calls : Calls stmt start inner part) :
    ∃ own, inner.switches = own ++ start.switches ∧ ∀ entry ∈ own, entry.1 = stmt.id := by
  cases calls with
  | part _ inside => exact inside.switches
  | finalizer _ => exact ⟨[], rfl, nofun⟩
  | cleanup _ _ => exact ⟨[], rfl, nofun⟩

/-- The lowering of every statement but a suspension is put together from elementary steps. -/
theorem woven_lowerReachable
    {apart : Prop} {lower : Lowering} {Call : MethodContext → Stmt → Prop}
    (continues : ∀ tag value, stmt ≠ .yield tag value)
    (allowed : ∀ {inner part}, Calls stmt start inner part → Call inner part) :
    Woven apart lower Call start start [stmt.id] [] [] stmt.children
      (lowerReachable lower stmt) := by
  have cleanup : start.AllowsCleanup Call :=
    fun _ _ _ _ _ frames kind => allowed (.cleanup frames kind)
  have parts : ∀ {inner : MethodContext} {part : Stmt}, stmt.constructs = [] →
      stmt.parts = stmt.children.map (fun part => (part, stmt.constructs)) →
        part ∈ stmt.children → start.Inside stmt.id [] inner → Call inner part := by
    intro inner part unprotected parts member inside
    have found : (part, []) ∈ stmt.parts := by
      rw [parts, unprotected]
      exact List.mem_map_of_mem member
    exact allowed (.part found inside)
  cases stmt with
  | block tag body =>
    exact .inScope (.forM body fun stmt member => parts rfl rfl member (.refl start _))
  | cond tag condition thenBranch elseBranch =>
    refine .lowerCond condition (parts rfl rfl List.mem_cons_self (.refl start _)) ?_
    intro stmt found
    exact parts rfl rfl (List.mem_cons_of_mem _ (Option.mem_toList.mpr found)) (.refl start _)
  | whileLoop tag condition body =>
    exact .lowerWhile tag.id condition
      (parts rfl rfl List.mem_cons_self (start.inside_push_of_none rfl))
  | doLoop tag body condition =>
    exact .lowerDo tag.id condition
      (parts rfl rfl List.mem_cons_self (start.inside_push_of_none rfl))
  | forLoop tag init condition update body =>
    refine .lowerFor tag.id condition update ?_ (parts rfl rfl (by simp [Stmt.children])
      (start.inside_push_of_none rfl))
    exact fun stmt member => parts rfl rfl (List.mem_append_left _ member) (.refl start _)
  | forEach tag decl collection source body =>
    exact .lowerForEach tag _ decl collection source fun inside =>
      allowed (.part List.mem_cons_self inside)
  | switch tag selector kind sections =>
    exact .lowerSwitch tag.id selector kind fun inside stmt member =>
      parts rfl rfl member inside
  | guard tag body catches finalizer =>
    refine .claimNone (.lowerLess (.lowerGuard tag.id ?_ ?_) (List.sublist_append_left _ _))
    · intro inner inside stmt member
      exact allowed (.part (List.mem_append_left _ (List.mem_map_of_mem member)) inside)
    · intro stmt found
      refine allowed (.finalizer (List.mem_append_right _ ?_))
      exact List.mem_map_of_mem (Option.mem_toList.mpr found)
  | acquire tag resources body =>
    exact .claimNone (.inScope (.lowerResources tag _ resources fun inside =>
      allowed (.part List.mem_cons_self inside)))
  | synchronized tag lock body =>
    exact .claimNone (.lowerSynchronized tag.id lock fun inside =>
      allowed (.part List.mem_cons_self inside))
  | labeled tag label body =>
    exact .lowerLabeled tag.id (parts rfl rfl List.mem_cons_self (start.inside_push_of_none rfl))
  | goto tag label => exact .lowerJump cleanup _ _
  | gotoCase tag key => exact .lowerGotoCase cleanup _ key
  | breakJump tag label => exact .lowerJump cleanup _ _
  | continueJump tag label => exact .lowerJump cleanup _ _
  | ret tag value => exact .lowerReturn cleanup value
  | throw tag exception => exact .plain (.lowerThrow tag.span fun _ _ => .all)
  | yield tag value => exact absurd rfl (continues tag value)
  | eval tag expr => exact .plain (.evaluate .all)
  | empty tag => exact .pure ()
  | declare tag declarators => exact .lowerDeclarators tag.span declarators

end Emit

end StackCode
