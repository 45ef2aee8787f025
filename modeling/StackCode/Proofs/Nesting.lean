import Mathlib.Algebra.GroupWithZero.Nat
import StackCode.Proofs.Dialogue

/-!
# How deep lowering nests

Leaving a try statement lowers its finally body again, and the finally body may leave
further try statements.  But it runs without the frames from its own one inwards.  So
what a statement lowers is smaller than the statement, if the finally bodies of the
frames around are counted with both.  This bounds the number of statements that are
being lowered at once, and with it the recursion has one meaning.
-/

namespace StackCode

open Emit

variable {stmt : Stmt}

/-! ## Sizes -/

/-- The number of statements that cleaning a construct up lowers again. -/
def Construct.finalizerSize (construct : Construct) : Nat :=
  match construct.cleanup with
  | .finalizer body => body.size
  | _ => 0

theorem Frame.finalizerSize_eq (frame : Frame) :
    frame.finalizerSize = (frame.construct?.map Construct.finalizerSize).getD 0 := by
  obtain ⟨id, kind⟩ := frame
  cases kind <;> rfl

/-- The bound adds the finally bodies around a statement to its size. -/
theorem Emit.nestingBound_eq (frames : List Frame) (stmt : Stmt) :
    nestingBound frames stmt =
      ((frames.filterMap Frame.construct?).map Construct.finalizerSize).sum + stmt.size := by
  induction frames with
  | nil => exact (Nat.zero_add _).symm
  | cons frame frames ih =>
    rw [nestingBound, ih, frame.finalizerSize_eq, ← Nat.add_assoc]
    cases found : frame.construct? with
    | none => rw [List.filterMap_cons_none found, Option.map_none, Option.getD_none, Nat.zero_add]
    | some construct =>
      rw [List.filterMap_cons_some found, List.map_cons, List.sum_cons, Option.map_some,
        Option.getD_some]

theorem Stmt.size_le_of_mem {stmts : List Stmt} (member : stmt ∈ stmts) :
    stmt.size ≤ (listIds stmts).length := by
  obtain ⟨first, second, rfl⟩ := List.append_of_mem member
  rw [listIds_append, listIds_cons, List.length_append, List.length_append, size]
  omega

/-- Only try statements have finally bodies. -/
theorem Stmt.finalizerSize_of_mem_constructs
    (plain : ∀ tag body catches finalizer, stmt ≠ .guard tag body catches finalizer)
    {construct : Construct}
    (member : construct ∈ stmt.constructs) :
    construct.finalizerSize = 0 := by
  cases stmt with
  | guard tag body catches finalizer => exact absurd rfl (plain tag body catches finalizer)
  | forEach tag decl collection source body =>
    cases source with
    | array => cases member
    | iterator _ _ _ dispose =>
      obtain ⟨_, -, rfl⟩ := List.mem_map.mp member
      rfl
  | acquire tag resources body =>
    obtain ⟨_, -, rfl⟩ := List.mem_map.mp (List.mem_reverse.mp member)
    rfl
  | synchronized tag lock body =>
    obtain rfl := List.mem_singleton.mp member
    rfl
  | _ => cases member

/-- A part of a statement and the finally body that protects it are smaller than the statement. -/
theorem Stmt.size_part_lt
    {part : Stmt} {protects : List Construct}
    (member : (part, protects) ∈ stmt.parts) :
    (protects.map Construct.finalizerSize).sum + part.size < stmt.size := by
  have own : stmt.size = (listIds stmt.children).length + 1 := by
    rw [size, ids_eq, List.length_cons]
  have child : part.size ≤ _ := size_le_of_mem (mem_children_of_mem_parts member)
  by_cases guarded : ∃ tag body catches finalizer, stmt = .guard tag body catches finalizer
  · obtain ⟨tag, body, catches, finalizer, rfl⟩ := guarded
    obtain member | member := List.mem_append.mp member
    · obtain ⟨_, inside, ⟨⟩⟩ := List.mem_map.mp member
      have bound := size_le_of_mem inside
      have children : (guard tag body catches finalizer).children =
          (body :: catches.map CatchClause.body) ++ finalizer.toList := rfl
      rw [own, children, listIds_append, List.length_append]
      cases finalizer with
      | none => exact (Nat.zero_add _).trans_lt (by omega)
      | some finalizer =>
        have finalizes : ((guard tag body catches (some finalizer)).constructs.map
            Construct.finalizerSize).sum = (listIds [finalizer]).length := by
          rw [listIds_cons, List.length_append]
          rfl
        rw [finalizes, Option.toList_some]
        omega
    · obtain ⟨_, -, ⟨⟩⟩ := List.mem_map.mp member
      exact (Nat.zero_add _).trans_lt (by omega)
  · have plain : ∀ tag body catches finalizer, stmt ≠ .guard tag body catches finalizer :=
      fun tag body catches finalizer same => guarded ⟨tag, body, catches, finalizer, same⟩
    have none : (protects.map Construct.finalizerSize).sum = 0 := by
      obtain rfl | rfl := protects_of_mem_parts member
      · simp only [List.sum_eq_zero_iff_forall_eq_nat, List.forall_mem_map]
        exact fun construct => finalizerSize_of_mem_constructs plain
      · rfl
    omega

/-- What a statement lowers needs less room than the statement. -/
theorem Emit.Calls.nestingBound_lt
    {part : Stmt} {start inner : MethodContext}
    (calls : Calls stmt start inner part) :
    nestingBound inner.frames part < nestingBound start.frames stmt := by
  rw [nestingBound_eq, nestingBound_eq]
  cases calls with
  | part member inside =>
    obtain ⟨own, frames, -, rfl⟩ := inside.frames
    have smaller := Stmt.size_part_lt member
    rw [frames, List.filterMap_append, List.map_append, List.sum_append]
    omega
  | finalizer member =>
    have smaller := Stmt.size_part_lt member
    simpa [MethodContext.finalizing] using smaller
  | @cleanup inner outer frame _ region frames kind =>
    have found : frame.construct? = some { stmt := frame.stmt, cleanup := .finalizer part } := by
      rw [Frame.construct?, kind]
    have positive := stmt.size_pos
    rw [frames, List.filterMap_append, List.filterMap_cons_some found]
    simp only [MethodContext.finalizing, List.map_append, List.map_cons, List.sum_append,
      List.sum_cons, Construct.finalizerSize]
    omega

theorem Emit.nestingBound_eq_sum (frames : List Frame) (stmt : Stmt) :
    nestingBound frames stmt = stmt.size + (frames.map Frame.finalizerSize).sum := by
  induction frames with
  | nil => rfl
  | cons frame frames ih =>
    rw [nestingBound, ih, List.map_cons, List.sum_cons]
    omega

/-! ## Steps that find room -/

namespace Emit

variable {step : Emit α} {state : Emission}

/-- An outcome in the given setting, or with an error, but not for want of room. -/
def Ends (stop : MethodContext) : EStateM.Result Error Emission α → Prop
  | .ok _ after => after.method.setting = stop
  | .error error _ => error.exceedsRoom = false

/-- A step that leads from one setting to another, or fails, but not for want of room. -/
def Steady (start stop : MethodContext) (step : Emit α) : Prop :=
  ∀ before, before.method.setting = start → Ends stop (step before)

namespace Steady

variable {start between stop : MethodContext} {lower : Lowering}
variable {inner : List Frame}

theorem pure (value : α) : Steady start start (pure value : Emit α) := fun _ same => same

theorem throw {error : Error} (room : error.exceedsRoom = false) :
    Steady start stop (throw error : Emit α) := fun _ _ => room

theorem bind
    {first : Emit α} {next : α → Emit β}
    (firstSteady : Steady start between first)
    (nextSteady : ∀ value, Steady between stop (next value)) :
    Steady start stop (first >>= next) := by
  intro before same
  have ended := firstSteady before same
  rw [bind_eq_goOn]
  cases outcome : first before with
  | ok value after =>
    rw [outcome] at ended
    exact nextSteady value after ended
  | error error after =>
    rw [outcome] at ended
    exact ended

theorem reading
    {next : MethodContext → Emit β}
    (nextSteady : ∀ method, method.setting = start → Steady start stop (next method)) :
    Steady start stop (method >>= next) :=
  fun before same => nextSteady before.method same before same

theorem modifyMethod
    {change : MethodContext → MethodContext}
    (moves : ∀ method, method.setting = start → (change method).setting = stop) :
    Steady start stop (modifyMethod change) := fun before same => moves before.method same

theorem takeCode (take : Code → α × Code) : Steady start start (takeCode take) :=
  fun _ same => same

theorem modifyCode (change : Code → Code) : Steady start start (modifyCode change) :=
  fun _ same => same

theorem tryCode
    {change : Code → Except Error Code}
    (room : ∀ {code error}, change code = .error error → error.exceedsRoom = false) :
    Steady start start (tryCode change) := by
  refine reading fun method _ => ?_
  split
  · exact modifyMethod fun _ same => same
  · next failed => exact throw (room failed)

theorem forM
    {values : List α} {step : α → Emit Unit}
    (stepSteady : ∀ value, Steady start start (step value)) :
    Steady start start (values.forM step) :=
  forM_of_steps (pure ()) (fun first rest => bind first fun _ => rest) fun value _ =>
    stepSteady value

/-- Plain steps leave the setting alone. -/
theorem plain
    {basis : Basis} {allowed : Label → Prop} {bound : List Label} {refs : α → List Reference}
    (stepPlain : PlainTo (fun _ => True) basis allowed bound refs step)
    (free : basis.targets = none) :
    Steady start start step := by
  induction stepPlain with
  | pureTo _ => exact pure _
  | throw proper _ => exact throw (Bool.or_eq_false_iff.mp proper).2
  | bindTo _ _ _ firstHypothesis nextHypothesis =>
    exact bind (firstHypothesis free) fun value => nextHypothesis value free
  | reading _ _ nextHypothesis =>
    exact reading fun method _ => nextHypothesis method method.storesTo_all (by simp [free]) free
  | emit _ _ _ => exact modifyCode _
  | fresh _ nextHypothesis => exact bind (takeCode _) fun label => nextHypothesis label free
  | mark _ _ =>
    refine tryCode fun {code error} failed => ?_
    unfold Code.mark at failed
    split at failed <;> cases failed <;> rfl
  | allocate name type => exact takeCode _
  | takeClass _ _ => exact fun _ same => same
  | log level text => exact fun _ same => same

theorem code (stepPlain : Plainly [] step) : Steady start start step := plain stepPlain rfl

theorem labelsOf (id : StmtId) : Steady start start (labelsOf id) := by
  intro before same
  cases outcome : Emit.labelsOf id before with
  | ok labels after =>
    obtain ⟨-, rfl⟩ | ⟨-, -, rfl⟩ := labelsOf_cases outcome
    · exact same
    · exact same
  | error error after => exact (Tidy.labelsOf_error outcome).elim

theorem declareLocal (decl : LocalDecl) : Steady start start (declareLocal decl) := by
  intro before same
  cases outcome : Emit.declareLocal decl before with
  | ok access after => exact ((Tidy.Unseen.declareLocal decl).books outcome).2.trans same
  | error error after => exact absurd outcome declareLocal_ne_error

theorem newSpillTemp (type : Ty) (spans : Bool) : Steady start start (newSpillTemp type spans) := by
  refine bind (takeCode _) fun slot => reading fun method _ => ?_
  split
  · exact bind (modifyMethod fun _ same => same) fun _ =>
      bind (modifyMethod fun _ same => same) fun _ => pure _
  · exact pure _

theorem inScope {step : Emit Unit} (inside : Steady start start step) :
    Steady start start (inScope step) := by
  refine bind (bind (modifyCode _) fun _ => modifyMethod fun _ same => same) fun _ => ?_
  refine bind inside fun _ => bind (tryCode fun failed => ?_) fun _ => reading fun method _ => ?_
  · rw [((Code.exitScope_eq_error_iff _ _).mp failed).2]
    rfl
  · split
    · exact pure _
    · split
      · exact throw rfl
      · exact modifyMethod fun _ same => same

/-! ### Regions -/

theorem modifyRegion (region : RegionId) (change : OpenRegion → OpenRegion) :
    Steady start start (modifyRegion region change) := by
  refine reading fun method _ => ?_
  split
  · exact modifyMethod fun _ same => same
  · exact throw rfl

theorem suspendRegion (region : RegionId) : Steady start start (suspendRegion region) :=
  bind (takeCode _) fun _ => modifyRegion region _

theorem resumeRegion (region : RegionId) : Steady start start (resumeRegion region) :=
  bind (takeCode _) fun _ => modifyRegion region _

theorem openRegion : Steady start start openRegion :=
  bind (takeCode _) fun _ => reading fun _ _ =>
    bind (modifyMethod fun _ same => same) fun _ => pure _

theorem closeRegion (region : RegionId) : Steady start start (closeRegion region) :=
  bind (suspendRegion region) fun _ => reading fun _ _ =>
    bind (modifyRegion region _) fun _ => pure _

/-! ### Exits -/

/-- After a copy of a finally body the setting is as before. -/
theorem inlineFinalizer
    {finalizer : Stmt}
    (inside : Steady (start.finalizing start.frames) (start.finalizing start.frames)
      (lower finalizer)) :
    Steady start start (inlineFinalizer lower finalizer) := by
  refine bind (modifyMethod fun _ same => same) fun _ => ?_
  refine bind (modifyMethod fun method same => ?_) fun _ => bind inside fun _ => ?_
  · rw [← same]
    rfl
  · refine bind (modifyMethod fun method same => ?_) fun _ => modifyMethod fun _ same => same
    exact congrArg (fun setting => { setting with finallyDepth := setting.finallyDepth - 1 }) same

/-- With frames detached. -/
theorem withOuterFrames
    {outer : List Frame} {step : Emit Unit}
    (frames : start.frames = inner ++ outer)
    (inside : Steady { start with frames := outer } { start with frames := outer } step) :
    Steady start start (withOuterFrames outer.length step) := by
  intro before same
  have current : before.method.frames = inner ++ outer :=
    (congrArg MethodContext.frames same).trans frames
  have ended := inside (before.mapMethod fun method => { method with frames := outer })
    (congrArg (fun setting => { setting with frames := outer }) same)
  cases outcome : Emit.withOuterFrames outer.length step before with
  | ok _ after =>
    obtain ⟨between, stepped, rfl⟩ := withOuterFrames_ok current outcome
    rw [stepped] at ended
    have restored :=
      congrArg (fun setting => { setting with frames := inner ++ setting.frames }) ended
    exact restored.trans (by rw [← frames])
  | error error after =>
    rw [withOuterFrames_error current outcome] at ended
    exact ended

section Exits

variable
  (copies : start.AllowsCleanup fun inner finalizer => Steady inner inner (lower finalizer))
include copies

theorem cleanup
    {outer : List Frame} {frame : Frame}
    (frames : start.frames = inner ++ frame :: outer) :
    Steady { start with frames := outer } { start with frames := outer } (cleanup lower frame) := by
  unfold Emit.cleanup
  split
  · next finalizer region kind => exact inlineFinalizer (copies _ _ _ _ _ frames kind)
  · exact code (.exitMonitor _)
  · exact code (.disposeResource _ trivial)
  · exact code (.disposeIterator _ trivial)
  all_goals exact pure ()

/-- After the cleanups the setting is as before. -/
theorem cleanupFrames
    (stays : Frame → Bool) {frames : List Frame}
    (around : start.frames = inner ++ frames) :
    Steady start start (cleanupFrames lower stays frames) := by
  induction frames generalizing inner with
  | nil => exact pure _
  | cons frame outer ih =>
    have deeper : start.frames = (inner ++ [frame]) ++ outer := by simp [around]
    have further := ih deeper
    unfold Emit.cleanupFrames
    split
    · exact pure _
    · split
      · exact further
      · refine bind (suspendRegion _) fun _ => ?_
        refine bind (withOuterFrames deeper (cleanup copies around)) fun _ => ?_
        exact bind further fun _ => pure _

theorem exit
    (stays : Frame → Bool) {leave : Emit Unit} (leavePlain : Plainly [] leave) :
    Steady start start (do
      let cut ← Emit.cleanupFrames lower stays start.frames
      leave
      resumeRegions cut) :=
  bind (cleanupFrames copies stays (List.nil_append _).symm) fun _ =>
    bind (code leavePlain) fun _ => forM resumeRegion

/-- An element is handed out in the setting of its statement. -/
theorem lowerYield (span : Span) (value : Option Expr) :
    Steady start start (lowerYield lower span value) := by
  refine reading fun method _ => ?_
  split
  · exact throw rfl
  · next suspension _ =>
    cases value with
    | some value =>
      obtain ⟨rest, same, restPlain⟩ := lowerElement_eq suspension span value
      simp only [same]
      refine bind (code (.checkSuspendable span)) fun _ => ?_
      refine bind (reading fun _ _ => ?_) fun claimed => plain (restPlain claimed) rfl
      split
      · exact pure _
      · exact reading fun _ _ => bind (modifyMethod fun _ same => same) fun _ => pure _
    | none =>
      have leaving : Steady start start (do
          let cut ← leaveMethod lower
          finishIteration suspension.state
          resumeRegions cut) := by
        simp only [leaveMethod, bind_assoc]
        refine reading fun method current => ?_
        have frames : method.frames = start.frames := by rw [← current]; rfl
        rw [frames]
        exact exit copies _ (.finishIteration trivial trivial)
      refine bind (reading fun _ _ => pure _) fun inside => ?_
      cases inside with
      | true => exact bind (throw rfl) fun _ : PUnit => leaving
      | false => exact leaving

end Exits

end Steady

/-- What is put together from elementary steps finds room if the statements inside do. -/
theorem Woven.steady
    {start stop : MethodContext} {lower : Lowering} {Call : MethodContext → Stmt → Prop}
    {ids : List StmtId} {labels : List Label} {regions : List RegionId} {parts : List Stmt}
    (calls : ∀ {method stmt}, Call method stmt → Steady method method (lower stmt))
    (woven : Woven False lower Call start stop ids labels regions parts step) :
    Steady start stop step := by
  induction woven with
  | plain stepPlain => exact .plain stepPlain rfl
  | throw proper => exact .throw (Bool.or_eq_false_iff.mp proper).2
  | weaken _ _ _ _ _ ih => exact ih
  | bind _ _ firstHypothesis nextHypothesis => exact .bind firstHypothesis nextHypothesis
  | reading _ ih => exact .reading ih
  | fresh _ ih => exact .bind (.takeCode _) ih
  | ownLabels _ ih => exact .bind (.labelsOf _) ih
  | otherLabels id => exact .labelsOf id
  | here => exact .takeCode _
  | protect segments handler catchType => exact .forM fun _ => .modifyCode _
  | declareLocal decl => exact .declareLocal decl
  | newSpillTemp type spans => exact .newSpillTemp type spans
  | inScope _ ih => exact .inScope ih
  | pushFrame _ _ ih =>
    refine .bind (.modifyMethod fun method same => ?_) fun _ => ih
    rw [← same]
    rfl
  | openRegion _ ih =>
    exact .bind .openRegion fun region => ih region False.elim
  | closeRegion _ _ => exact .closeRegion _
  | call allowed _ => exact calls allowed
  | copy allowed => exact .inlineFinalizer (calls allowed)
  | exit allowed leavePlain =>
    exact .exit (fun _ _ _ _ _ frames kind => calls (allowed _ _ _ _ _ frames kind)) _ leavePlain
  | _ =>
    refine .modifyMethod fun method same => ?_
    rw [← same]
    rfl

/-- A statement finds room if the statements that it lowers do. -/
theorem Steady.lowerReachable
    {start : MethodContext} {lower : Lowering}
    (calls : ∀ {inner part}, Calls stmt start inner part → Steady inner inner (lower part)) :
    Steady start start (lowerReachable lower stmt) := by
  by_cases yields : ∃ tag value, stmt = .yield tag value
  · obtain ⟨tag, value, rfl⟩ := yields
    exact .lowerYield (fun _ _ _ _ _ frames kind => calls (.cleanup frames kind)) tag.span value
  · have continues : ∀ tag value, stmt ≠ .yield tag value :=
      fun tag value same => yields ⟨tag, value, same⟩
    have woven : Woven False lower (Calls stmt start) start start [stmt.id] [] [] stmt.children
      (Emit.lowerReachable lower stmt) := woven_lowerReachable continues id
    refine Woven.steady ?_ woven
    exact calls

/-- There is room for every statement within its bound. -/
theorem Steady.lowerWithin
    {depth : Nat} {start : MethodContext}
    (room : nestingBound start.frames stmt ≤ depth) :
    Steady start start (lowerWithin depth stmt) := by
  induction depth generalizing start stmt with
  | zero =>
    have bound := size_le_nestingBound start.frames stmt
    have positive := stmt.size_pos
    omega
  | succ depth ih =>
    unfold Emit.lowerWithin
    split
    · refine lowerReachable fun {inner part} called => ih ?_
      have smaller := called.nestingBound_lt
      omega
    · exact pure ()

theorem Steady.lower {start : MethodContext} : Steady start start (lower stmt) :=
  reading fun _ same => lowerWithin (same ▸ Nat.le_refl _)

/-- What a statement lowers on the way needs less room than the statement. -/
theorem nestingBound_lt_of_enters
    {inner : Stmt} {innerState : Emission}
    (enters : Enters lower stmt state inner innerState) :
    nestingBound innerState.method.frames inner < nestingBound state.method.frames stmt := by
  by_contra larger
  -- The statement finds room even if there is none for what needs as much as it does itself.
  have steady : Steady state.method.setting state.method.setting
      (lowerReachable (stopAt lower inner innerState (.internal .nesting)) stmt) := by
    refine .lowerReachable fun {method part} called before same => ?_
    have passes : ¬(part = inner ∧ before = innerState) := by
      rintro ⟨rfl, rfl⟩
      rw [← same] at called
      exact larger called.nestingBound_lt
    rw [stopAt, if_neg passes]
    exact Steady.lower before same
  have ended := steady state rfl
  rw [enters (.internal .nesting)] at ended
  cases ended

/-! ## One meaning -/

/-- One step of the recursion: a statement is lowered, given how others are. -/
def round (lowering : Lowering) : Lowering := fun stmt =>
  if stmt.isReachable then lowerReachable lowering stmt else return

/-- The second lowering goes on where the first one has no room. -/
def Prolongs (first second : Lowering) : Prop :=
  ∀ stmt state, first stmt state = second stmt state ∨
    ∃ after, first stmt state = .error (.internal .nesting) after

/-- With more room a lowering does the same, or goes on. -/
theorem Dialogue.prolongs
    {misses : CaseKey → Span → Prop} {before : Emission}
    {run : Lowering → EStateM.Result Error Emission α} {first second : Lowering}
    (prolongs : Prolongs first second)
    (dialogue : Dialogue misses before run) :
    run first = run second ∨ ∃ after, run first = .error (.internal .nesting) after := by
  induction dialogue with
  | succeeds _ => exact .inl rfl
  | fails _ => exact .inl rfl
  | @asks before asked stmt next _ _ ih =>
    obtain same | ⟨after, stopped⟩ := prolongs stmt asked
    · beta_reduce
      rw [same]
      cases answered : second stmt asked with
      | ok _ answer => exact ih answer
      | error error answer => exact .inl rfl
    · exact .inr ⟨after, by simp only [stopped, goOn]⟩

namespace Prolongs

variable {first second : Lowering}

theorem round (prolongs : Prolongs first second) : Prolongs (round first) (round second) := by
  intro stmt state
  unfold Emit.round
  split
  · exact ((composed_lowerReachable stmt).dialogue rfl state).prolongs prolongs
  · exact .inl rfl

theorem lowerWithin (depth more : Nat) :
    Prolongs (lowerWithin depth) (Emit.lowerWithin (depth + more)) := by
  induction depth with
  | zero => exact fun _ state => .inr ⟨state, rfl⟩
  | succ depth ih =>
    rw [Nat.add_right_comm]
    exact ih.round

theorem ofFixed {lowering : Lowering} (fixed : Emit.round lowering = lowering) (depth : Nat) :
    Prolongs (Emit.lowerWithin depth) lowering := by
  induction depth with
  | zero => exact fun _ state => .inr ⟨state, rfl⟩
  | succ depth ih =>
    rw [← fixed]
    exact ih.round

/-- A statement that has room is lowered alike. -/
theorem eq_of_room
    {depth : Nat}
    (prolongs : Prolongs (Emit.lowerWithin depth) second)
    (room : nestingBound state.method.frames stmt ≤ depth) :
    Emit.lowerWithin depth stmt state = second stmt state := by
  refine (prolongs stmt state).resolve_right ?_
  rintro ⟨after, stopped⟩
  have steady : Steady state.method.setting state.method.setting (Emit.lowerWithin depth stmt) :=
    .lowerWithin room
  have ended := steady state rfl
  rw [stopped] at ended
  cases ended

/-- The lowering itself prolongs that within any depth. -/
theorem lower (depth : Nat) : Prolongs (Emit.lowerWithin depth) lower := by
  intro stmt state
  obtain short | enough := Nat.le_total depth (nestingBound state.method.frames stmt)
  · obtain ⟨more, sum⟩ := Nat.exists_eq_add_of_le short
    have prolongs := Prolongs.lowerWithin depth more stmt state
    rw [← sum] at prolongs
    exact prolongs
  · obtain ⟨more, sum⟩ := Nat.exists_eq_add_of_le enough
    have prolongs := Prolongs.lowerWithin (nestingBound state.method.frames stmt) more
    rw [← sum] at prolongs
    exact .inl (prolongs.eq_of_room (Nat.le_refl _)).symm

end Prolongs

/-- A lowering solves the recursion exactly if it is the one with enough room. -/
theorem round_eq_iff (lowering : Lowering) : round lowering = lowering ↔ lowering = lower := by
  constructor
  · intro fixed
    funext stmt state
    exact ((Prolongs.ofFixed fixed _).eq_of_room (Nat.le_refl _)).symm
  · rintro rfl
    funext stmt state
    have positive := stmt.size_pos
    have bound := size_le_nestingBound state.method.frames stmt
    obtain ⟨depth, room⟩ := Nat.exists_eq_succ_of_ne_zero (Nat.ne_of_gt (positive.trans_le bound))
    have prolongs : Prolongs (Emit.lowerWithin (depth + 1)) (round lower) :=
      (Prolongs.lower depth).round
    have same := prolongs.eq_of_room (Nat.le_of_eq room)
    rw [← Nat.succ_eq_add_one, ← room] at same
    exact same.symm

/-! ## Chains of calls -/

/-- While the first statement is lowered in its state, so is the second one in its own. -/
structure Nests (outer inner : Stmt × Emission) : Prop where
  reachable : outer.1.isReachable
  enters : Enters lower outer.1 outer.2 inner.1 inner.2

/-- Statements nest no deeper than the bound. -/
theorem length_le_of_isChain
    {calls : List (Stmt × Emission)}
    (chain : List.IsChain Nests ((stmt, state) :: calls)) :
    calls.length + 1 ≤ nestingBound state.method.frames stmt := by
  induction calls generalizing stmt state with
  | nil => exact stmt.size_pos.trans_le (size_le_nestingBound _ _)
  | cons call calls ih =>
    obtain ⟨nests, rest⟩ := List.isChain_cons_cons.mp chain
    have smaller :
        nestingBound call.2.method.frames call.1 < nestingBound state.method.frames stmt :=
      nestingBound_lt_of_enters nests.enters
    have shorter := ih rest
    rw [List.length_cons]
    omega

/--
Lowering nests no deeper than the statement and the finally bodies around it are large.
So it always has room, and the recursion that it stands for has no other solution.
-/
theorem lowering_nests_within_bound :
    (∀ stmt state calls, List.IsChain Nests ((stmt, state) :: calls) →
      calls.length + 1 ≤ stmt.size + (state.method.frames.map Frame.finalizerSize).sum) ∧
    (∀ stmt state after, lower stmt state ≠ .error (.internal .nesting) after) ∧
    ∀ lowering : Lowering, round lowering = lowering ↔ lowering = lower := by
  refine ⟨?_, ?_, round_eq_iff⟩
  · intro stmt state calls chain
    rw [← nestingBound_eq_sum]
    exact length_le_of_isChain chain
  · intro stmt state after stopped
    have steady : Steady state.method.setting state.method.setting (lower stmt) := .lower
    have ended := steady state rfl
    rw [stopped] at ended
    cases ended

namespace ReenteredFinalizer

/-- A finally body. -/
def finalizer : Stmt := .empty { id := ⟨3⟩, info := some { completes := true } }

/-- A statement that leaves the method. -/
def leave : Stmt := .ret { id := ⟨2⟩, info := some {} } none

/-- A try statement around it. -/
def guarded : Stmt := .guard { id := ⟨1⟩, info := some {} } leave [] (some finalizer)

/-- A method with nothing in it. -/
def start : Emission :=
  { method := .start "A" "m" false .void true, cls := { name := "A", config := {} } }

end ReenteredFinalizer

open ReenteredFinalizer in
/-- Leaving a try statement lowers the finally body within the body, as deep as the bound allows. -/
theorem lowering_nests_within_bound_reenteredFinalizer :
    ∃ inside again, List.IsChain Nests [(guarded, start), (leave, inside), (finalizer, again)] ∧
      [(leave, inside), (finalizer, again)].length + 1 ≤
        guarded.size + (start.method.frames.map Frame.finalizerSize).sum ∧ guarded.size = 3 := by
  obtain ⟨_, inside, opened⟩ : ∃ value state, (do
      let _ ← newLabel
      let region ← openRegion
      pushFrame ⟨1⟩ (.finalized finalizer region)) start = .ok value state := ⟨_, _, rfl⟩
  obtain ⟨_, again, detached⟩ : ∃ value state, (do
      suspendRegion 0
      let _ ← detachFrames 0
      pushLabelLayer finalizer
      enterFinally) inside = .ok value state := by cases opened; exact ⟨_, _, rfl⟩
  have stops : ∀ stmt state error, stopAt lower stmt state error stmt state = .error error state :=
    fun _ _ _ => if_pos ⟨rfl, rfl⟩
  have first : Nests (guarded, start) (leave, inside) := by
    refine ⟨rfl, fun error => ?_⟩
    cases opened
    refine bind_error.mpr (.inr ⟨_, _, rfl, bind_error.mpr (.inl ?_)⟩)
    refine bind_error.mpr (.inr ⟨_, _, rfl, bind_error.mpr (.inr ⟨_, _, rfl, ?_⟩)⟩)
    exact bind_error.mpr (.inl (stops _ _ _))
  have second : Nests (leave, inside) (finalizer, again) := by
    refine ⟨rfl, fun error => ?_⟩
    cases opened
    cases detached
    refine bind_error.mpr (.inl (bind_error.mpr (.inr ⟨_, _, rfl, ?_⟩)))
    refine bind_error.mpr (.inr ⟨_, _, rfl, bind_error.mpr (.inl ?_)⟩)
    refine bind_error.mpr (.inr ⟨_, _, rfl, bind_error.mpr (.inl ?_)⟩)
    refine bind_error.mpr (.inr ⟨_, _, rfl, bind_error.mpr (.inr ⟨_, _, rfl, ?_⟩)⟩)
    exact bind_error.mpr (.inl (stops _ _ _))
  have chain : List.IsChain Nests [(guarded, start), (leave, inside), (finalizer, again)] :=
    .cons_cons first (.cons_cons second (.singleton _))
  exact ⟨inside, again, chain, lowering_nests_within_bound.1 _ _ _ chain, rfl⟩

end Emit
end StackCode
