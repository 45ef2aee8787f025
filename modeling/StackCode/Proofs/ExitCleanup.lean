import Mathlib.Data.List.TakeWhile
import StackCode.Proofs.Contexts

/-!
# What exits clean up

A jump, a return or the end of an iteration cleans up what it leaves, right
before it leaves: each construct that protects the exit and does not hold the
target of the jump is cleaned up once, from the inside out, and nothing else is.
The constructs that protect an exit are those around it in the source.  In a copy
of a finally body these do not include the statement to which the finally body
belongs, nor what is inside that statement.
-/

namespace StackCode

open Emit

variable {outer : List StmtId} {body : Stmt} {target : StmtId}

/-! ## Exits -/

/-- The constructs that an exit in a body leaves, of those that protect it. -/
def Stmt.leaves? (body : Stmt) (stmt : Stmt) : Option (Construct → Bool) :=
  match stmt with
  | .ret _ _ => some fun _ => true
  | .yield _ none => some fun _ => true
  | .goto _ _ | .gotoCase _ _ | .breakJump _ _ | .continueJump _ _ =>
    stmt.target?.map fun target construct => !body.encloses construct.stmt target
  | _ => none

/--
The code of an exit around its cleanup: what has been emitted where the cleanup
begins, and how the exit leaves after it.
-/
inductive Departs (state : Emission) : Stmt → Array Instruction → Array Instruction → Prop where
  | jump {stmt : Stmt} {target : StmtId} {label : Label} (found : stmt.target? = some target) :
      Departs state stmt state.code.instructions #[.jump .goto label]
  | leave {tag : StmtTag} :
      Departs state (.ret tag none) state.code.instructions #[.plain (.ofReturn .void)]
  | value {tag : StmtTag} {value : Expr} {evaluated : Emission}
      (pushed : pushValue value state = .ok () evaluated)
      (unprotected : state.method.constructs = []) :
      Departs state (.ret tag (some value)) evaluated.code.instructions
        #[.plain (.ofReturn state.method.returnType.kind)]
  | kept {tag : StmtTag} {value : Expr} {evaluated : Emission} {slot : Nat}
      (pushed : pushValue value state = .ok () evaluated) :
      Departs state (.ret tag (some value))
        (evaluated.code.instructions.push (.store state.method.returnType.kind slot))
        #[.load state.method.returnType.kind slot,
          .plain (.ofReturn state.method.returnType.kind)]
  | finish {tag : StmtTag} {suspension : Suspension}
      (suspended : state.method.suspension = some suspension) :
      Departs state (.yield tag none) state.code.instructions
        #[.load .reference 0, .push (.int (-1)), .putField suspension.state, .plain .iconst0,
          .plain (.ofReturn .int)]

/-- What cleaning a frame up emits, where the given frames are around it. -/
inductive CleansUp (lower : Lowering) (outer : List Frame) :
    Frame → Emission → Emission → Prop where
  /--
  The finally body is lowered once more, in the place of the statement it belongs to and
  with new labels for the statements inside it.
  -/
  | finalizer {id : StmtId} {body : Stmt} {region : RegionId}
      {before copyStart copyEnd after : Emission}
      (begun : copyStart.code.instructions = before.code.instructions)
      (place : copyStart.method.setting =
        { before.method.setting with
          frames := outer
          finallyDepth := before.method.finallyDepth + 1 })
      (layered : copyStart.method.labels = before.method.labels.pushLayer body.ids)
      (copied : lower body copyStart = .ok () copyEnd)
      (ended : after.code.instructions = copyEnd.code.instructions) :
      CleansUp lower outer { stmt := id, kind := .finalized body region } before after
  | monitor {id : StmtId} {slot : Nat} {region : RegionId} {before after : Emission}
      (emitted : after.code.instructions =
        before.code.instructions ++ #[.load .reference slot, .plain .monitorexit]) :
      CleansUp lower outer { stmt := id, kind := .monitor slot region } before after
  | resource {id : StmtId} {slot : Nat} {dispose : MethodRef} {region : RegionId} {skip : Label}
      {before after : Emission}
      (emitted : after.code.instructions =
        before.code.instructions ++ #[.load .reference slot, .jump .ifnull skip,
          .load .reference slot, .invoke dispose])
      (skips : after.code.position? skip = some after.size) :
      CleansUp lower outer { stmt := id, kind := .resource slot dispose region } before after
  | iterator {id : StmtId} {slot : Nat} {dispose : MethodRef} {region : RegionId}
      {before after : Emission}
      (emitted : after.code.instructions =
        before.code.instructions ++ #[.load .reference slot, .invoke dispose]) :
      CleansUp lower outer { stmt := id, kind := .iterator slot dispose region } before after

/-- Frames are left from the inside out, and every construct among them is cleaned up. -/
inductive LeavesFrames (lower : Lowering) (stay : List Frame) :
    List Frame → Emission → Emission → Prop where
  | done {before after : Emission}
      (same : after.code.instructions = before.code.instructions) :
      LeavesFrames lower stay [] before after
  | skip {frame : Frame} {left : List Frame} {before after : Emission}
      (free : frame.construct? = none)
      (rest : LeavesFrames lower stay left before after) :
      LeavesFrames lower stay (frame :: left) before after
  | cleanup {frame : Frame} {left : List Frame} {before between after : Emission}
      (first : CleansUp lower (left ++ stay) frame before between)
      (rest : LeavesFrames lower stay left between after) :
      LeavesFrames lower stay (frame :: left) before after

/-- An exit that cleans exactly the given constructs up, right before it leaves. -/
def CleansExactly
    (lower : Lowering)
    (stmt : Stmt)
    (constructs : List Construct)
    (state after : Emission) :
    Prop :=
  ∃ left stay begun cleaned final,
    state.method.frames = left ++ stay ∧
      left.filterMap Frame.construct? = constructs ∧
      Departs state stmt begun.code.instructions final ∧
      LeavesFrames lower stay left begun cleaned ∧
      after.code.instructions = cleaned.code.instructions ++ final

/-! ## The walk over the frames -/

section Walk

variable {lower : Lowering} {start : MethodContext} {before after : Emission}
variable {region : RegionId}

theorem instructions_modifyRegion
    {change : OpenRegion → OpenRegion}
    (success : modifyRegion region change before = .ok () after) :
    after.code = before.code := by
  have rest := method_bind_eq.mp success
  cases known : before.method.regions[region]? with
  | none =>
    rw [known] at rest
    exact (defect_ok.mp rest).elim
  | some found =>
    rw [known] at rest
    rw [← modifyMethod_ok.mp rest]
    rfl

theorem instructions_suspendRegion (success : suspendRegion region before = .ok () after) :
    after.code.instructions = before.code.instructions := by
  obtain ⟨_, _, labeled, rest⟩ := bind_ok.mp success
  obtain ⟨-, rfl⟩ := here_ok.mp labeled
  rw [instructions_modifyRegion rest]
  rfl

/-- Resuming regions emits nothing. -/
theorem instructions_resumeRegions
    {regions : List RegionId}
    (success : resumeRegions regions before = .ok () after) :
    after.code.instructions = before.code.instructions := by
  unfold resumeRegions at success
  induction regions generalizing before with
  | nil =>
    obtain ⟨-, rfl⟩ := pure_ok.mp success
    rfl
  | cons region regions ih =>
    obtain ⟨between, resumed, rest⟩ := seq_ok.mp success
    obtain ⟨_, _, labeled, changed⟩ := bind_ok.mp resumed
    obtain ⟨-, rfl⟩ := here_ok.mp labeled
    rw [ih rest, instructions_modifyRegion changed]
    rfl

/-- The cleanup of a frame with a region, in a state where the region has been cut. -/
theorem CleansUp.ofCleanup
    {outer : List Frame} {frame : Frame}
    (found : frame.region? = some region)
    {cut copyEnd : Emission}
    (begun : cut.code.instructions = before.code.instructions)
    (place : cut.method.setting = { before.method.setting with frames := outer })
    (labels : cut.method.labels = before.method.labels)
    (cleaned : cleanup lower frame cut = .ok () copyEnd)
    (ended : after.code = copyEnd.code) :
    CleansUp lower outer frame before after := by
  obtain ⟨id, kind⟩ := frame
  cases kind with
  | loop => contradiction
  | switch => contradiction
  | labeled => contradiction
  | finalized body region =>
    obtain ⟨copyEnd, lowered, rfl⟩ := Tidy.inlineFinalizer_ok cleaned
    have depth : cut.method.finallyDepth = before.method.finallyDepth := by
      have same := congrArg MethodContext.finallyDepth place
      exact same
    have deeper : (Tidy.copying body cut).method.setting =
        { cut.method.setting with finallyDepth := cut.method.finallyDepth + 1 } := rfl
    refine .finalizer ?_ (deeper.trans ?_) ?_ lowered (congrArg Code.instructions ended)
    · exact begun
    · rw [place, depth]
    · rw [← labels]
      rfl
  | monitor slot region =>
    refine .monitor ?_
    simp only [cleanup, exitMonitor, loadRef, load, op, seq_ok, emit_ok] at cleaned
    obtain ⟨_, rfl, rfl⟩ := cleaned
    rw [ended, ← begun]
    apply Array.ext'
    simp [Code.emit]
  | resource slot dispose region =>
    simp only [cleanup, disposeResource, loadRef, load, jump, invoke, bind_ok, newLabel_ok, emit_ok,
      mark_ok] at cleaned
    obtain ⟨skip, _, ⟨-, rfl⟩, _, _, rfl, _, _, rfl, _, _, rfl, _, _, rfl, free, rfl⟩ := cleaned
    have bound := (Array.getElem?_eq_some_iff.mp free).1
    have emitted : after.code.instructions = before.code.instructions ++ #[.load .reference slot,
        .jump .ifnull skip, .load .reference slot, .invoke dispose] := by
      rw [ended, ← begun]
      apply Array.ext'
      simp [Code.emit, Code.newLabel]
    have skips : after.code.position? skip = some after.size := by
      rw [Emission.size, ended]
      simp only [Emission.code_mapCode] at bound ⊢
      simp [Code.position?, bound, Code.size]
    exact .resource emitted skips
  | iterator slot dispose region =>
    refine .iterator ?_
    simp only [cleanup, disposeIterator, loadRef, load, invoke, seq_ok, emit_ok] at cleaned
    obtain ⟨_, rfl, rfl⟩ := cleaned
    rw [ended, ← begun]
    apply Array.ext'
    simp [Code.emit]

/-- The walk over the frames cleans up every construct up to the first frame that stays. -/
theorem LeavesFrames.ofCleanupFrames
    (copies : CopiesTidily lower start)
    {stays : Frame → Bool} {frames inner : List Frame}
    (split : start.frames = inner ++ frames)
    {cut : List RegionId}
    (settled : Settled start frames before)
    (success : cleanupFrames lower stays frames before = .ok cut after) :
    LeavesFrames lower (frames.dropWhile fun frame => !stays frame)
      (frames.takeWhile fun frame => !stays frame) before after := by
  induction frames generalizing inner before cut with
  | nil =>
    obtain ⟨-, rfl⟩ := pure_ok.mp success
    exact .done rfl
  | cons frame outer ih =>
    have deeper : start.frames = (inner ++ [frame]) ++ outer := by simp [split]
    unfold cleanupFrames at success
    split_ifs at success with stay
    · obtain ⟨-, rfl⟩ := pure_ok.mp success
      simp only [List.takeWhile_cons, List.dropWhile_cons, stay, Bool.not_true]
      exact .done rfl
    · rw [Bool.not_eq_true] at stay
      simp only [List.takeWhile_cons, List.dropWhile_cons, stay, Bool.not_false, if_true]
      cases found : frame.region? with
      | none =>
        rw [found] at success
        have free : frame.construct? = none := by
          rw [← Option.not_isSome_iff_eq_none, frame.isSome_construct?, found]
          simp
        exact .skip free (ih deeper (settled.skip found) success)
      | some region =>
        rw [found] at success
        obtain ⟨between, suspended, rest⟩ := seq_ok.mp success
        obtain ⟨_, cleaned, rest⟩ := seq_ok.mp rest
        obtain ⟨_, _, walked, rest⟩ := bind_ok.mp rest
        obtain ⟨-, rfl⟩ := pure_ok.mp rest
        obtain ⟨-, settledOutside⟩ := settled.cleaned copies split found suspended cleaned
        refine .cleanup ?_ (ih deeper settledOutside walked)
        have cuts : Cuts (· ≠ region) before between := .suspendRegion suspended
        have frames : between.method.frames = (inner ++ [frame]) ++ outer := by
          have kept := congrArg MethodContext.frames (cuts.setting.trans settled.setting)
          exact kept.trans deeper
        obtain ⟨inside, stepped, rfl⟩ := withOuterFrames_ok frames cleaned
        rw [List.takeWhile_append_dropWhile]
        refine .ofCleanup found ?_ ?_ ?_ stepped rfl
        · have same := instructions_suspendRegion suspended
          exact same
        · rw [← cuts.setting]
          rfl
        · have same := cuts.labels
          exact same

end Walk

/-! ## Frames that are left -/

/-- The construct of a frame belongs to the same statement. -/
theorem Frame.stmt_construct? {frame : Frame} {construct : Construct}
    (found : frame.construct? = some construct) : construct.stmt = frame.stmt := by
  obtain ⟨id, kind⟩ := frame
  cases kind <;> cases found <;> rfl

/-- If what stays comes last, the rest is what comes before the first one that stays. -/
theorem filter_not_eq_takeWhile {stays : α → Bool} {values : List α}
    (last : values.Pairwise fun first second => stays first → stays second) :
    values.filter (fun value => !stays value) = values.takeWhile fun value => !stays value := by
  induction values with
  | nil => rfl
  | cons value values ih =>
    rw [List.pairwise_cons] at last
    rw [List.filter_cons, List.takeWhile_cons]
    split
    · rw [ih last.2]
    · next stay =>
      rw [List.filter_eq_nil_iff]
      intro other member
      have stays := last.1 other member (by simpa using stay)
      simp [stays]

/-- The constructs that are left are those of the frames left. -/
theorem filterMap_construct_filter (leaves : StmtId → Bool) (frames : List Frame) :
    (frames.filter fun frame => leaves frame.stmt).filterMap Frame.construct? =
      (frames.filterMap Frame.construct?).filter fun construct => leaves construct.stmt := by
  induction frames with
  | nil => rfl
  | cons frame frames ih =>
    rw [List.filter_cons]
    cases found : frame.construct? with
    | none =>
      rw [List.filterMap_cons_none found, ← ih]
      split
      · rw [List.filterMap_cons_none found]
      · rfl
    | some construct =>
      rw [List.filterMap_cons_some found, List.filter_cons, Frame.stmt_construct? found,
        ← ih]
      split
      · rw [List.filterMap_cons_some found]
      · rfl

theorem LeavesFrames.ofFree
    {lower : Lowering} {stay frames : List Frame}
    (free : ∀ frame ∈ frames, frame.construct? = none)
    (state : Emission) :
    LeavesFrames lower stay frames state state := by
  induction frames with
  | nil => exact .done rfl
  | cons frame frames ih =>
    refine .skip (free frame List.mem_cons_self) (ih ?_)
    exact fun other member => free other (List.mem_cons_of_mem _ member)

section Leaving

variable {lower : Lowering} {start : MethodContext} {before after : Emission}
variable {regions : List RegionId}

/-- Leaving the method leaves all frames. -/
theorem leavesFrames_leaveMethod
    (copies : CopiesTidily lower start)
    (settled : Settled start start.frames before)
    (success : leaveMethod lower before = .ok regions after) :
    LeavesFrames lower [] start.frames before after := by
  have walked := method_bind_eq.mp success
  have frames := congrArg MethodContext.frames settled.setting
  change before.method.frames = start.frames at frames
  rw [frames] at walked
  have leaves := LeavesFrames.ofCleanupFrames copies (List.nil_append _).symm settled walked
  rwa [Bool.not_false, List.takeWhile_eq_self_iff.mpr fun _ _ => rfl,
    List.dropWhile_eq_nil_iff.mpr fun _ _ => rfl] at leaves

/-- A jump leaves the frames of the statements that do not have its target inside. -/
theorem leavesFrames_leaveFor
    (copies : CopiesTidily lower start)
    (settled : Settled start start.frames before)
    {stmt : Stmt}
    (distinct : body.ids.Nodup)
    (sited : Sited body stmt outer start.frames)
    (parents : start.parents = .ofBody body)
    (success : leaveFor lower target before = .ok regions after) :
    ∃ left stay, start.frames = left ++ stay ∧
      left.filterMap Frame.construct? =
        start.constructs.filter (fun construct => !body.encloses construct.stmt target) ∧
      LeavesFrames lower stay left before after := by
  have walked := method_bind_eq.mp success
  have frames := congrArg MethodContext.frames settled.setting
  change before.method.frames = start.frames at frames
  have known := congrArg MethodContext.parents settled.setting
  change before.method.parents = start.parents at known
  rw [frames, known, parents] at walked
  have leaves := LeavesFrames.ofCleanupFrames copies (List.nil_append _).symm settled walked
  have stays : ∀ frame ∈ start.frames,
      ((ParentMap.ofBody body).ancestors target).contains frame.stmt =
        body.encloses frame.stmt target := by
    intro frame member
    rw [Bool.eq_iff_iff, List.contains_iff_mem]
    exact ParentMap.mem_ancestors_iff distinct (sited.mem_ids member)
  refine ⟨_, _, List.takeWhile_append_dropWhile.symm, ?_, leaves⟩
  have same : (start.frames.takeWhile fun frame =>
      !((ParentMap.ofBody body).ancestors target).contains frame.stmt) =
        start.frames.filter fun frame => !body.encloses frame.stmt target := by
    have last := (sited.pairwise_ancestors distinct target).imp_of_mem
      fun {first second} firstMember secondMember => by
        rw [← stays first firstMember, ← stays second secondMember]
        exact id
    rw [← filter_not_eq_takeWhile last]
    exact List.filter_congr fun frame member => by rw [stays frame member]
  rw [same]
  exact filterMap_construct_filter (fun id => !body.encloses id target) start.frames

/-- After that it goes to its label. -/
theorem leavesFrames_exitTo
    (copies : CopiesTidily lower start)
    (settled : Settled start start.frames before)
    {stmt : Stmt}
    (distinct : body.ids.Nodup)
    (sited : Sited body stmt outer start.frames)
    (parents : start.parents = .ofBody body)
    {label : Label}
    (success : exitTo lower target label before = .ok () after) :
    ∃ left stay cleaned, start.frames = left ++ stay ∧
      left.filterMap Frame.construct? =
        start.constructs.filter (fun construct => !body.encloses construct.stmt target) ∧
      LeavesFrames lower stay left before cleaned ∧
      after.code.instructions = cleaned.code.instructions ++ #[.jump .goto label] := by
  obtain ⟨regions, cleaned, walked, rest⟩ := bind_ok.mp success
  obtain ⟨_, left, resumed⟩ := seq_ok.mp rest
  obtain ⟨inner, stay, frames, constructs, leaves⟩ :=
    leavesFrames_leaveFor copies settled distinct sited parents walked
  obtain rfl := emit_ok.mp left
  refine ⟨inner, stay, cleaned, frames, constructs, leaves, ?_⟩
  rw [instructions_resumeRegions resumed]
  apply Array.ext'
  simp [Code.emit]

end Leaving

/-! ## The code of exits -/

section Exits

variable {lower : Lowering} {state after : Emission}
variable {regions : List RegionId} {stmt : Stmt}

/-- All frames are in place after a step that leaves the books in order. -/
theorem Emit.Settled.ofKept
    {start : MethodContext} {ids : List StmtId} {labels : List Label} {before : Emission}
    (kept : before.Kept start ids labels regions after) :
    Settled start start.frames after := by
  have frames : after.method.frames = start.frames := by
    have same := congrArg MethodContext.frames kept.setting
    exact same
  exact
    { setting := kept.setting
      orderly := kept.orderly
      distinct := frames ▸ kept.framed.distinct
      isOpen := frames ▸ kept.framed.isOpen }

theorem instructions_labelsOf {id : StmtId} {labels : StmtLabels}
    (success : labelsOf id state = .ok labels after) :
    after.code.instructions = state.code.instructions := by
  obtain ⟨-, rfl⟩ | ⟨-, -, rfl⟩ := labelsOf_cases success
  · rfl
  · rfl

theorem gotoKey_ok {key : Option Expr} {result : CaseKey}
    (success : gotoKey key state = .ok result after) : state = after := by
  cases key with
  | none => exact (pure_ok.mp success).2
  | some expr =>
    simp only [gotoKey] at success
    cases known : expr.constant?.bind CaseKey.ofConst? with
    | some key =>
      simp only [known] at success
      exact (pure_ok.mp success).2
    | none =>
      simp only [known] at success
      exact (throw_ok.mp success).elim

/-- An exit from the method cleans up everything, and then ends in its own way. -/
theorem CleansExactly.leaveMethod
    {begun cleaned : Emission}
    (copies : CopiesTidily lower state.method.setting)
    (settled : Settled state.method.setting state.method.setting.frames begun)
    {final : Array Instruction}
    (departs : Departs state stmt begun.code.instructions final)
    (walked : Emit.leaveMethod lower begun = .ok regions cleaned)
    (left : after.code.instructions = cleaned.code.instructions ++ final) :
    CleansExactly lower stmt (state.method.constructs.filter fun _ => true) state after := by
  have leaves := leavesFrames_leaveMethod copies settled walked
  refine ⟨_, [], begun, cleaned, final, (List.append_nil _).symm, ?_, departs, leaves, left⟩
  rw [List.filter_true]
  rfl

/-- A value that is returned waits in a slot while something is cleaned up. -/
theorem CleansExactly.returnValue
    {tag : StmtTag} {value : Expr} {ids : List StmtId} {labels : List Label}
    (copies : CopiesTidily lower state.method.setting)
    (ready : state.Ready state.method.setting ids labels regions)
    (success : lowerReturn lower (some value) state = .ok () after) :
    CleansExactly lower (.ret tag (some value)) (state.method.constructs.filter fun _ => true)
      state after := by
  have rest := method_bind_eq.mp success
  obtain ⟨pending, _, looked, rest⟩ := bind_ok.mp rest
  obtain ⟨rfl, rfl⟩ := pure_ok.mp looked
  split_ifs at rest with pending
  · obtain ⟨evaluated, pushed, rest⟩ := seq_ok.mp rest
    obtain ⟨slot, reserved, reserving, rest⟩ := bind_ok.mp rest
    obtain ⟨begun, stored, rest⟩ := seq_ok.mp rest
    have waits : (do
        pushValue value
        let slot ← newTemp state.method.returnType
        store state.method.returnType.kind slot) state = .ok () begun :=
      seq_ok.mpr ⟨_, pushed, bind_ok.mpr ⟨_, _, reserving, stored⟩⟩
    have kept := (Tidy.plain (.seq (.pushValue .all) (.bind (.newTemp _) fun _ => .store _ _))).kept
      ready waits
    have departs : Departs state (.ret tag (some value)) begun.code.instructions
        #[.load state.method.returnType.kind slot,
          .plain (.ofReturn state.method.returnType.kind)] := by
      have code : begun.code.instructions =
          evaluated.code.instructions.push (.store state.method.returnType.kind slot) := by
        obtain ⟨-, rfl⟩ := newTemp_ok.mp reserving
        obtain rfl := emit_ok.mp stored
        simp [Code.emit]
      rw [code]
      exact .kept pushed
    obtain ⟨_, cleaned, walked, rest⟩ := bind_ok.mp rest
    obtain ⟨_, loaded, rest⟩ := seq_ok.mp rest
    obtain rfl := emit_ok.mp loaded
    obtain ⟨_, returned, resumed⟩ := seq_ok.mp rest
    obtain rfl := emit_ok.mp returned
    refine .leaveMethod copies (.ofKept kept) departs walked ?_
    rw [instructions_resumeRegions resumed]
    apply Array.ext'
    simp [Code.emit]
  · obtain ⟨evaluated, pushed, returned⟩ := seq_ok.mp rest
    obtain rfl := emit_ok.mp returned
    have free : ∀ frame ∈ state.method.frames, frame.construct? = none := by
      intro frame member
      rw [← Option.not_isSome_iff_eq_none, frame.isSome_construct?]
      intro cleanup
      exact pending (List.any_eq_true.mpr ⟨frame, member, cleanup⟩)
    refine ⟨state.method.frames, [], evaluated, evaluated, _, (List.append_nil _).symm, ?_,
      .value pushed (List.filterMap_eq_nil_iff.mpr free), .ofFree free evaluated, ?_⟩
    · rw [List.filter_true]
      rfl
    · apply Array.ext'
      simp [Code.emit]

/-- A jump cleans up what does not have its target inside. -/
theorem CleansExactly.exitTo
    {begun : Emission}
    (copies : CopiesTidily lower state.method.setting)
    (settled : Settled state.method.setting state.method.setting.frames begun)
    (distinct : body.ids.Nodup)
    (sited : Sited body stmt outer state.method.frames)
    (parents : state.method.parents = .ofBody body)
    (found : stmt.target? = some target)
    (same : begun.code.instructions = state.code.instructions)
    {label : Label}
    (success : exitTo lower target label begun = .ok () after) :
    CleansExactly lower stmt
      (state.method.constructs.filter fun construct => !body.encloses construct.stmt target)
      state after := by
  obtain ⟨left, stay, cleaned, frames, constructs, leaves, jumped⟩ :=
    leavesFrames_exitTo copies settled distinct sited parents success
  have departs : Departs state stmt begun.code.instructions #[.jump .goto label] := by
    rw [same]
    exact .jump found
  exact ⟨left, stay, begun, cleaned, _, frames, constructs, departs, leaves, jumped⟩

/-- An exit cleans up exactly what it leaves. -/
theorem cleansExactly_lowerReachable
    (copies : CopiesTidily lower state.method.setting)
    (inOrder : InOrder stmt state)
    (distinct : body.ids.Nodup)
    (sited : Sited body stmt outer state.method.frames)
    (parents : state.method.parents = .ofBody body)
    {leaves : Construct → Bool}
    (exit : body.leaves? stmt = some leaves)
    (success : lowerReachable lower stmt state = .ok () after) :
    CleansExactly lower stmt (state.method.constructs.filter leaves) state after := by
  have settled : Settled state.method.setting state.method.setting.frames state :=
    .ofReady inOrder.ready
  have jump : ∀ label : StmtLabels → Label, (stmt.target?.map fun target construct =>
      !body.encloses construct.stmt target) = some leaves →
        lowerJump lower stmt label state = .ok () after →
          CleansExactly lower stmt (state.method.constructs.filter leaves) state after := by
    intro label exit success
    obtain ⟨target, found, rfl⟩ := Option.map_eq_some_iff.mp exit
    obtain ⟨_, _, targeted, rest⟩ := bind_ok.mp success
    rw [targetOf, found] at targeted
    obtain ⟨rfl, rfl⟩ := pure_ok.mp targeted
    obtain ⟨labels, begun, labeled, rest⟩ := bind_ok.mp rest
    have kept := (Tidy.otherLabels target).kept inOrder.ready labeled
    exact .exitTo copies (.ofKept kept) distinct sited parents found
      (instructions_labelsOf labeled) rest
  cases stmt with
  | goto tag label => exact jump _ exit success
  | breakJump tag label => exact jump _ exit success
  | continueJump tag label => exact jump _ exit success
  | gotoCase tag key =>
    obtain ⟨target, found, rfl⟩ := Option.map_eq_some_iff.mp exit
    obtain ⟨_, _, targeted, rest⟩ := bind_ok.mp success
    rw [targetOf, found] at targeted
    obtain ⟨rfl, rfl⟩ := pure_ok.mp targeted
    obtain ⟨_, _, read, rest⟩ := bind_ok.mp rest
    obtain rfl := gotoKey_ok read
    obtain ⟨label?, _, looked, rest⟩ := bind_ok.mp rest
    obtain ⟨-, rfl⟩ := pure_ok.mp looked
    cases label? with
    | none => exact (throw_ok.mp rest).elim
    | some label => exact .exitTo copies settled distinct sited parents found rfl rest
  | ret tag value =>
    cases exit
    cases value with
    | none =>
      obtain ⟨_, cleaned, walked, rest⟩ := bind_ok.mp success
      obtain ⟨_, returned, resumed⟩ := seq_ok.mp rest
      obtain rfl := emit_ok.mp returned
      refine .leaveMethod copies settled .leave walked ?_
      rw [instructions_resumeRegions resumed]
      apply Array.ext'
      simp [Code.emit]
    | some value => exact .returnValue copies inOrder.ready success
  | yield tag value =>
    cases value with
    | some value => contradiction
    | none =>
      cases exit
      have rest := method_bind_eq.mp success
      cases suspended : state.method.suspension with
      | none =>
        simp only [suspended] at rest
        exact (throw_ok.mp rest).elim
      | some suspension =>
        simp only [suspended, lowerEnd] at rest
        obtain ⟨_, _, read, rest⟩ := bind_ok.mp rest
        obtain ⟨-, rfl⟩ := pure_ok.mp read
        split_ifs at rest with finalizing
        · exact (throw_ok.mp rest).elim
        · obtain ⟨_, cleaned, walked, rest⟩ := bind_ok.mp rest
          obtain ⟨_, finished, resumed⟩ := seq_ok.mp rest
          refine .leaveMethod copies settled (.finish suspended) walked ?_
          rw [instructions_resumeRegions resumed]
          simp only [finishIteration, loadRef, load, pushInt, push, putField, op,
            returnKind, seq_ok, emit_ok] at finished
          obtain ⟨_, rfl, _, rfl, _, rfl, _, rfl, rfl⟩ := finished
          apply Array.ext'
          simp [Code.emit]
  | _ => contradiction

end Exits

/--
Wherever a jump, a return or the end of an iteration is lowered, also in a copy of
a finally body, it cleans up once each of the constructs that protect it in the
source and that it leaves, from the inside out, and nothing else.
-/
theorem exit_cleans_what_it_leaves
    (decl : ClassDecl)
    {body stmt : Stmt}
    {state after : Emission}
    (loweredAt : LoweredAt decl.annotate body stmt state)
    {depth : Nat}
    (reachable : stmt.isReachable)
    (lowered : lowerWithin (depth + 1) stmt state = .ok () after)
    {leaves : Construct → Bool}
    (exit : body.leaves? stmt = some leaves) :
    (∃ outer around, body.Lies stmt outer around) ∧
      ∀ outer around, body.Lies stmt outer around →
        CleansExactly (lowerWithin depth) stmt (around.filter leaves) state after := by
  have inOrder := loweredAt.inOrder decl.distinct_annotate
  have distinct := loweredAt.nodup_body decl.distinct_annotate
  obtain ⟨outer, sited⟩ := loweredAt.sited decl.distinct_annotate
  have copies : CopiesTidily (lowerWithin depth) state.method.setting := by
    intro inner frame outer finalizer region frames kind
    have distinguished := inOrder.distinguished.calls (.cleanup frames kind)
    exact ⟨distinguished.distinct, .lowerWithin depth distinguished⟩
  rw [lowerWithin, if_pos reachable] at lowered
  refine ⟨⟨outer, _, sited.lies⟩, ?_⟩
  intro _ around lies
  rw [ParentMap.around_unique distinct lies sited.lies]
  exact cleansExactly_lowerReachable copies inOrder distinct sited
    (loweredAt.parents decl.distinct_annotate) exit lowered

/-- What happens before the body of a synchronized statement. -/
def enterMonitor (id : StmtId) (lock : Expr) : Emit Unit := do
  enterScope
  pushValue lock
  op .dup
  let slot ← newTemp .object
  storeRef slot
  op .monitorenter
  let region ← openRegion
  pushFrame id (.monitor slot region)

/-- A synchronized statement asks for its body while it holds the monitor. -/
theorem enters_synchronized
    {room : Nat} {tag : StmtTag} {lock : Expr} {body : Stmt} {start state : Emission}
    (success : enterMonitor tag.id lock start = .ok () state) :
    Enters (lowerWithin room) (.synchronized tag lock body) start body state := by
  obtain ⟨_, opening, rest⟩ := seq_ok.mp success
  obtain ⟨_, pushing, rest⟩ := seq_ok.mp rest
  obtain ⟨_, copying, rest⟩ := seq_ok.mp rest
  obtain ⟨slot, _, reserving, rest⟩ := bind_ok.mp rest
  obtain ⟨_, storing, rest⟩ := seq_ok.mp rest
  obtain ⟨_, acquiring, rest⟩ := seq_ok.mp rest
  obtain ⟨region, _, protecting, framing⟩ := bind_ok.mp rest
  intro error
  have stopped : stopAt (lowerWithin room) body state error body state = .error error state :=
    if_pos ⟨rfl, rfl⟩
  refine bind_error.mpr (.inr ⟨_, _, opening, bind_error.mpr (.inl ?_)⟩)
  refine bind_error.mpr (.inr ⟨_, _, pushing, bind_error.mpr (.inr ⟨_, _, copying, ?_⟩)⟩)
  refine bind_error.mpr (.inr ⟨_, _, reserving, bind_error.mpr (.inr ⟨_, _, storing, ?_⟩)⟩)
  refine bind_error.mpr (.inr ⟨_, _, acquiring, ?_⟩)
  refine bind_error.mpr (.inr ⟨_, _, protecting, bind_error.mpr (.inr ⟨_, _, framing, ?_⟩)⟩)
  exact bind_error.mpr (.inl stopped)

/-- What happens before the block of a try statement with a finally body. -/
def enterGuard (id : StmtId) (finalizer : Stmt) : Emit Unit := do
  let _ ← newLabel
  let region ← openRegion
  pushFrame id (.finalized finalizer region)

/-- A try statement asks for its block under the frame of its finally body. -/
theorem enters_guard
    {room : Nat} {tag : StmtTag} {body finalizer : Stmt} {catches : List CatchClause}
    {start state : Emission}
    (success : enterGuard tag.id finalizer start = .ok () state) :
    Enters (lowerWithin room) (.guard tag body catches (some finalizer)) start body state := by
  obtain ⟨done, _, labelling, rest⟩ := bind_ok.mp success
  obtain ⟨region, _, protecting, framing⟩ := bind_ok.mp rest
  intro error
  have stopped : stopAt (lowerWithin room) body state error body state = .error error state :=
    if_pos ⟨rfl, rfl⟩
  refine bind_error.mpr (.inr ⟨_, _, labelling, bind_error.mpr (.inl ?_)⟩)
  refine bind_error.mpr (.inr ⟨_, _, protecting, bind_error.mpr (.inr ⟨_, _, framing, ?_⟩)⟩)
  exact bind_error.mpr (.inl stopped)

/-- A method that returns from a statement with a finally body while it holds a monitor. -/
def nestedReturn : MethodDecl :=
  let receiver : Expr := .self { type := .object }
  { name := "m"
    body := some (.synchronized {} receiver
      (.guard {} (.ret {} none) [] (some (.eval {} receiver)))) }

/-- The finally body runs and then the monitor is given up, right before the method returns. -/
theorem exit_cleans_what_it_leaves_nestedReturn :
    ∃ body tag finalizer state after,
      LoweredAt (ClassDecl.annotate { name := "A", methods := [nestedReturn] }) body
          (.ret tag none) state ∧
        lowerWithin 2 (.ret tag none) state = .ok () after ∧ after.size = state.size + 5 ∧
        CleansExactly (lowerWithin 1) (.ret tag none)
          [{ stmt := ⟨2⟩, cleanup := .finalizer finalizer }, { stmt := ⟨1⟩, cleanup := .monitor }]
          state after := by
  let receiver : Expr := .self { type := .object }
  let finalizer : Stmt := .eval { id := ⟨4⟩, info := some { completes := true } } receiver
  let exit : Stmt := .ret { id := ⟨3⟩, info := some {} } none
  let guarded : Stmt := .guard { id := ⟨2⟩, info := some {} } exit [] (some finalizer)
  let body : Stmt := .synchronized { id := ⟨1⟩, info := some {} } receiver guarded
  let start : Emission :=
    { method := .start "A" "m" false .void true, cls := { name := "A", config := {} } }
  let run : Emit Nat := do
    plainEntry nestedReturn.annotate body
    enterMonitor ⟨1⟩ receiver
    enterGuard ⟨2⟩ finalizer
    let state ← get
    lowerWithin 2 exit
    return state.size
  obtain ⟨_, _, ran, size⟩ : ∃ size after,
      run start = .ok size after ∧ decide (after.size = size + 5) :=
    exists_ok (by decide +kernel)
  obtain ⟨entered, entering, rest⟩ := seq_ok.mp ran
  obtain ⟨held, locking, rest⟩ := seq_ok.mp rest
  obtain ⟨state, guarding, rest⟩ := seq_ok.mp rest
  obtain ⟨_, _, read, rest⟩ := bind_ok.mp rest
  cases read
  obtain ⟨after, lowered, rest⟩ := seq_ok.mp rest
  obtain ⟨rfl, rfl⟩ := pure_ok.mp rest
  have entersGuarded : Enters (lowerWithin 0) body entered guarded held :=
    enters_synchronized locking
  have entersExit : Enters (lowerWithin 0) guarded held exit state := enters_guard guarding
  have loweredAt : LoweredAt (ClassDecl.annotate { name := "A", methods := [nestedReturn] })
      body exit state :=
    ⟨entered, Entered.plain List.mem_cons_self rfl entering,
      .within (.within .body entersGuarded) entersExit⟩
  have locked : body.Lies guarded [⟨1⟩] ([{ stmt := ⟨1⟩, cleanup := .monitor }] ++ []) :=
    .part .whole List.mem_cons_self
  have lies : body.Lies exit [⟨2⟩, ⟨1⟩] ([{ stmt := ⟨2⟩, cleanup := .finalizer finalizer }] ++
      ([{ stmt := ⟨1⟩, cleanup := .monitor }] ++ [])) :=
    .part locked List.mem_cons_self
  refine ⟨body, _, finalizer, state, after, loweredAt, lowered, of_decide_eq_true size, ?_⟩
  exact (exit_cleans_what_it_leaves { name := "A", methods := [nestedReturn] } loweredAt rfl
    lowered rfl).2 _ _ lies

end StackCode
