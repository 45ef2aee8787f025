import StackCode.Proofs.Tidiness

/-!
# Runs of lowerings

A lowering that succeeds is a sequence of elementary transitions: plain steps,
changes to what is kept track of, the lowering of statements inside, and copies
of finally bodies.  What each transition preserves, a whole run preserves.  In
every state in which a statement is lowered on the way the books are in order.
-/

namespace StackCode
namespace Emit

variable {regions : List RegionId} {labels : List Label} {ids : List StmtId}

/-- The steps of lowering that emit no code and only change what is kept track of. -/
inductive Elementary : {α : Type} → Emit α → Prop where
  | labelsOf (id : StmtId) : Elementary (labelsOf id)
  | here : Elementary here
  | protect (segments : List (Label × Label)) (handler : Label) (catchType : Option Ty) :
      Elementary (protect segments handler catchType)
  | declareLocal (decl : LocalDecl) : Elementary (declareLocal decl)
  | newSpillTemp (type : Ty) (spans : Bool) : Elementary (newSpillTemp type spans)
  | enterScope : Elementary enterScope
  | exitScope : Elementary exitScope
  | frames (change : List Frame → List Frame) :
      Elementary (modifyMethod fun method => { method with frames := change method.frames })
  | catchSlots (change : List Nat → List Nat) :
      Elementary (modifyMethod fun method => { method with catchSlots := change method.catchSlots })
  | switches (change : List (StmtId × CaseMap) → List (StmtId × CaseMap)) :
      Elementary (modifyMethod fun method => { method with switches := change method.switches })
  | openRegion : Elementary openRegion
  | suspendRegion (region : RegionId) : Elementary (suspendRegion region)
  | resumeRegion (region : RegionId) : Elementary (resumeRegion region)
  | closeRegion (region : RegionId) : Elementary (closeRegion region)

/--
A run that lowers the given statements, in their order, among elementary
transitions; `Call` holds of the places of statements that are lowered.
-/
inductive Runs (lower : Lowering) (Call : MethodContext → Stmt → Prop) :
    Emission → Emission → List Stmt → Prop where
  | refl (state : Emission) : Runs lower Call state state []
  | trans {before between after : Emission} {parts parts' : List Stmt}
      (first : Runs lower Call before between parts)
      (second : Runs lower Call between after parts') :
      Runs lower Call before after (parts ++ parts')
  | less {before after : Emission} {parts parts' : List Stmt}
      (run : Runs lower Call before after parts)
      (within : parts.Sublist parts') :
      Runs lower Call before after parts'
  | plain {before after : Emission} {labels : List Label} {step : Emit α} {value : α}
      (stepPlain : ∀ {writable}, Plain writable .any (fun _ => True) labels step)
      (success : step before = .ok value after) :
      Runs lower Call before after []
  | elementary {before after : Emission} {step : Emit α} {value : α}
      (stepElementary : Elementary step)
      (success : step before = .ok value after) :
      Runs lower Call before after []
  | call {before after : Emission} {stmt : Stmt}
      (allowed : Call before.method.setting stmt)
      (ready : before.Ready before.method.setting stmt.ids [] [])
      (success : lower stmt before = .ok () after) :
      Runs lower Call before after [stmt]
  | copy {before copyEnd : Emission} {finalizer : Stmt}
      (allowed : Call (Tidy.copying finalizer before).method.setting finalizer)
      (ready : (Tidy.copying finalizer before).Ready
        (Tidy.copying finalizer before).method.setting finalizer.ids [] [])
      (success : lower finalizer (Tidy.copying finalizer before) = .ok () copyEnd) :
      Runs lower Call before (Tidy.copied copyEnd) []

namespace Runs

variable {lower : Lowering} {Call : MethodContext → Stmt → Prop}
variable {start : MethodContext} {before between after : Emission} {parts : List Stmt}

/-- A transition that lowers no statement comes first. -/
theorem step
    (first : Runs lower Call before between [])
    (second : Runs lower Call between after parts) :
    Runs lower Call before after parts :=
  .trans first second

/-- No statement is lowered that has to be. -/
theorem none (run : Runs lower Call before after []) : Runs lower Call before after parts :=
  .less run (List.nil_sublist _)

/-- Code is emitted in which only labels of its own are bound. -/
theorem code
    {step : Emit α} {value : α}
    (stepPlain : ∀ {writable}, Plain writable .any (fun _ => True) [] step)
    (success : step before = .ok value after) :
    Runs lower Call before after [] :=
  .plain stepPlain success

/-! ## Copies and exits -/

/-- A copy of a finally body is a run of its own. -/
theorem inlineFinalizer
    (calls : CallsTidily lower Call)
    {finalizer : Stmt}
    (allowed : Call (start.finalizing start.frames) finalizer)
    (ready : before.Ready start ids labels regions)
    (success : inlineFinalizer lower finalizer before = .ok () after) :
    Runs lower Call before after [] := by
  obtain ⟨copyEnd, lowered, rfl⟩ := Tidy.inlineFinalizer_ok success
  have readyCopy := Tidy.ready_copying (calls allowed).1 ready
  rw [← readyCopy.setting] at allowed readyCopy
  exact .copy allowed readyCopy lowered

/-- The cleanup of a frame, among the frames around it. -/
theorem cleanup
    (calls : CallsTidily lower Call)
    {outer : List Frame} {frame : Frame}
    (allowed : ∀ finalizer region, frame.kind = .finalized finalizer region →
      Call (start.finalizing outer) finalizer)
    (ready : before.Ready { start with frames := outer } ids labels regions)
    (success : cleanup lower frame before = .ok () after) :
    Runs lower Call before after [] := by
  obtain ⟨id, kind⟩ := frame
  cases kind with
  | finalized finalizer region =>
    exact inlineFinalizer calls (allowed finalizer region rfl) ready success
  | monitor slot region => exact code (.exitMonitor slot) success
  | resource slot dispose region => exact code (.disposeResource slot trivial) success
  | iterator slot dispose region => exact code (.disposeIterator slot trivial) success
  | loop => exact code (.pure ()) success
  | switch => exact code (.pure ()) success
  | labeled => exact code (.pure ()) success

/-- Leaving constructs runs their finally bodies. -/
theorem cleanupFrames
    (calls : CallsTidily lower Call)
    (allowed : start.AllowsCleanup Call)
    {stays : Frame → Bool} {frames inner : List Frame}
    (split : start.frames = inner ++ frames)
    {cut : List RegionId}
    (settled : Settled start frames before)
    (success : cleanupFrames lower stays frames before = .ok cut after) :
    Runs lower Call before after [] := by
  induction frames generalizing inner before cut with
  | nil =>
    obtain ⟨-, rfl⟩ := pure_ok.mp success
    exact .refl before
  | cons frame outer ih =>
    have deeper : start.frames = (inner ++ [frame]) ++ outer := by simp [split]
    unfold Emit.cleanupFrames at success
    split_ifs at success with stay
    · obtain ⟨-, rfl⟩ := pure_ok.mp success
      exact .refl before
    · cases found : frame.region? with
      | none =>
        rw [found] at success
        exact ih deeper (settled.skip found) success
      | some region =>
        rw [found] at success
        obtain ⟨between, suspended, rest⟩ := seq_ok.mp success
        obtain ⟨_, cleaned, rest⟩ := seq_ok.mp rest
        obtain ⟨_, _, walked, rest⟩ := bind_ok.mp rest
        obtain ⟨-, rfl⟩ := pure_ok.mp rest
        obtain ⟨-, settledOutside⟩ :=
          settled.cleaned (calls.copies allowed) split found suspended cleaned
        have cuts : Cuts (· ≠ region) before between := .suspendRegion suspended
        have betweenFrames : between.method.frames = (inner ++ [frame]) ++ outer := by
          have kept := congrArg MethodContext.frames (cuts.setting.trans settled.setting)
          exact kept.trans deeper
        obtain ⟨inside, stepped, rfl⟩ := withOuterFrames_ok betweenFrames cleaned
        refine .step (.elementary (.suspendRegion region) suspended) ?_
        refine .step (.elementary (.frames fun _ => outer) rfl) ?_
        refine .step (cleanup calls (fun finalizer region => allowed inner frame outer finalizer
          region split) (settled.outer found cuts) stepped) ?_
        refine .step (.elementary (.frames fun frames => inner ++ [frame] ++ frames) rfl) ?_
        exact ih deeper settledOutside walked

theorem resumeRegions
    {cut : List RegionId}
    (success : resumeRegions cut before = .ok () after) :
    Runs lower Call before after [] := by
  unfold Emit.resumeRegions at success
  induction cut generalizing before with
  | nil =>
    obtain ⟨-, rfl⟩ := pure_ok.mp success
    exact .refl before
  | cons region cut ih =>
    obtain ⟨_, resumed, rest⟩ := seq_ok.mp success
    exact .step (.elementary (.resumeRegion region) resumed) (ih rest)

end Runs

/-! ## Woven steps -/

/-- A step that is put together from elementary ones runs through elementary transitions. -/
theorem Woven.runs
    {lower : Lowering} {Call : MethodContext → Stmt → Prop} {start stop : MethodContext}
    {parts : List Stmt}
    (calls : CallsTidily lower Call)
    {step : Emit α}
    (woven : Woven True lower Call start stop ids labels regions parts step)
    {before after : Emission} {value : α}
    (ready : before.Ready start (ids ++ Stmt.listIds parts) labels regions)
    (success : step before = .ok value after) :
    Runs lower Call before after parts := by
  induction woven generalizing before after with
  | plain stepPlain => exact .none (.plain stepPlain success)
  | throw _ => exact (throw_ok.mp success).elim
  | weaken _ idsWithin labelsWithin regionsWithin partsWithin ih =>
    refine .less (ih (ready.mono ?_ labelsWithin regionsWithin) success) partsWithin
    exact idsWithin.append (partsWithin.flatMap _).subperm
  | @bind _ _ _ _ _ ids _ _ parts ids' _ _ parts' _ _ firstWoven _ firstHypothesis nextHypothesis =>
    obtain ⟨result, between, firstSuccess, nextSuccess⟩ := bind_ok.mp success
    have order : ((ids ++ Stmt.listIds parts) ++ (ids' ++ Stmt.listIds parts')).Subperm
        ((ids ++ ids') ++ Stmt.listIds (parts ++ parts')) := by
      refine List.Perm.subperm ?_
      simp only [Stmt.listIds_append, List.append_assoc]
      refine List.Perm.append_left _ ?_
      simp only [← List.append_assoc]
      exact List.perm_append_comm.append_right _
    have readyBoth := ready.mono order (List.Subperm.refl _) (List.Subperm.refl _)
    have firstReady := readyBoth.mono (List.sublist_append_left _ _).subperm
      (List.sublist_append_left _ _).subperm (List.sublist_append_left _ _).subperm
    have kept := (firstWoven.tidy calls).kept firstReady firstSuccess
    exact .trans (firstHypothesis firstReady firstSuccess)
      (nextHypothesis result (Emission.Kept.ready readyBoth kept) nextSuccess)
  | reading _ ih =>
    have rest := method_bind_eq.mp success
    exact ih _ ready.setting ready rest
  | fresh _ ih =>
    obtain ⟨label, between, handedOut, rest⟩ := bind_ok.mp success
    have first : Runs lower Call before between [] := .code .newLabel handedOut
    obtain ⟨rfl, rfl⟩ := newLabel_ok.mp handedOut
    exact .step first (ih _ (Tidy.ready_newLabel ready) rest)
  | ownLabels _ ih =>
    obtain ⟨found, between, looking, rest⟩ := bind_ok.mp success
    have readyAfter := (Tidy.looksUp ready.orderly looking).ready ready
    exact .step (.elementary (.labelsOf _) looking) (ih found readyAfter rest)
  | otherLabels id => exact .none (.elementary (.labelsOf id) success)
  | here => exact .none (.elementary .here success)
  | protect segments handler catchType =>
    exact .none (.elementary (.protect segments handler catchType) success)
  | declareLocal decl => exact .none (.elementary (.declareLocal decl) success)
  | newSpillTemp type spans => exact .none (.elementary (.newSpillTemp type spans) success)
  | inScope _ ih =>
    obtain ⟨_, entered, rest⟩ := seq_ok.mp success
    obtain ⟨between, stepped, exited⟩ := seq_ok.mp rest
    have first : Runs lower Call before _ [] := .elementary .enterScope entered
    obtain rfl := enterScope_ok.mp entered
    have inside := ih (Tidy.ready_enterScope ready) stepped
    have whole := first.step (inside.trans (.elementary .exitScope exited))
    rwa [List.append_nil] at whole
  | pushFrame opened _ ih =>
    obtain ⟨between, pushed, rest⟩ := seq_ok.mp success
    have first : Runs lower Call before between [] := .elementary (.frames (_ :: ·)) pushed
    obtain rfl := modifyMethod_ok.mp pushed
    exact first.step (ih (Tidy.ready_pushFrame ready (opened trivial)) rest)
  | popFrame => exact .none (.elementary (.frames List.tail) success)
  | pushCatch slot => exact .none (.elementary (.catchSlots (slot :: ·)) success)
  | popCatch => exact .none (.elementary (.catchSlots List.tail) success)
  | pushSwitch id cases => exact .none (.elementary (.switches ((id, cases) :: ·)) success)
  | popSwitch => exact .none (.elementary (.switches List.tail) success)
  | openRegion _ ih =>
    obtain ⟨region, between, opened, rest⟩ := bind_ok.mp success
    obtain ⟨readyBetween, absent⟩ := Tidy.ready_openRegion ready opened
    exact .step (.elementary .openRegion opened)
      (ih region (fun _ => absent) readyBetween rest)
  | closeRegion _ _ => exact .none (.elementary (.closeRegion _) success)
  | @call _ ids _ _ parts stmt allowed member =>
    have within : stmt.ids.Subperm (ids ++ Stmt.listIds parts) := by
      obtain ⟨first, second, rfl⟩ := List.append_of_mem member
      refine List.Sublist.subperm ?_
      simp only [Stmt.listIds_append, Stmt.listIds_cons, ← List.append_assoc]
      exact (List.sublist_append_right _ _).trans (List.sublist_append_left _ _)
    have readyInside := ready.mono within List.nil_subperm List.nil_subperm
    rw [← ready.setting] at allowed readyInside
    exact .less (.call allowed readyInside success) (List.singleton_sublist.mpr member)
  | copy allowed => exact .none (.inlineFinalizer calls allowed ready success)
  | exit allowed leavePlain =>
    obtain ⟨cut, cleaned, walked, rest⟩ := bind_ok.mp success
    obtain ⟨_, left, resumed⟩ := seq_ok.mp rest
    refine .none (.step ?_ (.step (.code leavePlain left) (.resumeRegions resumed)))
    exact .cleanupFrames calls allowed (List.nil_append _).symm (.ofReady ready) walked

/-- Lowering a statement, if it is no suspension, lowers the statements directly inside it. -/
theorem runs_lowerReachable
    {depth : Nat} {stmt : Stmt} {before after : Emission}
    (continues : ∀ tag value, stmt ≠ .yield tag value)
    (distinguished : Distinguished before.method.setting stmt)
    (ready : before.Ready before.method.setting stmt.ids [] [])
    (success : lowerReachable (lowerWithin depth) stmt before = .ok () after) :
    Runs (lowerWithin depth) (Calls stmt before.method.setting) before after stmt.children := by
  have calls : CallsTidily (lowerWithin depth) (Calls stmt before.method.setting) := by
    intro method inner called
    have distinguished := distinguished.calls called
    exact ⟨distinguished.distinct, .lowerWithin depth distinguished⟩
  rw [stmt.ids_eq] at ready
  exact (woven_lowerReachable continues id).runs calls ready success

end Emit
end StackCode
