import StackCode.Proofs.Identifiers
import StackCode.Proofs.Regions

/-!
# Lowering keeps the books

Every statement leaves the constructs around it as it found them and binds only
its own labels, those of the statements inside it, and the points of resumption
that it claims.  So no label is ever bound twice and no scope is closed that is
not open.
-/

namespace StackCode
namespace Emit

variable {start stop : MethodContext} {lower : Lowering}
variable {ids : List StmtId} {labels : List Label} {regions : List RegionId}
variable {stmt : Stmt}

/-! ## Suspensions -/

/-- What claiming the next point of resumption leads to. -/
theorem nextYield?_ok
    {before after : Emission} {claimed : Option (Nat × Label)}
    (success : nextYield? before = .ok claimed after) :
    (∃ count, after = before.mapMethod fun method => { method with yieldCount := count }) ∧
      before.method.yieldCount ≤ after.method.yieldCount ∧
      before.unclaimed = (claimed.map Prod.snd).toList ++ after.unclaimed := by
  have rest := method_bind_eq.mp success
  cases suspended : before.method.suspension with
  | none =>
    simp only [suspended] at rest
    obtain ⟨rfl, rfl⟩ := pure_ok.mp rest
    exact ⟨⟨before.method.yieldCount, rfl⟩, Nat.le_refl _, rfl⟩
  | some suspension =>
    simp only [suspended] at rest
    replace rest := method_bind_eq.mp rest
    obtain ⟨_, counted, rest⟩ := seq_ok.mp rest
    obtain rfl := modifyMethod_ok.mp counted
    obtain ⟨rfl, rfl⟩ := pure_ok.mp rest
    refine ⟨⟨_, rfl⟩, Nat.le_succ _, ?_⟩
    simp only [Emission.unclaimed, Emission.method_mapMethod, suspended, Option.map_some,
      Option.getD_some, Option.map_map]
    cases found : suspension.resume[before.method.yieldCount + 1]? with
    | none =>
      have short := List.getElem?_eq_none_iff.mp found
      simp [List.drop_eq_nil_of_le short,
        List.drop_eq_nil_of_le (Nat.le_succ_of_le short)]
    | some label =>
      obtain ⟨inBounds, rfl⟩ := List.getElem?_eq_some_iff.mp found
      simp

/-- Handing out an element claims a point of resumption, and goes on with plain steps. -/
theorem lowerElement_eq (suspension : Suspension) (span : Span) (value : Expr) :
    ∃ rest : Option (Nat × Label) → Emit Unit,
      lowerElement suspension span value = (do checkSuspendable span; nextYield? >>= rest) ∧
        ∀ claimed, Plainly (claimed.map Prod.snd).toList (rest claimed) := by
  refine ⟨_, rfl, fun claimed => ?_⟩
  cases claimed with
  | none => exact .fail rfl
  | some claimed =>
    refine .seq (.log _ _) (.seq (.load _ 0) (.seq (.pushValue .all) ?_))
    refine .seq (.putField trivial fun _ => trivial) (.seq (.load _ 0) (.seq (.push _) ?_))
    refine .seq (.putField trivial fun _ => trivial) (.seq (.saveLive fun _ => trivial) ?_)
    exact .seq (.op _) (.seq (.op _) (.marked trivial .reloadLive))

namespace Tidy

/-- The point of resumption that is claimed is left to the steps that follow. -/
theorem ready_nextYield?
    {before after : Emission} {claimed : Option (Nat × Label)}
    (ready : before.Ready start ids labels regions)
    (success : nextYield? before = .ok claimed after) :
    after.Ready start ids (labels ++ (claimed.map Prod.snd).toList) regions := by
  obtain ⟨⟨count, rfl⟩, -, unclaimed⟩ := nextYield?_ok success
  have distinct := ready.orderly.distinct
  rw [unclaimed] at distinct
  have apart := List.nodup_append.mp distinct
  have inside : ∀ label ∈ (claimed.map Prod.snd).toList, label ∈ before.unclaimed := by
    intro label member
    rw [unclaimed]
    exact List.mem_append_left _ member
  refine
    { setting := ready.setting
      orderly := ⟨?_, ready.orderly.handedOut, ?_⟩
      framed := ⟨ready.framed.distinct, ready.framed.isOpen⟩
      labelsNodup := ?_
      labelsUnbound := ?_
      labelsApart := ?_
      idsNodup := ready.idsNodup
      pending := ?_
      regionsNodup := ready.regionsNodup
      regionsOpen := ready.regionsOpen }
  · exact distinct.sublist ((List.sublist_append_right _ _).append_left _)
  · intro label member
    refine ready.orderly.waiting label ?_
    rw [unclaimed]
    exact List.mem_append_right _ member
  · refine List.nodup_append.mpr ⟨ready.labelsNodup, by cases claimed <;> simp, ?_⟩
    rintro label member other found rfl
    exact ready.labelsApart label member (inside label found)
  · intro label member
    obtain member | member := List.mem_append.mp member
    · exact ready.labelsUnbound label member
    · exact ready.orderly.waiting label (inside label member)
  · intro label member later
    obtain member | member := List.mem_append.mp member
    · refine ready.labelsApart label member ?_
      rw [unclaimed]
      exact List.mem_append_right _ later
    · exact (List.nodup_append.mp apart.2.1).2.2 label member label later rfl
  · intro id member found known label inFound
    obtain ⟨waiting, absent⟩ := ready.pending id member found known label inFound
    refine ⟨waiting, fun inLabels => ?_⟩
    obtain inLabels | inClaimed := List.mem_append.mp inLabels
    · exact absent inLabels
    · have given := LabelTable.mem_given_of_get?_eq_some known inFound
      exact apart.2.2 label given label (List.mem_append_left _ inClaimed) rfl

/-- A point of resumption is claimed once. -/
theorem nextYield?
    {next : Option (Nat × Label) → Emit β}
    (nextTidy : ∀ claimed,
      Tidy start stop ids (labels ++ (claimed.map Prod.snd).toList) regions (next claimed)) :
    Tidy start stop ids labels regions (nextYield? >>= next) where
  kept := by
    intro before _ after ready success
    obtain ⟨claimed, between, counted, rest⟩ := bind_ok.mp success
    have readyBetween := ready_nextYield? ready counted
    have kept := (nextTidy claimed).kept readyBetween rest
    obtain ⟨⟨count, rfl⟩, more, unclaimed⟩ := nextYield?_ok counted
    have evolves : before.Evolves
        (before.mapMethod fun method => { method with yieldCount := count }) :=
      { Emission.Evolves.refl before with yieldCount := more }
    refine .prepared evolves readyBetween.orderly (fun _ waiting => waiting)
      (fun _ _ known => .inl known) (List.Subset.refl _) ?_ (fun _ isOpen => isOpen)
      (fun _ member _ => member) kept
    intro label member _
    obtain member | member := List.mem_append.mp member
    · exact .inl member
    · refine .inr (.inr ?_)
      rw [unclaimed]
      exact List.mem_append_left _ member
  proper := by
    intro before error after ready failure
    obtain failure | ⟨claimed, between, counted, failure⟩ := bind_error.mp failure
    · replace failure := method_bind_eq.mp failure
      cases suspended : before.method.suspension with
      | none =>
        simp only [suspended] at failure
        cases failure
      | some suspension =>
        simp only [suspended] at failure
        cases failure
    · exact (nextTidy claimed).proper (ready_nextYield? ready counted) failure

/-- Handing out an element claims a point of resumption and binds it. -/
theorem lowerElement (suspension : Suspension) (span : Span) (value : Expr) :
    Tidy start start ids labels regions (lowerElement suspension span value) := by
  obtain ⟨rest, same, restPlain⟩ := lowerElement_eq suspension span value
  have element : Tidy start start ([] ++ []) ([] ++ []) ([] ++ [])
      (Emit.lowerElement suspension span value) := by
    rw [same]
    exact bind (plain (.checkSuspendable span)) fun _ => nextYield? fun claimed =>
      plain (restPlain claimed)
  exact element.mono List.nil_subperm List.nil_subperm List.nil_subperm

end Tidy

/-! ## Statements -/

section Statements

variable {Call : MethodContext → Stmt → Prop}

/-- How the statements inside have to be lowered. -/
def CallsTidily (lower : Lowering) (Call : MethodContext → Stmt → Prop) : Prop :=
  ∀ {method stmt}, Call method stmt →
    stmt.ids.Nodup ∧ Tidy method method stmt.ids [] [] (lower stmt)

theorem CallsTidily.copies
    (calls : CallsTidily lower Call)
    (allowed : start.AllowsCleanup Call) :
    CopiesTidily lower start :=
  fun inner frame outer finalizer region frames kind =>
    calls (allowed inner frame outer finalizer region frames kind)

/-- What is put together from elementary steps keeps the books if the statements inside do. -/
theorem Woven.tidy
    (calls : CallsTidily lower Call)
    {parts : List Stmt} {step : Emit α}
    (woven : Woven True lower Call start stop ids labels regions parts step) :
    Tidy start stop (ids ++ Stmt.listIds parts) labels regions step := by
  induction woven with
  | plain stepPlain => exact .plain stepPlain
  | throw proper => exact .fails (Bool.or_eq_false_iff.mp proper).1
  | weaken _ idsWithin labelsWithin regionsWithin partsWithin ih =>
    exact ih.mono (idsWithin.append (partsWithin.flatMap _).subperm) labelsWithin
      regionsWithin
  | bind _ _ firstHypothesis nextHypothesis =>
    refine (firstHypothesis.bind nextHypothesis).mono ?_ (List.Subperm.refl _) (List.Subperm.refl _)
    refine List.Perm.subperm ?_
    simp only [Stmt.listIds_append, List.append_assoc]
    refine List.Perm.append_left _ ?_
    simp only [← List.append_assoc]
    exact List.perm_append_comm.append_right _
  | reading _ ih => exact .reading ih
  | fresh _ ih => exact .fresh ih
  | ownLabels _ ih => exact .ownLabels ih
  | otherLabels id => exact .otherLabels id
  | here => exact .here
  | protect segments handler catchType =>
    exact (Tidy.Unseen.protect segments handler catchType).tidy
  | declareLocal decl => exact (Tidy.Unseen.declareLocal decl).tidy
  | newSpillTemp type spans => exact (Tidy.Unseen.newSpillTemp type spans).tidy
  | inScope _ ih => exact .inScope ih
  | pushFrame opened _ ih => exact .pushFrame (opened trivial) ih
  | popFrame => exact .popFrame
  | pushCatch slot => exact .catchSlots (slot :: ·)
  | popCatch => exact .catchSlots List.tail
  | pushSwitch id cases => exact .switches ((id, cases) :: ·)
  | popSwitch => exact .switches List.tail
  | openRegion _ ih =>
    exact .openRegion fun region absent => ih region fun _ => absent
  | closeRegion absent member => exact .closeRegion (absent trivial) member
  | call allowed member =>
    refine (calls allowed).2.mono ?_ List.nil_subperm List.nil_subperm
    obtain ⟨first, second, rfl⟩ := List.append_of_mem member
    refine List.Sublist.subperm ?_
    simp only [Stmt.listIds_append, Stmt.listIds_cons, ← List.append_assoc]
    exact (List.sublist_append_right _ _).trans (List.sublist_append_left _ _)
  | copy allowed =>
    obtain ⟨distinct, inner⟩ := calls allowed
    exact .copy distinct inner
  | exit allowed leavePlain => exact .exit (calls.copies allowed) leavePlain

/-- Ending an iteration leaves everything. -/
theorem Tidy.lowerYield
    (calls : CallsTidily lower Call)
    (allowed : start.AllowsCleanup Call)
    (span : Span) (value : Option Expr) :
    Tidy start start ids labels regions (lowerYield lower span value) := by
  refine .reading fun method _ => ?_
  split
  · exact .plain (.fail rfl)
  · next suspension _ =>
    cases value with
    | some value => exact .lowerElement suspension span value
    | none =>
      have leaving : Tidy start start [] [] [] (do
          let cut ← leaveMethod lower
          finishIteration suspension.state
          resumeRegions cut) := by
        simp only [leaveMethod, bind_assoc]
        refine .reading fun method current => ?_
        have frames : method.frames = start.frames := by rw [← current]; rfl
        rw [frames]
        exact .exit (calls.copies allowed) (.finishIteration trivial trivial)
      have ending : Tidy start start ([] ++ []) ([] ++ []) ([] ++ [])
          (Emit.lowerEnd lower suspension span) := by
        refine .bind (.plain (.looking (fun _ _ => rfl) fun _ => .pure _)) fun _ => ?_
        have refusing : Tidy start start [] [] []
            (throw (.yieldInsideRegion .finallyBody span) : Emit PUnit) := .plain (.fail rfl)
        split
        · exact .bind refusing fun _ => leaving
        · exact leaving
      exact ending.mono List.nil_subperm List.nil_subperm List.nil_subperm

end Statements

/-- No two statements share an identifier, in the statement or in a finally body around it. -/
structure Distinguished (method : MethodContext) (stmt : Stmt) : Prop where
  distinct : stmt.ids.Nodup
  around : ∀ construct ∈ method.constructs, ∀ finalizer, construct.cleanup = .finalizer finalizer →
    finalizer.ids.Nodup

/-- The identifiers inside a statement are among its own. -/
theorem Stmt.sublist_ids_of_mem_children {child : Stmt} (member : child ∈ stmt.children) :
    child.ids.Sublist stmt.ids := by
  obtain ⟨first, second, split⟩ := List.append_of_mem member
  rw [stmt.ids_eq, split, Stmt.listIds_append, Stmt.listIds_cons]
  exact ((List.sublist_append_left _ _).trans (List.sublist_append_right _ _)).cons _

/-- The finally body of a frame is that of a construct around the current point. -/
theorem mem_constructs_of_finalized
    {method : MethodContext} {frame : Frame}
    (member : frame ∈ method.frames)
    {finalizer : Stmt} {region : RegionId}
    (kind : frame.kind = .finalized finalizer region) :
    { stmt := frame.stmt, cleanup := .finalizer finalizer } ∈ method.constructs :=
  List.mem_filterMap.mpr ⟨frame, member, by simp [Frame.construct?, kind]⟩

/-- Something holds of a statement and of the finally bodies around it. -/
structure HoldsAround (holds : Stmt → Prop) (method : MethodContext) (stmt : Stmt) : Prop where
  own : holds stmt
  around : ∀ construct ∈ method.constructs, ∀ finalizer, construct.cleanup = .finalizer finalizer →
    holds finalizer

/-- What passes on to the statements directly inside a statement holds where these are lowered. -/
theorem HoldsAround.calls
    {holds : Stmt → Prop}
    (inherited : ∀ {stmt child}, child ∈ Stmt.children stmt → holds stmt → holds child)
    {part : Stmt} {inner : MethodContext}
    (given : HoldsAround holds start stmt)
    (calls : Calls stmt start inner part) :
    HoldsAround holds inner part := by
  cases calls with
  | part member inside =>
    refine ⟨inherited (Stmt.mem_children_of_mem_parts member) given.own, ?_⟩
    intro construct found finalizer cleanup
    rw [inside.constructs] at found
    obtain found | found := List.mem_append.mp found
    · have own : construct ∈ stmt.constructs := by
        obtain same | same := Stmt.protects_of_mem_parts member <;> simp_all
      exact inherited ((Stmt.of_mem_constructs own).2 finalizer cleanup) given.own
    · exact given.around construct found finalizer cleanup
  | finalizer member =>
    exact ⟨inherited (Stmt.mem_children_of_mem_parts member) given.own, given.around⟩
  | cleanup frames kind =>
    refine ⟨?_, ?_⟩
    · refine given.around _ (mem_constructs_of_finalized ?_ kind) _ rfl
      simp [frames]
    · intro construct found
      refine given.around construct ?_
      rw [MethodContext.constructs, frames, List.filterMap_append]
      exact List.mem_append_right _ ((List.sublist_cons_self _ _).filterMap _ |>.subset found)

theorem Distinguished.calls
    {part : Stmt} {inner : MethodContext}
    (distinguished : Distinguished start stmt)
    (calls : Calls stmt start inner part) :
    Distinguished inner part := by
  have given : HoldsAround (fun stmt => stmt.ids.Nodup) start stmt :=
    ⟨distinguished.distinct, distinguished.around⟩
  have inside := given.calls (fun member distinct =>
    distinct.sublist (Stmt.sublist_ids_of_mem_children member)) calls
  exact ⟨inside.own, inside.around⟩

/-- A statement keeps the books if the statements that it lowers do. -/
theorem Tidy.lowerReachable (calls : CallsTidily lower (Calls stmt start)) :
    Tidy start start stmt.ids [] [] (lowerReachable lower stmt) := by
  by_cases yields : ∃ tag value, stmt = .yield tag value
  · obtain ⟨tag, value, rfl⟩ := yields
    exact .lowerYield calls (fun _ _ _ _ _ frames kind => .cleanup frames kind) tag.span value
  · rw [stmt.ids_eq]
    refine (woven_lowerReachable ?_ id).tidy calls
    rintro tag value rfl
    exact yields ⟨tag, value, rfl⟩

theorem Tidy.lowerWithin (depth : Nat) (distinguished : Distinguished start stmt) :
    Tidy start start stmt.ids [] [] (lowerWithin depth stmt) := by
  induction depth generalizing start stmt with
  | zero => exact .fails rfl
  | succ depth ih =>
    unfold Emit.lowerWithin
    split
    · refine .lowerReachable fun called => ?_
      have inner := distinguished.calls called
      exact ⟨inner.distinct, ih inner⟩
    · exact .plain (.pure ())

end Emit
end StackCode
