import StackCode.Proofs.Balance

/-!
# Regions, copies and exits

An exit cuts the regions of the constructs that it leaves and goes on with them
after its jump.  In between, every finally body is copied with the constructs
from its own one inwards detached.
-/

namespace StackCode
namespace Emit

variable {start stop : MethodContext}
variable {ids : List StmtId} {labels : List Label} {regions : List RegionId}
variable {region : RegionId} {error : Error}

/-- A step that binds nothing and keeps the given regions open. -/
structure Cuts (keeps : RegionId → Prop) (before after : Emission) : Prop where
  evolves : before.Evolves after
  setting : after.method.setting = before.method.setting
  labels : after.method.labels = before.method.labels
  unclaimed : after.unclaimed = before.unclaimed
  unbound : ∀ label, before.Unbound label → after.Unbound label
  keepsOpen : ∀ region, keeps region → before.IsOpen region → after.IsOpen region

namespace Cuts

variable {keeps : RegionId → Prop} {before between after : Emission}
variable {region : RegionId}

theorem trans (first : Cuts keeps before between) (second : Cuts keeps between after) :
    Cuts keeps before after where
  evolves := first.evolves.trans second.evolves
  setting := second.setting.trans first.setting
  labels := second.labels.trans first.labels
  unclaimed := second.unclaimed.trans first.unclaimed
  unbound := fun label waiting => second.unbound label (first.unbound label waiting)
  keepsOpen := fun region kept isOpen =>
    second.keepsOpen region kept (first.keepsOpen region kept isOpen)

theorem frames (cuts : Cuts keeps before after) :
    after.method.frames = before.method.frames := by
  have kept := congrArg MethodContext.frames cuts.setting
  exact kept

theorem orderly (cuts : Cuts keeps before after) (orderly : before.Orderly) : after.Orderly where
  distinct := by
    rw [cuts.labels, cuts.unclaimed]
    exact orderly.distinct
  handedOut := by
    intro label member
    rw [cuts.labels] at member
    exact Nat.lt_of_lt_of_le (orderly.handedOut label member) cuts.evolves.marks_size
  waiting := by
    intro label member
    rw [cuts.unclaimed] at member
    exact cuts.unbound label (orderly.waiting label member)

theorem binds (cuts : Cuts keeps before after) : before.Binds ids labels after where
  unbound := fun label waiting => .inl (cuts.unbound label waiting)
  entered := by
    intro id found missing known
    rw [cuts.labels, missing] at known
    contradiction

/-- What is ready stays so if its regions are kept open. -/
theorem ready
    (cuts : Cuts keeps before after)
    (ready : before.Ready start ids labels regions)
    (ofFrames : ∀ frame ∈ start.frames, ∀ region ∈ frame.region?, keeps region)
    (ofRegions : ∀ region ∈ regions, keeps region) :
    after.Ready start ids labels regions := by
  have startFrames : before.method.frames = start.frames := by
    have kept := congrArg MethodContext.frames ready.setting
    exact kept
  exact
    { setting := cuts.setting.trans ready.setting
      orderly := cuts.orderly ready.orderly
      framed := by
        refine ⟨by rw [cuts.frames]; exact ready.framed.distinct, ?_⟩
        rw [cuts.frames]
        intro frame member region found
        have kept := ofFrames frame (startFrames ▸ member) region found
        exact cuts.keepsOpen region kept (ready.framed.isOpen frame member region found)
      labelsNodup := ready.labelsNodup
      labelsUnbound := fun label member => cuts.unbound label (ready.labelsUnbound label member)
      labelsApart := by
        rw [cuts.unclaimed]
        exact ready.labelsApart
      idsNodup := ready.idsNodup
      pending := by
        intro id member found known label inFound
        rw [cuts.labels] at known
        obtain ⟨waiting, apart⟩ := ready.pending id member found known label inFound
        exact ⟨cuts.unbound label waiting, apart⟩
      regionsNodup := ready.regionsNodup
      regionsOpen := fun region member =>
        cuts.keepsOpen region (ofRegions region member) (ready.regionsOpen region member) }

/-- What a step leaves that comes after the cut. -/
theorem prepare
    (cuts : Cuts (fun _ => True) before between)
    (orderly : before.Orderly)
    {more : List RegionId}
    (within : ∀ region ∈ more, before.IsOpen region → region ∈ regions)
    (kept : between.Kept stop ids labels more after) :
    before.Kept stop ids labels regions after := by
  refine .prepared cuts.evolves (cuts.orderly orderly) cuts.unbound ?_ (List.Subset.refl _)
    (fun _ member _ => .inl member) (fun region => cuts.keepsOpen region trivial) within kept
  intro id found known
  rw [cuts.labels] at known
  exact .inl known

/-- A change of the regions alone. -/
theorem ofRegions
    (state : Emission) {changed : Array OpenRegion}
    (keepsOpen : ∀ region, keeps region → state.IsOpen region →
      (state.mapMethod fun method => { method with regions := changed }).IsOpen region) :
    Cuts keeps state (state.mapMethod fun method => { method with regions := changed }) where
  evolves := { Emission.Evolves.refl state with }
  setting := rfl
  labels := rfl
  unclaimed := rfl
  unbound := fun _ waiting => waiting
  keepsOpen := keepsOpen

/-- A label for the current position is bound at once. -/
theorem here {label : Label} (success : here before = .ok label after) :
    Cuts keeps before after := by
  obtain ⟨-, rfl⟩ := here_ok.mp success
  refine
    { evolves := { Emission.Evolves.refl before with code := .here _ }
      setting := rfl
      labels := rfl
      unclaimed := rfl
      unbound := fun label waiting => ?_
      keepsOpen := fun _ _ isOpen => isOpen }
  have inBounds := waiting.lt_size
  simp only [Emission.Unbound, Emission.code_mapCode, Code.here, Array.getElem?_push]
  rw [if_neg (by omega)]
  exact waiting

/-- Changing a region leaves the others alone. -/
theorem modifyRegion
    {change : OpenRegion → OpenRegion}
    (success : modifyRegion region change before = .ok () after) :
    Cuts (· ≠ region) before after ∧ ∃ found, before.method.regions[region]? = some found ∧
      after.method.regions[region]? = some (change found) := by
  have rest := method_bind_eq.mp success
  cases known : before.method.regions[region]? with
  | none =>
    rw [known] at rest
    exact (throw_ok.mp rest).elim
  | some found =>
    rw [known] at rest
    obtain rfl := modifyMethod_ok.mp rest
    have inBounds := (Array.getElem?_eq_some_iff.mp known).1
    refine ⟨?_, found, rfl, by simp [inBounds]⟩
    refine
      { evolves := { Emission.Evolves.refl before with }
        setting := rfl
        labels := rfl
        unclaimed := rfl
        unbound := fun _ waiting => waiting
        keepsOpen := ?_ }
    rintro other apart ⟨otherFound, otherKnown, isOpen⟩
    refine ⟨otherFound, ?_, isOpen⟩
    simp only [Emission.method_mapMethod]
    rwa [Array.getElem?_setIfInBounds_ne (Ne.symm apart)]

theorem suspendRegion (success : suspendRegion region before = .ok () after) :
    Cuts (· ≠ region) before after := by
  obtain ⟨_, between, labeled, rest⟩ := bind_ok.mp success
  exact (here labeled).trans (modifyRegion rest).1

/-- A region that is resumed is open. -/
theorem resumeRegion (success : resumeRegion region before = .ok () after) :
    Cuts (fun _ => True) before after ∧ after.IsOpen region := by
  obtain ⟨label, between, labeled, rest⟩ := bind_ok.mp success
  obtain ⟨cuts, found, known, changed⟩ := modifyRegion rest
  have isOpen : after.IsOpen region := by
    refine ⟨_, changed, ?_⟩
    unfold OpenRegion.resume
    split
    · next current => simp [current]
    · rfl
  refine ⟨?_, isOpen⟩
  have first : Cuts (fun _ => True) before between := here labeled
  refine
    { evolves := first.evolves.trans cuts.evolves
      setting := cuts.setting.trans first.setting
      labels := cuts.labels.trans first.labels
      unclaimed := cuts.unclaimed.trans first.unclaimed
      unbound := fun label waiting => cuts.unbound label (first.unbound label waiting)
      keepsOpen := fun other _ otherOpen => ?_ }
  by_cases same : other = region
  · exact same ▸ isOpen
  · exact cuts.keepsOpen other same (first.keepsOpen other trivial otherOpen)

/-- Regions that are resumed are open. -/
theorem resumeRegions
    {cut : List RegionId}
    (success : resumeRegions cut before = .ok () after) :
    Cuts (fun _ => True) before after ∧ ∀ region ∈ cut, after.IsOpen region := by
  unfold Emit.resumeRegions at success
  induction cut generalizing before with
  | nil =>
    obtain ⟨-, rfl⟩ := pure_ok.mp success
    refine ⟨⟨.refl before, rfl, rfl, rfl, fun _ waiting => waiting, fun _ _ isOpen => isOpen⟩, ?_⟩
    simp
  | cons region cut ih =>
    obtain ⟨between, resumed, rest⟩ := seq_ok.mp success
    obtain ⟨first, isOpen⟩ := resumeRegion resumed
    obtain ⟨others, areOpen⟩ := ih rest
    refine ⟨first.trans others, ?_⟩
    intro other member
    obtain rfl | member := List.mem_cons.mp member
    · exact others.keepsOpen other trivial isOpen
    · exact areOpen other member

/-- A plain step that binds only labels of its own. -/
theorem plain
    {step : Emit α} (stepPlain : Plainly [] step) {value : α}
    (success : step before = .ok value after) :
    Cuts (fun _ => True) before after := by
  have stores := before.method.storesTo_all
  have method := stepPlain.method_eq stores success
  refine
    { evolves := stepPlain.evolves stores success
      setting := by rw [method]; rfl
      labels := by rw [method]
      unclaimed := by
        unfold Emission.unclaimed
        rw [method]
      unbound := fun label waiting => ?_
      keepsOpen := fun region _ isOpen => ?_ }
  · obtain still | bound := stepPlain.unbound rfl success waiting
    · exact still
    · contradiction
  · unfold Emission.IsOpen
    rw [method]
    exact isOpen

end Cuts

/-! ## Failures of regions -/

section Failures

variable {before after : Emission} {error : Error}

theorem modifyRegion_proper
    {change : OpenRegion → OpenRegion}
    (failure : modifyRegion region change before = .error error after) :
    error.breaksBookkeeping = false := by
  replace failure := method_bind_eq.mp failure
  cases known : before.method.regions[region]? with
  | none =>
    rw [known] at failure
    obtain ⟨rfl, -⟩ := throw_error.mp failure
    rfl
  | some found =>
    rw [known] at failure
    cases failure

theorem suspendRegion_proper
    (failure : suspendRegion region before = .error error after) :
    error.breaksBookkeeping = false := by
  obtain failure | ⟨_, _, -, failure⟩ := bind_error.mp failure
  · cases failure
  · exact modifyRegion_proper failure

/-- Resuming regions never breaks the books. -/
theorem resumeRegions_proper
    {cut : List RegionId}
    (failure : resumeRegions cut before = .error error after) :
    error.breaksBookkeeping = false := by
  unfold resumeRegions at failure
  induction cut generalizing before with
  | nil => cases failure
  | cons region cut ih =>
    obtain failure | ⟨_, _, -, failure⟩ := bind_error.mp failure
    · obtain failure | ⟨_, _, -, failure⟩ := bind_error.mp failure
      · cases failure
      · exact modifyRegion_proper failure
    · exact ih failure

end Failures

namespace Tidy

variable {before after : Emission} {finalizer : Stmt} {region : RegionId} {lower : Lowering}

theorem here : Tidy start start ids labels regions here where
  kept := by
    intro before label after ready success
    have cuts : Cuts (fun _ => True) before after := .here success
    have readyAfter := cuts.ready ready (fun _ _ _ _ => trivial) fun _ _ => trivial
    have unchanged : after.Kept after.method.setting ids labels regions after :=
      .refl readyAfter.orderly readyAfter.framed
    rw [readyAfter.setting] at unchanged
    exact cuts.prepare ready.orderly (fun _ member _ => member) unchanged
  proper := nofun

/-- A new region is open, and no region was open under its number before. -/
theorem openRegion_ok (success : openRegion before = .ok region after) :
    Cuts (fun _ => True) before after ∧ after.IsOpen region ∧ ¬before.IsOpen region := by
  obtain ⟨label, between, labeled, rest⟩ := bind_ok.mp success
  replace rest := method_bind_eq.mp rest
  obtain ⟨_, opened, rest⟩ := seq_ok.mp rest
  obtain rfl := modifyMethod_ok.mp opened
  obtain ⟨rfl, rfl⟩ := pure_ok.mp rest
  have first : Cuts (fun _ => True) before between := .here labeled
  obtain ⟨-, rfl⟩ := here_ok.mp labeled
  refine ⟨first.trans (.ofRegions _ ?_), ⟨{ current := some label }, by simp, rfl⟩, ?_⟩
  · rintro other - ⟨found, known, isOpen⟩
    have inBounds := (Array.getElem?_eq_some_iff.mp known).1
    refine ⟨found, ?_, isOpen⟩
    simp only [Emission.method_mapMethod, Array.getElem?_push]
    rw [if_neg (by omega)]
    exact known
  · rintro ⟨found, known, -⟩
    exact absurd (Array.getElem?_eq_some_iff.mp known).1 (Nat.lt_irrefl _)

/-- A new region can be left to the steps that follow. -/
theorem ready_openRegion
    (ready : before.Ready start ids labels regions)
    (opened : openRegion before = .ok region after) :
    after.Ready start ids labels (regions ++ [region]) ∧
      ∀ frame ∈ start.frames, frame.region? ≠ some region := by
  obtain ⟨cuts, isOpen, new⟩ := openRegion_ok opened
  have readyAfter := cuts.ready ready (fun _ _ _ _ => trivial) fun _ _ => trivial
  have frames : before.method.frames = start.frames := by
    have kept := congrArg MethodContext.frames ready.setting
    exact kept
  refine ⟨{ readyAfter with regionsNodup := ?_, regionsOpen := ?_ }, ?_⟩
  · refine List.nodup_append.mpr ⟨ready.regionsNodup, List.nodup_singleton _, ?_⟩
    rintro other member found same rfl
    obtain rfl := List.mem_singleton.mp same
    exact new (ready.regionsOpen other member)
  · intro other member
    obtain member | same := List.mem_append.mp member
    · exact readyAfter.regionsOpen other member
    · exact List.mem_singleton.mp same ▸ isOpen
  · intro frame member same
    exact new (ready.framed.isOpen frame (frames.symm ▸ member) region same)

/-- A new region is open for the steps that follow. -/
theorem openRegion
    {next : RegionId → Emit β}
    (nextTidy : ∀ region, (∀ frame ∈ start.frames, frame.region? ≠ some region) →
      Tidy start stop ids labels (regions ++ [region]) (next region)) :
    Tidy start stop ids labels regions (openRegion >>= next) where
  kept := by
    intro before _ after ready success
    obtain ⟨region, between, opened, rest⟩ := bind_ok.mp success
    obtain ⟨readyBetween, absent⟩ := ready_openRegion ready opened
    obtain ⟨cuts, -, new⟩ := openRegion_ok opened
    refine cuts.prepare ready.orderly ?_ ((nextTidy region absent).kept readyBetween rest)
    intro other member isOpen
    obtain member | same := List.mem_append.mp member
    · exact member
    · exact absurd (List.mem_singleton.mp same ▸ isOpen) new
  proper := by
    intro before error after ready failure
    obtain failure | ⟨region, between, opened, failure⟩ := bind_error.mp failure
    · cases failure
    · obtain ⟨readyBetween, absent⟩ := ready_openRegion ready opened
      exact (nextTidy region absent).proper readyBetween failure

/-- A region that no construct needs may be closed. -/
theorem closeRegion
    (absent : ∀ frame ∈ start.frames, frame.region? ≠ some region)
    (member : region ∈ regions) :
    Tidy start start ids labels regions (closeRegion region) where
  kept := by
    intro before segments after ready success
    obtain ⟨between, suspended, rest⟩ := seq_ok.mp success
    replace rest := method_bind_eq.mp rest
    obtain ⟨_, cleared, rest⟩ := seq_ok.mp rest
    obtain ⟨-, rfl⟩ := pure_ok.mp rest
    have cuts := (Cuts.suspendRegion suspended).trans (Cuts.modifyRegion cleared).1
    have frames : before.method.frames = start.frames := by
      have kept := congrArg MethodContext.frames ready.setting
      exact kept
    refine
      { setting := cuts.setting.trans ready.setting
        orderly := cuts.orderly ready.orderly
        framed := ⟨by rw [cuts.frames]; exact ready.framed.distinct, ?_⟩
        evolves := cuts.evolves
        binds := cuts.binds
        keepsOpen := fun other isOpen otherAbsent => cuts.keepsOpen other ?_ isOpen }
    · rw [cuts.frames]
      intro frame frameMember other found
      refine cuts.keepsOpen other ?_ (ready.framed.isOpen frame frameMember other found)
      rintro rfl
      exact absent frame (frames ▸ frameMember) found
    · rintro rfl
      exact otherAbsent member
  proper := by
    intro before error after _ failure
    obtain failure | ⟨_, _, -, failure⟩ := bind_error.mp failure
    · exact suspendRegion_proper failure
    · obtain failure | ⟨_, _, -, failure⟩ := bind_error.mp failure
      · cases failure
      · obtain failure | ⟨_, _, -, failure⟩ := bind_error.mp failure
        · exact modifyRegion_proper failure
        · cases failure

/-! ## Copies of finally bodies -/

/-- The state in which a copy of a finally body is lowered. -/
def copying (finalizer : Stmt) (state : Emission) : Emission :=
  state.mapMethod fun method =>
    { method with
      labels := method.labels.pushLayer finalizer.ids
      finallyDepth := method.finallyDepth + 1 }

/-- The state after a copy of a finally body. -/
def copied (state : Emission) : Emission :=
  state.mapMethod fun method =>
    { method with
      labels := method.labels.popLayer
      finallyDepth := method.finallyDepth - 1 }

theorem inlineFinalizer_ok (success : inlineFinalizer lower finalizer before = .ok () after) :
    ∃ between, lower finalizer (copying finalizer before) = .ok () between ∧
      copied between = after := by
  simp only [inlineFinalizer, pushLabelLayer, enterFinally, exitFinally, popLabelLayer, bind_ok,
    modifyMethod_ok] at success
  obtain ⟨_, _, rfl, _, _, rfl, _, between, lowered, _, _, rfl, rfl⟩ := success
  exact ⟨between, lowered, rfl⟩

theorem inlineFinalizer_error
    (failure : inlineFinalizer lower finalizer before = .error error after) :
    lower finalizer (copying finalizer before) = .error error after := by
  simp only [inlineFinalizer, pushLabelLayer, enterFinally, exitFinally, popLabelLayer, bind_error,
    modifyMethod_ok] at failure
  obtain failure | ⟨_, _, rfl, failure | ⟨_, _, rfl, failure | ⟨_, _, _, failure | ⟨_, _, _,
    failure⟩⟩⟩⟩ := failure
  · cases failure
  · cases failure
  · exact failure
  · cases failure
  · cases failure

/-- A copy has no labels yet of the statements inside it. -/
theorem ready_copying
    (distinct : finalizer.ids.Nodup)
    (ready : before.Ready start ids labels regions) :
    (copying finalizer before).Ready (start.finalizing start.frames) finalizer.ids [] [] where
  setting := by
    rw [← ready.setting]
    rfl
  orderly := ⟨ready.orderly.distinct, ready.orderly.handedOut, ready.orderly.waiting⟩
  framed := ⟨ready.framed.distinct, ready.framed.isOpen⟩
  labelsNodup := List.nodup_nil
  labelsUnbound := nofun
  labelsApart := nofun
  idsNodup := distinct
  pending := by
    intro id member found known
    have missing := LabelTable.get?_pushLayer_of_mem before.method.labels member
    have known : (before.method.labels.pushLayer finalizer.ids).get? id = some found := known
    rw [missing] at known
    contradiction
  regionsNodup := List.nodup_nil
  regionsOpen := nofun

theorem get?_popLayer_of_not_mem
    {table : LabelTable} {owned : List StmtId} {others : List (List StmtId)}
    (layers : table.layers.map LabelLayer.owned = owned :: others)
    {id : StmtId}
    (foreign : id ∉ owned) :
    table.popLayer.get? id = table.get? id := by
  obtain ⟨layer, outer, split, rfl, -⟩ := List.map_eq_cons_iff.mp layers
  simp [LabelTable.popLayer, LabelTable.get?, split, LabelTable.find?, foreign]

/-- A copy of a finally body has labels of its own. -/
theorem copy
    (distinct : finalizer.ids.Nodup)
    (inner : Tidy (start.finalizing start.frames) (start.finalizing start.frames) finalizer.ids []
      [] (lower finalizer)) :
    Tidy start start ids labels regions (inlineFinalizer lower finalizer) where
  kept := by
    intro before _ after ready success
    obtain ⟨between, lowered, rfl⟩ := inlineFinalizer_ok success
    have kept := inner.kept (ready_copying distinct ready) lowered
    have extension : (before.method.labels.pushLayer finalizer.ids).Extends
        between.method.labels := kept.evolves.labels
    have layers : between.method.labels.layers.map LabelLayer.owned =
        finalizer.ids :: before.method.labels.layers.map LabelLayer.owned := extension.owned
    refine
      { setting := ?_
        orderly := ⟨?_, ?_, kept.orderly.waiting⟩
        framed := ⟨kept.framed.distinct, kept.framed.isOpen⟩
        evolves := { kept.evolves with labels := extension.popLayer }
        binds := ⟨?_, ?_⟩
        keepsOpen := fun region isOpen _ => kept.keepsOpen region isOpen nofun }
    · have setting : (copied between).method.setting =
          { between.method.setting with finallyDepth := between.method.setting.finallyDepth - 1 } :=
        rfl
      rw [setting, kept.setting]
      rfl
    · have fewer := LabelTable.sublist_given_popLayer between.method.labels
      exact kept.orderly.distinct.sublist (fewer.append_right _)
    · intro label member
      have fewer := LabelTable.sublist_given_popLayer between.method.labels
      exact kept.orderly.handedOut label (fewer.subset member)
    · intro label waiting
      obtain still | bound | ⟨id, member, found, known, -⟩ | claimed :=
        kept.binds.unbound label waiting
      · exact .inl still
      · contradiction
      · have missing := LabelTable.get?_pushLayer_of_mem before.method.labels member
        have known : (before.method.labels.pushLayer finalizer.ids).get? id = some found := known
        rw [missing] at known
        contradiction
      · exact .inr (.inr (.inr claimed))
    · intro id found missing known label member
      have known : between.method.labels.popLayer.get? id = some found := known
      have foreign : id ∉ finalizer.ids :=
        extension.not_mem_of_popLayer missing (by rw [known]; simp)
      have missingInside : (before.method.labels.pushLayer finalizer.ids).get? id = none := by
        rw [LabelTable.get?_pushLayer_of_not_mem _ foreign]
        exact missing
      rw [get?_popLayer_of_not_mem layers foreign] at known
      obtain ⟨fresh, waiting⟩ := kept.binds.entered id found missingInside known label member
      exact ⟨fresh, fun _ => waiting foreign⟩
  proper := fun ready failure =>
    inner.proper (ready_copying distinct ready) (inlineFinalizer_error failure)

end Tidy

/-! ## Exits -/

section Exits

variable {lower : Lowering}
variable {before after : Emission} {inner : List Frame} {frame : Frame} {cut : List RegionId}
variable {stays : Frame → Bool}

/-- What finally bodies of the constructs around the current point do when they are copied. -/
def CopiesTidily (lower : Lowering) (start : MethodContext) : Prop :=
  start.AllowsCleanup fun inner finalizer =>
    finalizer.ids.Nodup ∧ Tidy inner inner finalizer.ids [] [] (lower finalizer)

/-- The cleanup of a frame, outside of the frame. -/
theorem Tidy.cleanup
    (copies : CopiesTidily lower start)
    {outer : List Frame}
    (frames : start.frames = inner ++ frame :: outer) :
    Tidy { start with frames := outer } { start with frames := outer } [] [] []
      (cleanup lower frame) := by
  unfold Emit.cleanup
  split
  · next finalizer region kind =>
    obtain ⟨distinct, tidy⟩ := copies inner frame outer finalizer region frames kind
    exact .copy distinct tidy
  · exact .plain (.exitMonitor _)
  · exact .plain (.disposeResource _ trivial)
  · exact .plain (.disposeIterator _ trivial)
  · exact .plain (.pure ())
  · exact .plain (.pure ())
  · exact .plain (.pure ())

/-- What a walk over frames finds: the regions of these frames are open. -/
structure Settled (start : MethodContext) (frames : List Frame) (state : Emission) : Prop where
  setting : state.method.setting = start
  orderly : state.Orderly
  distinct : (frames.filterMap Frame.region?).Nodup
  isOpen : ∀ frame ∈ frames, ∀ region ∈ frame.region?, state.IsOpen region

/-- All frames are in place where a step begins. -/
theorem Settled.ofReady {state : Emission} (ready : state.Ready start ids labels regions) :
    Settled start start.frames state := by
  have frames : state.method.frames = start.frames := by
    have kept := congrArg MethodContext.frames ready.setting
    exact kept
  exact
    { setting := ready.setting
      orderly := ready.orderly
      distinct := frames ▸ ready.framed.distinct
      isOpen := frames ▸ ready.framed.isOpen }

/-- A frame without a region is passed by. -/
theorem Settled.skip
    {outer : List Frame} {state : Emission}
    (settled : Settled start (frame :: outer) state)
    (found : frame.region? = none) :
    Settled start outer state where
  setting := settled.setting
  orderly := settled.orderly
  distinct := by
    have distinct := settled.distinct
    rwa [List.filterMap_cons_none found] at distinct
  isOpen := fun other member => settled.isOpen other (List.mem_cons_of_mem _ member)

/-- What a walk over frames leaves: some regions are cut. -/
structure Walked (start : MethodContext) (cut : List RegionId) (before after : Emission) :
    Prop where
  setting : after.method.setting = start
  orderly : after.Orderly
  evolves : before.Evolves after
  binds : before.Binds [] [] after
  keepsOpen : ∀ region, before.IsOpen region → region ∈ cut ∨ after.IsOpen region

/-- What is cut adds up. -/
theorem Walked.trans
    {between : Emission} {cut' : List RegionId}
    (first : Walked start cut before between)
    (second : Walked start cut' between after) :
    Walked start (cut ++ cut') before after where
  setting := second.setting
  orderly := second.orderly
  evolves := first.evolves.trans second.evolves
  binds := by
    have handedOut : ∀ label ∈ ([] : List Label), label.index < before.code.marks.size := nofun
    exact .trans handedOut first.orderly first.evolves second.evolves first.binds second.binds
  keepsOpen := by
    intro region isOpen
    obtain inCut | still := first.keepsOpen region isOpen
    · exact .inl (List.mem_append_left _ inCut)
    · obtain inCut | still := second.keepsOpen region still
      · exact .inl (List.mem_append_right _ inCut)
      · exact .inr still

theorem Walked.ofCuts
    {keeps : RegionId → Prop}
    (cuts : Cuts keeps before after)
    (others : ∀ region, keeps region ∨ region ∈ cut)
    (setting : before.method.setting = start)
    (orderly : before.Orderly) :
    Walked start cut before after where
  setting := cuts.setting.trans setting
  orderly := cuts.orderly orderly
  evolves := cuts.evolves
  binds := cuts.binds
  keepsOpen := by
    intro region isOpen
    obtain kept | inCut := others region
    · exact .inr (cuts.keepsOpen region kept isOpen)
    · exact .inl inCut

/-! ### Detached frames -/

/-- A step sees the outer frames only, and the inner ones come back. -/
theorem withOuterFrames_ok
    {outer : List Frame} {step : Emit Unit}
    (frames : before.method.frames = inner ++ outer)
    (success : withOuterFrames outer.length step before = .ok () after) :
    ∃ between,
      step (before.mapMethod fun method => { method with frames := outer }) = .ok () between ∧
        between.mapMethod (fun method => { method with frames := inner ++ method.frames }) =
          after := by
  obtain ⟨detached, _, detaching, rest⟩ := bind_ok.mp success
  obtain ⟨between, stepped, restored⟩ := seq_ok.mp rest
  cases detaching
  obtain rfl := modifyMethod_ok.mp restored
  simp only [frames, List.length_append, Nat.add_sub_cancel, List.drop_left, List.take_left]
    at stepped ⊢
  exact ⟨between, stepped, rfl⟩

theorem withOuterFrames_error
    {outer : List Frame} {step : Emit Unit}
    (frames : before.method.frames = inner ++ outer)
    (failure : withOuterFrames outer.length step before = .error error after) :
    step (before.mapMethod fun method => { method with frames := outer }) =
      .error error after := by
  obtain failure | ⟨detached, _, detaching, failure⟩ := bind_error.mp failure
  · cases failure
  · cases detaching
    obtain failed | ⟨_, _, _, failed⟩ := bind_error.mp failure
    · simp only [frames, List.length_append, Nat.add_sub_cancel, List.drop_left] at failed
      exact failed
    · cases failed

/-! ### The walk over the frames -/

/-- With the region of a frame cut, its cleanup runs among the frames around it. -/
theorem Settled.outer
    {outer : List Frame}
    (settled : Settled start (frame :: outer) before)
    (found : frame.region? = some region)
    (cuts : Cuts (· ≠ region) before after) :
    (after.mapMethod fun method => { method with frames := outer }).Ready
      { start with frames := outer } [] [] [] := by
  have distinct := settled.distinct
  rw [List.filterMap_cons_some found, List.nodup_cons] at distinct
  have orderly := cuts.orderly settled.orderly
  exact
    { setting := by
        have kept := cuts.setting.trans settled.setting
        rw [← kept]
        rfl
      orderly := ⟨orderly.distinct, orderly.handedOut, orderly.waiting⟩
      framed := by
        refine ⟨distinct.2, ?_⟩
        intro other member region' found'
        have apart : region' ≠ region := by
          rintro rfl
          exact distinct.1 (List.mem_filterMap.mpr ⟨other, member, found'⟩)
        have isOpen := settled.isOpen other (List.mem_cons_of_mem _ member) region' found'
        exact cuts.keepsOpen region' apart isOpen
      labelsNodup := List.nodup_nil
      labelsUnbound := nofun
      labelsApart := nofun
      idsNodup := List.nodup_nil
      pending := nofun
      regionsNodup := List.nodup_nil
      regionsOpen := nofun }

/-- One step of the walk: the region of a frame is cut and its cleanup runs. -/
theorem Settled.cleaned
    (copies : CopiesTidily lower start)
    {outer : List Frame} {between : Emission}
    (settled : Settled start (frame :: outer) before)
    (frames : start.frames = inner ++ frame :: outer)
    (found : frame.region? = some region)
    (suspended : suspendRegion region before = .ok () between)
    (cleaned : withOuterFrames outer.length (cleanup lower frame) between = .ok () after) :
    Walked start [region] before after ∧ Settled start outer after := by
  have cuts : Cuts (· ≠ region) before between := .suspendRegion suspended
  have ready := settled.outer found cuts
  have betweenFrames : between.method.frames = (inner ++ [frame]) ++ outer := by
    have kept := congrArg MethodContext.frames (cuts.setting.trans settled.setting)
    exact kept.trans (frames.trans (by simp))
  obtain ⟨inside, stepped, rfl⟩ := withOuterFrames_ok betweenFrames cleaned
  have kept := (Tidy.cleanup copies frames).kept ready stepped
  have walkedCut : Walked start [region] before between := by
    refine .ofCuts cuts (fun other => ?_) settled.setting settled.orderly
    by_cases same : other = region
    · exact .inr (List.mem_singleton.mpr same)
    · exact .inl same
  have walkedCleanup : Walked start [] between
      (inside.mapMethod fun method =>
        { method with frames := inner ++ [frame] ++ method.frames }) := by
    refine
      { setting := ?_
        orderly := ⟨kept.orderly.distinct, kept.orderly.handedOut, kept.orderly.waiting⟩
        evolves := { kept.evolves with }
        binds := ⟨kept.binds.unbound, kept.binds.entered⟩
        keepsOpen := fun other isOpen => .inr (kept.keepsOpen other isOpen nofun) }
    have setting := kept.setting
    have insideFrames : inside.method.frames = outer := congrArg MethodContext.frames setting
    calc
      _ = { inside.method.setting with frames := inner ++ [frame] ++ inside.method.frames } := rfl
      _ = { start with frames := inner ++ [frame] ++ outer } := by rw [setting, insideFrames]
      _ = start := by
        rw [List.append_assoc]
        exact congrArg (fun frames => { start with frames }) frames.symm
  refine ⟨walkedCut.trans walkedCleanup, ?_⟩
  exact
    { setting := walkedCleanup.setting
      orderly := walkedCleanup.orderly
      distinct := ready.framed.distinct
      isOpen := fun other member region' found' =>
        kept.keepsOpen region' (ready.framed.isOpen other member region' found') nofun }

/-- The walk cuts the regions that it returns, and binds nothing that was there before. -/
theorem cleanupFrames_ok
    (copies : CopiesTidily lower start)
    {frames : List Frame}
    (split : start.frames = inner ++ frames)
    (settled : Settled start frames before)
    (success : cleanupFrames lower stays frames before = .ok cut after) :
    Walked start cut before after := by
  induction frames generalizing inner before cut with
  | nil =>
    obtain ⟨rfl, rfl⟩ := pure_ok.mp success
    exact ⟨settled.setting, settled.orderly, .refl _, ⟨fun _ => .inl, by simp_all⟩, fun _ => .inr⟩
  | cons frame outer ih =>
    have deeper : start.frames = (inner ++ [frame]) ++ outer := by simp [split]
    unfold cleanupFrames at success
    split_ifs at success with stay
    · obtain ⟨rfl, rfl⟩ := pure_ok.mp success
      exact ⟨settled.setting, settled.orderly, .refl _, ⟨fun _ => .inl, by simp_all⟩, fun _ => .inr⟩
    · cases found : frame.region? with
      | none =>
        rw [found] at success
        exact ih deeper (settled.skip found) success
      | some region =>
        rw [found] at success
        obtain ⟨_, suspended, rest⟩ := seq_ok.mp success
        obtain ⟨_, cleaned, rest⟩ := seq_ok.mp rest
        obtain ⟨cutOutside, _, walked, rest⟩ := bind_ok.mp rest
        obtain ⟨rfl, rfl⟩ := pure_ok.mp rest
        obtain ⟨first, settledOutside⟩ := settled.cleaned copies split found suspended cleaned
        exact first.trans (ih deeper settledOutside walked)

/-- Cleaning up never breaks the books. -/
theorem cleanupFrames_proper
    (copies : CopiesTidily lower start)
    {frames : List Frame}
    (split : start.frames = inner ++ frames)
    (settled : Settled start frames before)
    (failure : cleanupFrames lower stays frames before = .error error after) :
    error.breaksBookkeeping = false := by
  induction frames generalizing inner before with
  | nil => cases failure
  | cons frame outer ih =>
    have deeper : start.frames = (inner ++ [frame]) ++ outer := by simp [split]
    unfold cleanupFrames at failure
    split_ifs at failure with stay
    · cases failure
    · cases found : frame.region? with
      | none =>
        rw [found] at failure
        exact ih deeper (settled.skip found) failure
      | some region =>
        rw [found] at failure
        obtain failure | ⟨_, between, suspended, failure⟩ := bind_error.mp failure
        · exact suspendRegion_proper failure
        · have cuts : Cuts (· ≠ region) before between := .suspendRegion suspended
          have betweenFrames : between.method.frames = (inner ++ [frame]) ++ outer := by
            have kept := congrArg MethodContext.frames (cuts.setting.trans settled.setting)
            exact kept.trans deeper
          obtain failure | ⟨_, _, cleaned, failure⟩ := bind_error.mp failure
          · exact (Tidy.cleanup copies split).proper (settled.outer found cuts)
              (withOuterFrames_error betweenFrames failure)
          · obtain ⟨-, settledOutside⟩ := settled.cleaned copies split found suspended cleaned
            obtain failure | ⟨_, _, _, failure⟩ := bind_error.mp failure
            · exact ih deeper settledOutside failure
            · cases failure

/-- An exit goes on with the regions that it has cut. -/
theorem Tidy.exit
    (copies : CopiesTidily lower start) {leave : Emit Unit} (leavePlain : Plainly [] leave) :
    Tidy start start ids labels regions (do
      let cut ← cleanupFrames lower stays start.frames
      leave
      resumeRegions cut) where
  kept := by
    intro before _ after ready success
    obtain ⟨cut, walkedTo, walked, rest⟩ := bind_ok.mp success
    obtain ⟨leftTo, left, resumed⟩ := seq_ok.mp rest
    have settled := Settled.ofReady ready
    have walk := cleanupFrames_ok copies (List.nil_append _).symm settled walked
    have leaving : Cuts (fun _ => True) walkedTo leftTo := .plain leavePlain left
    obtain ⟨resuming, isOpen⟩ := Cuts.resumeRegions resumed
    have walkedOut : Walked start cut before after := by
      have out : Walked start [] walkedTo after :=
        .ofCuts (leaving.trans resuming) (fun _ => .inl trivial) walk.setting walk.orderly
      exact List.append_nil cut ▸ walk.trans out
    have keepsOpen : ∀ region, before.IsOpen region → after.IsOpen region := by
      intro region openBefore
      obtain inCut | still := walkedOut.keepsOpen region openBefore
      · exact isOpen region inCut
      · exact still
    refine
      { setting := walkedOut.setting
        orderly := walkedOut.orderly
        framed := ?_
        evolves := walkedOut.evolves
        binds := ?_
        keepsOpen := fun region openBefore _ => keepsOpen region openBefore }
    · have frames : after.method.frames = before.method.frames := by
        have kept := congrArg MethodContext.frames (walkedOut.setting.trans ready.setting.symm)
        exact kept
      refine ⟨by rw [frames]; exact ready.framed.distinct, ?_⟩
      rw [frames]
      intro frame member region found
      exact keepsOpen region (ready.framed.isOpen frame member region found)
    · exact walkedOut.binds.mono (List.nil_subset _) (List.nil_subset _)
  proper := by
    intro before error after ready failure
    have settled := Settled.ofReady ready
    obtain failure | ⟨cut, walkedTo, walked, failure⟩ := bind_error.mp failure
    · exact cleanupFrames_proper copies (List.nil_append _).symm settled failure
    · obtain failure | ⟨_, leftTo, left, failure⟩ := bind_error.mp failure
      · exact leavePlain.proper rfl List.nodup_nil nofun failure
      · exact resumeRegions_proper failure

end Exits

end Emit
end StackCode
