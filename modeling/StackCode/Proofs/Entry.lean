import StackCode.Proofs.Preparation

/-!
# Where lowering begins

Three kinds of bodies are lowered: those of declared methods, those of lambdas,
and those of iterators.  Whatever comes before a body leaves the books in order,
so the body can be lowered, and no method of a class fails because of its books.
-/

namespace StackCode
namespace Emit

variable {labels : List Label} {body : Stmt} {context : MethodContext}

/-! ## Before and after a body -/

/-- Give the receiver and the parameters their slots. -/
def declareParams (params : List LocalDecl) : Emit Unit := do
  reserveSelf
  params.forM fun param => discard (declareLocal param)

/-- What comes before the body of a declared method. -/
def plainEntry (method : MethodDecl) (body : Stmt) : Emit Unit := do
  declareParams method.params
  prepareLambdas body method.params
  setParents body

/-- What comes before the lambdas inside a lambda are prepared. -/
def lambdaStart
    (lambda : Lambda)
    (access : List (LocalId × LocalAccess))
    (selfPath : List FieldRef) :
    Emit Unit := do
  declareParams lambda.params
  access.forM fun entry => setAccess entry.1 entry.2
  setSelfPath selfPath

/-- What comes before the body of a lambda. -/
def lambdaEntry
    (prepare : Preparation)
    (lambda : Lambda)
    (access : List (LocalId × LocalAccess))
    (selfPath : List FieldRef) :
    Emit Unit := do
  lambdaStart lambda access selfPath
  prepare lambda.body lambda.params
  setParents lambda.body

/-- Return at the end of a body, if control reaches it. -/
def returnAtEnd (body : Stmt) : Emit Unit := do
  if body.completes then
    let method ← method
    if method.returnType.isVoid then returnKind .void
    else defect (.missingReturn method.className method.methodName)

theorem plainBody_eq (method : MethodDecl) (body : Stmt) :
    plainBody method body = (do
      plainEntry method body
      lower body
      returnAtEnd body
      finish) := by
  simp only [plainBody, plainEntry, declareParams, lowerBody, returnAtEnd, bind_assoc]

theorem lambdaBody_eq
    (prepare : Preparation) (lambda : Lambda) (access : List (LocalId × LocalAccess))
    (selfPath : List FieldRef) :
    lambdaBody prepare lambda access selfPath = (do
      lambdaEntry prepare lambda access selfPath
      lower lambda.body
      returnAtEnd lambda.body
      finish) := by
  simp only [lambdaBody, lambdaEntry, lambdaStart, declareParams, lowerBody, returnAtEnd,
    bind_assoc]

theorem proper_returnAtEnd (body : Stmt) : Proper (returnAtEnd body) := by
  have read : Proper method := .bind .get fun _ => .pure _
  exact .ite (.bind read fun method => .ite (.modify _) (.throw rfl)) (.pure _)

/-- Before a method is lowered, the books are empty. -/
theorem bare_start
    {ids : List StmtId}
    (distinct : ids.Nodup)
    (className methodName : String) (isStatic : Bool) (returnType : Ty) (debugInfo : Bool)
    (cls : ClassContext) :
    Bare ids []
      { method := .start className methodName isStatic returnType debugInfo, cls } where
  ready :=
    { setting := rfl
      orderly := ⟨List.nodup_nil, nofun, nofun⟩
      framed := ⟨List.nodup_nil, nofun⟩
      labelsNodup := List.nodup_nil
      labelsUnbound := nofun
      labelsApart := nofun
      idsNodup := distinct
      pending := nofun
      regionsNodup := List.nodup_nil
      regionsOpen := nofun }
  frames := rfl

/-- Outside of every construct, a body that has distinct identifiers may be lowered. -/
theorem Bare.distinguished
    {state : Emission}
    (bare : Bare body.ids labels state) :
    Distinguished state.method.setting body where
  distinct := bare.ready.idsNodup
  around := by
    have none : state.method.setting.constructs = [] := by
      have frames : state.method.setting.frames = [] := bare.frames
      rw [MethodContext.constructs, frames]
      rfl
    simp [none]

/-- A method is generated that begins with a preparation. -/
theorem proper_onMethod
    {entry : Emit PUnit}
    (started : ∀ cls, Bare body.ids [] { method := context, cls })
    (preparing : Preparing entry) :
    Proper (onMethod context do
      entry
      lower body
      returnAtEnd body
      finish) := by
  refine ⟨?_⟩
  intro cls error after failure
  obtain ⟨state, failed⟩ := onMethod_error failure
  obtain failed | ⟨_, entered, entering, failed⟩ := bind_error.mp failed
  · exact preparing.proper (started cls) failed
  · obtain ⟨bare, -⟩ := preparing.bare (started cls) entering
    obtain failed | ⟨_, _, _, failed⟩ := bind_error.mp failed
    · have tidy := Tidy.lowerWithin (nestingBound entered.method.frames body) bare.distinguished
      exact tidy.proper bare.ready failed
    · exact (Proper.bind (proper_returnAtEnd body) fun _ => proper_finish).proper failed

/-! ## Lambdas -/

namespace Preparing

theorem declareParams (params : List LocalDecl) : Preparing (declareParams params) :=
  seq reserveSelf (declareLocals params)

theorem lambdaEntry
    {prepare : Preparation} {lambda : Lambda}
    (inner : Preparing (prepare lambda.body lambda.params))
    (access : List (LocalId × LocalAccess)) (selfPath : List FieldRef) :
    Preparing (lambdaEntry prepare lambda access selfPath) := by
  refine seq (seq (declareParams _) (seq ?_ (setSelfPath selfPath))) (seq inner (setParents _))
  exact forM fun entry _ => unseen (.setAccess _ _)

/-- A lambda is compiled aside, and the books stay as they are. -/
theorem compileLambda
    {prepare : Preparation} {plan : LambdaPlan}
    (distinct : plan.lambda.body.Distinct)
    (inner : Preparing (prepare plan.lambda.body plan.lambda.params))
    (home : LambdaHome) :
    Preparing (compileLambda prepare home plan) := by
  have newName : ∀ (cls : ClassContext) (name : String), cls.Quiet (cls.newLambdaName name).2 :=
    fun cls _ => { ClassContext.Quiet.refl cls with }
  refine bind .method fun outside => ?_
  refine bind (plain (.takeQuiet (fun _ _ _ _ => rfl) (newName · _))) fun name => ?_
  refine seq (plain (.log _ _)) (bind cls fun cls => bind (aside ?_) fun body => ?_)
  · rw [lambdaBody_eq]
    refine proper_onMethod ?_ (lambdaEntry inner _ _)
    exact bare_start distinct.nodup _ _ _ _ _
  · exact seq (modifyClass _) (pure _)

/-- The lambdas of a body are compiled aside. -/
theorem prepareWithin (depth : Nat) (params : List LocalDecl)
    (distinct : Lambda.AllDistinct body.lambdas) : Preparing (prepareWithin depth body params) := by
  induction depth generalizing body params with
  | zero =>
    unfold Emit.prepareWithin
    split
    · exact pure _
    · exact ⟨fun _ success => (defect_ok.mp success).elim,
        fun _ failure => (throw_error.mp failure).1 ▸ rfl⟩
  | succ depth ih =>
    refine bind .method fun outside => bindKnown (plain (.planLambdas _ _ _)) ?_
    rintro ⟨plans, scope⟩ ⟨before, after, planned⟩
    have known := planLambdas_ok planned
    refine bind (makeScope? scope params) fun slot => seq (forM fun plan member => ?_)
      (addScopeClass scope)
    have planDistinct : plan.lambda.body.Distinct := by
      refine distinct _ ?_
      rw [← known]
      exact List.mem_map_of_mem member
    refine bind (lambdaHome scope slot _) fun home => ?_
    refine bind (compileLambda planDistinct ?_ home) fun target => registerLambda _ _
    exact ih _ planDistinct.allDistinct

theorem plainEntry (method : MethodDecl) (distinct : body.Distinct) :
    Preparing (plainEntry method body) :=
  seq (declareParams _) (seq (prepareWithin _ _ distinct.allDistinct) (setParents body))

end Preparing

/-! ## Iterators -/

section Iterators

open IteratorClass

variable {ids : List StmtId}
variable {before after : Emission} {suspension : Suspension} {body : Stmt} {first : Label}
variable {others : List Label} {layout : Layout} {start : MethodContext}

/-- What comes before the scope of the body of an iterator. -/
def moveNextStart (layout : Layout) (body : Stmt) : Emit Suspension := do
  reserveSelf
  setSelfPath layout.outerField.toList
  let suspension ← beginSuspension layout.className layout.element body.countYields
    (layout.fieldsOf layout.promotion.promoted)
  (layout.fieldsOf layout.promotion.resident).forM fun entry =>
    setAccess entry.1 (.captured .self [entry.2])
  return suspension

/-- What comes before the body of an iterator in its scope. -/
def moveNextEntry
    (layout : Layout)
    (method : MethodDecl)
    (body : Stmt)
    (suspension : Suspension) :
    Emit Unit := do
  declareKept layout method.params
  dispatchState suspension
  prepareLambdas body []
  setParents body

/-- What comes after the body of an iterator. -/
def moveNextEnd (suspension : Suspension) : Emit (MethodBody × List FieldDef) := do
  mark suspension.exhausted
  finishIteration suspension.state
  exitScope
  let spills := ((← method).suspension.map Suspension.spills).getD []
  return (← finish, spills)

theorem moveNextBody_eq (layout : Layout) (method : MethodDecl) (body : Stmt) :
    moveNextBody layout method body = (do
      let suspension ← moveNextStart layout body
      enterScope
      moveNextEntry layout method body suspension
      lower body
      moveNextEnd suspension) := by
  simp only [moveNextBody, moveNextStart, moveNextEntry, moveNextEnd, inScope, bind_assoc,
    pure_bind]

/-- Make the state object of an iterator and fill it. -/
def stateCode (layout : Layout) (method : MethodDecl) : Emit Unit := do
  let state ← newTemp (.ofClass layout.className)
  newObject layout.className
  storeRef state
  layout.outerField.forM fun field => do
    loadRef state
    loadRef 0
    putField field
  method.params.forM fun param =>
    (layout.localFields.lookup param.id).forM fun field => do
      loadRef state
      loadLocal param.id method.span
      putField field
  loadRef state
  returnKind .reference

/-- Declare the parameters and make the state object. -/
def entryCode (layout : Layout) (method : MethodDecl) : Emit Unit := do
  declareParams method.params
  stateCode layout method

theorem entryBody_eq (layout : Layout) (method : MethodDecl) :
    entryBody layout method = (do entryCode layout method; finish) := by
  simp only [entryBody, entryCode, stateCode, declareParams, bind_assoc]

/-- The code that enters an iteration is plain. -/
theorem plain_stateCode
    {basis : Basis} {layout : Layout} (method : MethodDecl)
    (refers : ∀ ref ∈ layout.references, basis.known ref) :
    Plain (fun _ => True) basis (fun _ => True) [] (stateCode layout method) := by
  refine .bind (.newTemp _) fun state => .seq (.newObject (refers _ ?_) (refers _ ?_)) ?_
  · simp [IteratorClass.Layout.references]
  · simp [IteratorClass.Layout.references]
  refine .seq (.store _ _) (.seq (.optionForM _ fun field found => ?_)
    (.seq (.forM _ fun param _ => .optionForM _ fun field found => ?_) (.seq (.load _ _) (.op _))))
  · refine .seq (.load _ _) (.seq (.load _ _) (.putField (refers _ ?_) fun _ => trivial))
    simp [IteratorClass.Layout.references, Option.mem_def.mp found]
  · refine .seq (.load _ _) (.seq (.loadLocal _ _) (.putField (refers _ ?_) fun _ => trivial))
    have listed := mem_of_lookup (Option.mem_def.mp found)
    simp only [IteratorClass.Layout.references, List.mem_append, List.mem_map]
    exact .inr ⟨_, listed, rfl⟩

/-- New labels are there to be bound. -/
theorem ready_newLabels
    {count : Nat} {regions : List RegionId} {result : List Label}
    (ready : before.Ready start ids labels regions)
    (success : newLabels count before = .ok result after) :
    after.Ready start ids (labels ++ result) regions := by
  induction count generalizing labels before result with
  | zero =>
    obtain ⟨rfl, rfl⟩ := pure_ok.mp success
    simpa using ready
  | succ count ih =>
    obtain ⟨label, between, handedOut, rest⟩ := bind_ok.mp success
    obtain ⟨others, _, others_ok, rest⟩ := bind_ok.mp rest
    obtain ⟨rfl, rfl⟩ := pure_ok.mp rest
    obtain ⟨rfl, rfl⟩ := newLabel_ok.mp handedOut
    simpa using ih (Tidy.ready_newLabel ready) others_ok

/-- The points of resumption wait to be claimed; the first one and the end are bound anyway. -/
theorem bare_suspended
    {state : Emission}
    (ready : state.Ready start ids (first :: others ++ [suspension.exhausted]) [])
    (frames : state.method.frames = [])
    (noCount : state.method.yieldCount = 0)
    (noLabels : state.method.labels.given = [])
    (resume : suspension.resume = first :: others) :
    Bare ids [first, suspension.exhausted]
      (state.mapMethod fun method => { method with suspension := some suspension }) := by
  have unclaimed : Emission.unclaimed (state.mapMethod fun method =>
      { method with suspension := some suspension }) = others := by
    simp [Emission.unclaimed, noCount, resume]
  have within : [first, suspension.exhausted].Sublist
      (first :: others ++ [suspension.exhausted]) :=
    (List.sublist_append_right others _).cons_cons first
  have distinct := List.nodup_append.mp ready.labelsNodup
  have firstApart := (List.nodup_cons.mp distinct.1).1
  refine ⟨?_, frames⟩
  refine
    { setting := rfl
      orderly := ⟨?_, ?_, ?_⟩
      framed := ⟨by simp [frames], by simp [frames]⟩
      labelsNodup := ready.labelsNodup.sublist within
      labelsUnbound := fun label member => ready.labelsUnbound label (within.subset member)
      labelsApart := ?_
      idsNodup := ready.idsNodup
      pending := ?_
      regionsNodup := List.nodup_nil
      regionsOpen := by simp }
  · rw [unclaimed]
    simpa [noLabels] using (List.nodup_cons.mp distinct.1).2
  · simp [noLabels]
  · rw [unclaimed]
    intro label member
    exact ready.labelsUnbound label (List.mem_append_left _ (List.mem_cons_of_mem _ member))
  · rw [unclaimed]
    intro label member later
    obtain rfl | member := List.mem_cons.mp member
    · exact firstApart later
    · exact distinct.2.2 label (List.mem_cons_of_mem _ later) label member rfl
  · intro id _ found known label inFound
    have given := LabelTable.mem_given_of_get?_eq_some known inFound
    have none : label ∈ state.method.labels.given := given
    rw [noLabels] at none
    contradiction

/-- The labels of a suspension are fresh. -/
theorem bare_beginSuspension
    {className : String} {element : Ty} {count : Nat} {promoted : List (LocalId × FieldRef)}
    (bare : Bare ids [] before)
    (noCount : before.method.yieldCount = 0)
    (noLabels : before.method.labels.given = [])
    (success : beginSuspension className element count promoted before = .ok suspension after) :
    ∃ first others, suspension.resume = first :: others ∧ others.length = count ∧
      Bare ids [first, suspension.exhausted] after := by
  obtain ⟨resume, handedOut, resuming, rest⟩ := bind_ok.mp success
  obtain ⟨exhausted, between, ending, rest⟩ := bind_ok.mp rest
  obtain ⟨_, set, rest⟩ := seq_ok.mp rest
  obtain rfl := modifyMethod_ok.mp set
  obtain ⟨rfl, rfl⟩ := pure_ok.mp rest
  have readyResume := ready_newLabels bare.ready resuming
  obtain ⟨length, code, rfl, -⟩ := newLabels_ok resuming
  obtain ⟨rfl, rfl⟩ := newLabel_ok.mp ending
  have ready := Tidy.ready_newLabel readyResume
  obtain ⟨first, others, rfl⟩ := List.exists_cons_of_length_eq_add_one length
  refine ⟨first, others, rfl, by simpa using length, ?_⟩
  exact bare_suspended ready bare.frames noCount noLabels rfl

/-- A plain step that binds its own labels first. -/
theorem Bare.plain
    {own : List Label} {step : Emit α} (stepPlain : Plainly own step) {value : α}
    (bare : Bare ids (own ++ labels) before)
    (success : step before = .ok value after) :
    Bare ids labels after ∧ before.Evolves after := by
  have tidy : Tidy before.method.setting before.method.setting [] own [] step := .plain stepPlain
  have ready : before.Ready before.method.setting ([] ++ ids) (own ++ labels) ([] ++ []) :=
    bare.ready
  have ownReady : before.Ready before.method.setting [] own [] :=
    ready.mono List.nil_subperm (List.sublist_append_left _ _).subperm List.nil_subperm
  have kept := tidy.kept ownReady success
  have readyAfter := kept.ready ready
  rw [← kept.setting] at readyAfter
  have frames := congrArg MethodContext.frames kept.setting
  exact ⟨⟨readyAfter, Eq.trans frames bare.frames⟩, kept.evolves⟩

theorem plain_dispatchState {writable : FieldRef → Prop}
    (resume : suspension.resume = first :: others) :
    Plain writable .any (fun _ => True) [first] (dispatchState suspension) := by
  have bound : suspension.resume.head?.toList = [first] := by rw [resume]; rfl
  exact bound ▸ .dispatchState trivial

theorem Tidy.Unseen.reserveSelf : Tidy.Unseen reserveSelf := by
  refine .bind .method fun method => ?_
  split
  · exact .bind (.allocate _ _) fun _ => .pure _
  · exact .pure _

/-- The points of resumption of an iterator, where its scope begins. -/
theorem bare_moveNextStart
    (bare : Bare ids [] before)
    (noCount : before.method.yieldCount = 0)
    (noLabels : before.method.labels.given = [])
    (success : moveNextStart layout body before = .ok suspension after) :
    ∃ first others, suspension.resume = first :: others ∧ others.length = body.countYields ∧
      Bare ids [first, suspension.exhausted] after := by
  obtain ⟨reserved, reserving, rest⟩ := seq_ok.mp success
  obtain ⟨located, locating, rest⟩ := seq_ok.mp rest
  obtain ⟨_, begun, beginning, rest⟩ := bind_ok.mp rest
  obtain ⟨_, accessing, rest⟩ := seq_ok.mp rest
  obtain ⟨rfl, rfl⟩ := pure_ok.mp rest
  obtain ⟨books, -⟩ := Tidy.Unseen.reserveSelf.books reserving
  obtain ⟨bareReserved, -⟩ := Preparing.reserveSelf.bare bare reserving
  obtain ⟨bareLocated, -⟩ := (Preparing.setSelfPath _).bare bareReserved locating
  obtain rfl := modifyMethod_ok.mp locating
  have count := books.yieldCount.trans noCount
  have labels : reserved.method.labels.given = [] := by rw [books.labels, noLabels]
  obtain ⟨first, others, resume, length, bareBegun⟩ :=
    bare_beginSuspension bareLocated count labels beginning
  have access : Preparing ((layout.fieldsOf layout.promotion.resident).forM fun entry =>
      setAccess entry.1 (.captured .self [entry.2])) :=
    .forM fun entry _ => .unseen (.setAccess _ _)
  exact ⟨first, others, resume, length, (access.bare bareBegun accessing).1⟩

/-- Beginning an iteration never breaks the books. -/
theorem proper_moveNextStart (layout : Layout) (body : Stmt) :
    Proper (moveNextStart layout body) := by
  have labels : ∀ count, Proper (newLabels count) := by
    intro count
    induction count with
    | zero => exact .pure _
    | succ count ih =>
      exact .bind ⟨nofun⟩ fun _ => .bind ih fun _ => .pure _
  refine .bind ⟨Tidy.Unseen.reserveSelf.proper⟩ fun _ => .bind (.modify _) fun _ => ?_
  refine .bind ?_ fun suspension => .bind (.forM fun _ _ => .modify _) fun _ => .pure _
  exact .bind (labels _) fun _ => .bind ⟨nofun⟩ fun _ => .bind (.modify _) fun _ => .pure _

theorem preparing_declareKept (layout : Layout) (params : List LocalDecl) :
    Preparing (declareKept layout params) := by
  refine .forM fun param _ => ?_
  split
  · exact .bind (.unseen (.declareLocal param)) fun _ => .pure _
  · exact .pure _

/-- Where the body of an iterator begins, its end is still to be bound. -/
theorem bare_moveNextEntry
    {method : MethodDecl}
    (distinct : body.Distinct)
    (resume : suspension.resume = first :: others)
    (bare : Bare ids [first, suspension.exhausted] before)
    (success : moveNextEntry layout method body suspension before = .ok () after) :
    Bare ids [suspension.exhausted] after ∧ before.Evolves after := by
  obtain ⟨declared, declaring, rest⟩ := seq_ok.mp success
  obtain ⟨dispatched, dispatching, rest⟩ := seq_ok.mp rest
  obtain ⟨bareDeclared, declares⟩ := (preparing_declareKept layout _).bare bare declaring
  obtain ⟨bareDispatched, dispatches⟩ :=
    Bare.plain (plain_dispatchState resume) bareDeclared dispatching
  have entry : Preparing (do prepareLambdas body []; setParents body) :=
    .seq (.prepareWithin _ _ distinct.allDistinct) (.setParents body)
  obtain ⟨bareAfter, prepares⟩ := entry.bare bareDispatched rest
  exact ⟨bareAfter, declares.trans (dispatches.trans prepares)⟩

/-- Entering an iteration never breaks the books. -/
theorem moveNextEntry_proper
    {method : MethodDecl}
    (distinct : body.Distinct)
    (resume : suspension.resume = first :: others)
    {error : Error}
    (bare : Bare ids [first, suspension.exhausted] before)
    (failure : moveNextEntry layout method body suspension before = .error error after) :
    error.breaksBookkeeping = false := by
  obtain failure | ⟨_, declared, declaring, failure⟩ := bind_error.mp failure
  · exact (preparing_declareKept layout _).proper bare failure
  · obtain ⟨bareDeclared, -⟩ := (preparing_declareKept layout _).bare bare declaring
    have dispatch : Plainly [first] (dispatchState suspension) := plain_dispatchState resume
    obtain failure | ⟨_, dispatched, dispatching, failure⟩ := bind_error.mp failure
    · refine dispatch.proper rfl (List.nodup_singleton _) ?_ failure
      intro label member
      obtain rfl := List.mem_singleton.mp member
      exact bareDeclared.ready.labelsUnbound _ List.mem_cons_self
    · obtain ⟨bareDispatched, -⟩ := Bare.plain dispatch bareDeclared dispatching
      have entry : Preparing (do prepareLambdas body []; setParents body) :=
        .seq (.prepareWithin _ _ distinct.allDistinct) (.setParents body)
      exact entry.proper bareDispatched failure

/-- The body of an iterator and its end. -/
theorem Tidy.lowerToEnd
    (distinguished : Distinguished start body)
    (depth : Nat) (suspension : Suspension) :
    Tidy start start (body.ids ++ []) ([] ++ [suspension.exhausted]) ([] ++ []) (do
      Emit.lowerWithin depth body
      mark suspension.exhausted
      finishIteration suspension.state) :=
  .bind (.lowerWithin depth distinguished) fun _ =>
    .plain (.marked trivial (.finishIteration trivial trivial))

/-- The method that runs the body of an iterator does not fail because of its books. -/
theorem proper_moveNext
    {method : MethodDecl}
    (distinct : body.Distinct)
    (started : ∀ cls, Bare body.ids [] { method := context, cls })
    (noCount : context.yieldCount = 0)
    (noLabels : context.labels.given = []) :
    Proper (onMethod context (moveNextBody layout method body)) := by
  refine ⟨?_⟩
  intro cls error after failure
  obtain ⟨state, failed⟩ := onMethod_error failure
  rw [moveNextBody_eq] at failed
  obtain failed | ⟨suspension, begun, beginning, failed⟩ := bind_error.mp failed
  · exact (proper_moveNextStart layout body).proper failed
  obtain ⟨first, others, resume, -, bareBegun⟩ :=
    bare_moveNextStart (started cls) noCount noLabels beginning
  obtain failed | ⟨_, opened, opening, failed⟩ := bind_error.mp failed
  · cases failed
  obtain rfl := enterScope_ok.mp opening
  have bareOpened : Bare body.ids [first, suspension.exhausted]
      (begun.mapMethod MethodContext.enterScope) :=
    ⟨Tidy.ready_enterScope bareBegun.ready, bareBegun.frames⟩
  obtain failed | ⟨_, entered, entering, failed⟩ := bind_error.mp failed
  · exact moveNextEntry_proper distinct resume bareOpened failed
  obtain ⟨bare, enters⟩ := bare_moveNextEntry distinct resume bareOpened entering
  let depth := nestingBound entered.method.frames body
  have tidy := Tidy.lowerToEnd bare.distinguished depth suspension
  have ready : entered.Ready entered.method.setting (body.ids ++ []) ([] ++ [suspension.exhausted])
      ([] ++ []) := by
    rw [List.append_nil]
    exact bare.ready
  change (lowerWithin depth body >>= fun _ => moveNextEnd suspension) entered = _ at failed
  have regrouped : ((do
      lowerWithin depth body
      mark suspension.exhausted
      finishIteration suspension.state) >>= fun _ => do
        exitScope
        let spills := ((← Emit.method).suspension.map Suspension.spills).getD []
        return (← finish, spills)) entered = .error error state := by
    simpa only [moveNextEnd, bind_assoc] using failed
  obtain failed | ⟨_, ended, ending, failed⟩ := bind_error.mp regrouped
  · exact tidy.proper ready failed
  have kept := tidy.kept ready ending
  obtain failed | ⟨_, _, _, failed⟩ := bind_error.mp failed
  · exact (Tidy.exitScope_error (enters.trans kept.evolves) failed).elim
  · have read : Proper Emit.method := .bind .get fun _ => .pure _
    exact (Proper.bind read fun _ => .bind proper_finish fun _ => .pure _).proper failed

end Iterators

end Emit
end StackCode
