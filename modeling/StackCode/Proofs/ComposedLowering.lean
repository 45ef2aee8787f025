import StackCode.Proofs.Composition

/-!
# What the lowering of statements is composed of

The lowering of every statement is composed of elementary steps and of the lowering
of other statements: those inside it, and the finally bodies that it copies.  Its
code refers to what the statement mentions, to the class library, and to what is
made up while it is lowered; the methods of its lambdas are found.
-/

namespace StackCode

/-! ## Reading parts of a tree -/

namespace Reads

variable {basis : Basis}

theorem stmts {stmts : List Stmt} (reads : Reads basis (Stmt.listVisits false stmts)) :
    ∀ stmt ∈ stmts, Reads basis (stmt.visits false) := by
  induction stmts with
  | nil => exact nofun
  | cons stmt stmts ih =>
    rw [Stmt.listVisits, append_iff] at reads
    exact List.forall_mem_cons.mpr ⟨reads.1, ih reads.2⟩

theorem optionStmt {stmt : Option Stmt}
    (reads : Reads basis (Stmt.optionVisits false stmt)) :
    ∀ found ∈ stmt, Reads basis (found.visits false) := by
  rintro found ⟨⟩
  exact reads

theorem exprs {exprs : List Expr} (reads : Reads basis (Expr.listVisits false exprs)) :
    ∀ expr ∈ exprs, Reads basis (expr.visits false) := by
  induction exprs with
  | nil => exact nofun
  | cons expr exprs ih =>
    rw [Expr.listVisits, append_iff] at reads
    exact List.forall_mem_cons.mpr ⟨reads.1, ih reads.2⟩

theorem optionExpr {expr : Option Expr}
    (reads : Reads basis (Expr.optionVisits false expr)) :
    ∀ found ∈ expr, Reads basis (found.visits false) := by
  rintro found ⟨⟩
  exact reads

theorem sections {sections : List Section}
    (reads : Reads basis (Section.listVisits false sections)) :
    ∀ section' ∈ sections, ∀ stmt ∈ section'.body, Reads basis (stmt.visits false) := by
  induction sections with
  | nil => exact nofun
  | cons section' sections ih =>
    obtain ⟨labels, body⟩ := section'
    simp only [Section.listVisits, append_iff] at reads
    exact List.forall_mem_cons.mpr ⟨reads.1.2.stmts, ih reads.2⟩

theorem catches {catches : List CatchClause}
    (reads : Reads basis (CatchClause.listVisits false catches)) :
    ∀ clause ∈ catches, Reads basis (clause.body.visits false) := by
  induction catches with
  | nil => exact nofun
  | cons clause catches ih =>
    obtain ⟨type, decl, body⟩ := clause
    simp only [CatchClause.listVisits, append_iff] at reads
    exact List.forall_mem_cons.mpr ⟨reads.1.2, ih reads.2⟩

theorem resources {resources : List Resource}
    (reads : Reads basis (Resource.listVisits false resources)) :
    ∀ resource ∈ resources, Reads basis (resource.init.visits false) := by
  induction resources with
  | nil => exact nofun
  | cons resource resources ih =>
    obtain ⟨decl, init, dispose⟩ := resource
    simp only [Resource.listVisits, append_iff] at reads
    exact List.forall_mem_cons.mpr ⟨reads.1.1, ih reads.2⟩

theorem declarators {declarators : List Declarator}
    (reads : Reads basis (Declarator.listVisits false declarators)) :
    ∀ declarator ∈ declarators, ∀ init ∈ declarator.init, Reads basis (init.visits false) := by
  induction declarators with
  | nil => exact nofun
  | cons declarator declarators ih =>
    obtain ⟨decl, init⟩ := declarator
    simp only [Declarator.listVisits, append_iff, declare_iff] at reads
    exact List.forall_mem_cons.mpr ⟨reads.1.optionExpr, ih reads.2⟩

end Reads

namespace Emit

variable {basis : Basis}
variable {dispose : MethodRef}

namespace ComposedTo

theorem pushValue {expr : Expr} (reads : Reads basis (expr.visits false)) :
    Composed basis fun _ => pushValue expr := code (.pushValue reads)

theorem branch {condition : Expr} (reads : Reads basis (condition.visits false))
    (goals : BranchTargets) : Composed basis fun _ => branch condition goals :=
  code (.branch reads trivial trivial)

theorem rethrowAfter {step : Lowering → Emit Unit}
    (stepComposed : Composed basis step) :
    Composed basis fun lower => rethrowAfter (step lower) :=
  inScope (bind (newTemp _) fun _ => seq (store _ _) (seq stepComposed (seq (load _ _) (op _))))

/-! ## Leaving constructs -/

variable {body : Stmt} {condition collection : Expr} {finalizer : Option Stmt}

theorem resumeRegions (regions : List RegionId) : Composed basis fun _ => resumeRegions regions :=
  forM fun region _ => resumeRegion region

section

variable (library : Library.KnownTo basis.known)
include library

theorem inlineFinalizer
    {finalizer : Stmt}
    (reads : Reads basis (finalizer.visits false)) :
    Composed basis fun lower => inlineFinalizer lower finalizer := by
  refine seq (modifyAside fun _ _ => rfl) (seq (modifyAside fun _ _ => rfl) (seq ?_ ?_))
  · exact .call library reads
  · exact seq (modifyAside fun _ _ => rfl) (modifyAside fun _ _ => rfl)

/-- The frame says what its cleanup refers to. -/
theorem cleanup
    {frame : Frame}
    (refers : ∀ ref ∈ frame.references, basis.known ref)
    (compiled : ∀ lambda, .lambda lambda ∈ frame.visits →
      ∀ found ∈ basis.targets, (found.lookup lambda.id).isSome) :
    Composed basis fun lower => cleanup lower frame := by
  obtain ⟨id, kind⟩ := frame
  cases kind with
  | finalized finalizer region =>
    refine inlineFinalizer library ⟨?_, compiled⟩
    exact fun visit member ref mentioned =>
      refers ref (List.mem_flatMap.mpr ⟨visit, member, mentioned⟩)
  | monitor slot region => exact code (.exitMonitor slot)
  | resource slot dispose region =>
    exact code (.disposeResource slot (refers _ (List.mem_singleton_self _)))
  | iterator slot dispose region =>
    exact code (.disposeIterator slot (refers _ (List.mem_singleton_self _)))
  | loop => exact pure ()
  | switch => exact pure ()
  | labeled => exact pure ()

/-- Each frame that is left is cleaned up. -/
theorem cleanupFrames
    {frames : List Frame} (stays : Frame → Bool)
    (refers : ∀ frame ∈ frames, ∀ ref ∈ frame.references, basis.known ref)
    (compiled : ∀ frame ∈ frames, ∀ lambda, .lambda lambda ∈ frame.visits →
      ∀ found ∈ basis.targets, (found.lookup lambda.id).isSome) :
    Composed basis fun lower => cleanupFrames lower stays frames := by
  induction frames with
  | nil => exact pure []
  | cons frame outer ih =>
    have outerComposed := ih
      (fun other member => refers other (List.mem_cons_of_mem _ member))
      (fun other member => compiled other (List.mem_cons_of_mem _ member))
    unfold Emit.cleanupFrames
    refine ite (pure []) ?_
    split
    · exact outerComposed
    · refine seq (suspendRegion _) (seq (withOuterFrames _ ?_) (bind outerComposed fun _ => pure _))
      exact cleanup library (refers frame List.mem_cons_self) (compiled frame List.mem_cons_self)

/-- The frames of the method are known where they are read. -/
theorem leaveFrames
    (stays : MethodContext → Frame → Bool)
    (unseen : ∀ (method : MethodContext) code, stays { method with code } = stays method) :
    Composed basis fun lower => (do
      let method ← Emit.method
      Emit.cleanupFrames lower (stays method) method.frames) := by
  refine .reading (fun _ method code => by rw [unseen]) fun method resolves => ?_
  refine cleanupFrames ?_ _ ?_ ?_
  · exact fun ref member => .inr (library ref member)
  · exact fun frame member ref inside =>
      .inl (MethodContext.mem_references_of_frame member ref inside)
  · exact fun frame member lambda inside found given =>
      (resolves found given).frames frame member lambda inside

theorem leaveMethod : Composed basis fun lower => leaveMethod lower :=
  leaveFrames library _ fun _ _ => rfl

theorem exitTo (target : StmtId) (label : Label) :
    Composed basis fun lower => exitTo lower target label :=
  bind (leaveFrames library _ fun _ _ => rfl) fun regions =>
    seq (goto label) (resumeRegions regions)

/-! ## Statements -/

theorem lowerJump (stmt : Stmt) (label : StmtLabels → Label) :
    Composed basis fun lower => lowerJump lower stmt label :=
  bind (code (.targetOf stmt)) fun target => bind (labelsOf target) fun _ => exitTo library target _

/-- A jump to a case is the only statement that fails for want of a case. -/
theorem lowerGotoCase
    (stmt : Stmt) (key : Option Expr)
    (own : ∀ found, basis.misses found stmt.span) :
    Composed basis fun lower => lowerGotoCase lower stmt key := by
  refine bind (code (.targetOf stmt)) fun target => bind (code (.gotoKey key)) fun found => ?_
  refine bind (looking (fun _ _ _ => rfl) fun _ => pure _) fun label => ?_
  cases label with
  | some label => exact exitTo library target label
  | none =>
    refine .throw ?_ fun _ => rfl
    rintro _ _ ⟨⟩
    exact own found

/-- A value is kept in a temporary while constructs are cleaned up. -/
theorem lowerReturn
    {value : Option Expr}
    (reads : ∀ found ∈ value, Reads basis (found.visits false)) :
    Composed basis fun lower => lowerReturn lower value := by
  cases value with
  | none =>
    exact bind (leaveMethod library) fun regions => seq (op _) (resumeRegions regions)
  | some value =>
    have pushes : Composed basis fun _ => Emit.pushValue value :=
      pushValue (reads value rfl)
    refine looking (fun _ _ _ => rfl) fun method => ?_
    refine bind (looking (fun _ _ _ => rfl) fun _ => pure _) fun pending => ?_
    refine ite ?_ (seq pushes (op _))
    refine seq pushes (bind (newTemp _) fun temp => seq (store _ _) ?_)
    refine bind (leaveMethod library) fun regions => seq (load _ _) (seq (op _) ?_)
    exact resumeRegions regions

end

/-- Only one branch is lowered where the condition is known. -/
theorem lowerCond
    {thenBranch : Stmt} {elseBranch : Option Stmt}
    (conditionReads : Reads basis (condition.visits false))
    (thenComposed : Composes basis thenBranch)
    (elseComposed : ∀ found ∈ elseBranch, Composes basis found) :
    Composed basis fun lower => lowerCond lower condition thenBranch elseBranch := by
  unfold Emit.lowerCond
  split
  · exact thenComposed
  · exact optionForM elseComposed
  · refine bind .newLabel fun _ => bind .newLabel fun _ => seq (branch conditionReads _) ?_
    refine seq (.mark _) (seq thenComposed ?_)
    cases elseBranch with
    | none => exact .mark _
    | some elseBranch =>
      have rest : ∀ whenFalse done, Composed basis fun lower => (do
          Emit.mark whenFalse
          lower elseBranch
          if thenBranch.completes then Emit.mark done) := fun _ _ =>
        seq (.mark _) (seq (elseComposed elseBranch rfl) (ite (.mark _) (pure ())))
      exact bind .newLabel fun _ => ite (seq (goto _) (rest _ _)) (rest _ _)

/-- The condition is tested behind the body. -/
theorem lowerWhile
    (id : StmtId)
    (conditionReads : Reads basis (condition.visits false))
    (bodyComposed : Composes basis body) :
    Composed basis fun lower => lowerWhile lower id condition body := by
  unfold Emit.lowerWhile
  refine ite (pure ()) (bind (labelsOf id) fun labels => seq (pushLoop id) ?_)
  refine seqIf (goto _) (seq (.mark _) (seq bodyComposed (seq (.mark _) ?_)))
  split
  · exact seq (goto _) (seq popFrame (.mark _))
  · exact seq (branch conditionReads _) (seq popFrame (.mark _))

theorem lowerDo
    (id : StmtId)
    (conditionReads : Reads basis (condition.visits false))
    (bodyComposed : Composes basis body) :
    Composed basis fun lower => lowerDo lower id body condition := by
  refine bind (labelsOf id) fun labels => seq (pushLoop id) (seq (.mark _) (seq bodyComposed ?_))
  refine seq (.mark _) ?_
  split
  · exact seq (goto _) (seq popFrame (.mark _))
  · exact seq popFrame (.mark _)
  · exact seq (branch conditionReads _) (seq popFrame (.mark _))

/-- The rounds of a loop with a counter. -/
theorem lowerForRounds
    {condition : Option Expr} {update : List Expr} (id : StmtId)
    (conditionReads : ∀ found ∈ condition, Reads basis (found.visits false))
    (updateReads : ∀ expr ∈ update, Reads basis (expr.visits false))
    (bodyComposed : Composes basis body) :
    Composed basis fun lower => lowerForRounds lower id condition update body := by
  refine bind (labelsOf id) fun labels => bind .newLabel fun test => seq (pushLoop id) ?_
  have updates : Composed basis fun _ => update.forM Emit.evaluate :=
    forM fun expr member => code (.evaluate (updateReads expr member))
  cases condition with
  | none =>
    refine seq (.mark _) (seq bodyComposed (seq (.mark _) (seq updates ?_)))
    exact seq (goto _) (seq popFrame (.mark _))
  | some condition =>
    refine seq (goto _)
      (seq (.mark _) (seq bodyComposed (seq (.mark _) (seq updates (seq (.mark _) ?_)))))
    exact seq (branch (conditionReads condition rfl) _) (seq popFrame (.mark _))

/-- The rounds share the scope of what comes before them. -/
theorem lowerFor
    {init : List Stmt} {condition : Option Expr} {update : List Expr} (id : StmtId)
    (initComposed : ∀ stmt ∈ init, Composes basis stmt)
    (conditionReads : ∀ found ∈ condition, Reads basis (found.visits false))
    (updateReads : ∀ expr ∈ update, Reads basis (expr.visits false))
    (bodyComposed : Composes basis body) :
    Composed basis fun lower => lowerFor lower id init condition update body := by
  refine inScope (seq (forM initComposed) ?_)
  split
  · exact pure ()
  · exact lowerForRounds id nofun updateReads bodyComposed
  · exact lowerForRounds id conditionReads updateReads bodyComposed

theorem bindElement (decl : LocalDecl) (span : Span) :
    Composed basis fun _ => bindElement decl span :=
  andThen (.declareLocal decl) fun _ => code (.storeLocal _ _ _)

/-- A loop over the elements of an array. -/
theorem lowerArrayLoop
    (tag : StmtTag) (spans : Bool) (labels : StmtLabels) (decl : LocalDecl)
    (collectionReads : Reads basis (collection.visits false))
    (bodyComposed : Composes basis body) :
    Composed basis fun lower => lowerArrayLoop lower tag spans labels decl collection body := by
  unfold Emit.lowerArrayLoop
  split
  · exact fail rfl
  · refine seq (pushValue collectionReads) (bind (newSpillTemp _ _) fun array => seq (store _ _) ?_)
    refine bind (newSpillTemp _ _) fun index => seq (push _) (seq (store _ _) ?_)
    refine bind .newLabel fun test => seq (pushLoop _) (seq (goto _) (seq (.mark _) (seq ?_ ?_)))
    · refine inScope (seq (load _ _) (seq (load _ _) (seq (op _) ?_)))
      exact seq (bindElement decl _) bodyComposed
    · refine seq (.mark _) (seq (.emit nofun) (seq (.mark _) (seq (load _ _) (seq (load _ _) ?_))))
      exact seq (op _) (seq (jump _ _) (seq popFrame (.mark _)))

/-- A loop that asks for elements. -/
theorem lowerIteratorRounds
    {hasNext next : MethodRef} (tag : StmtTag) (labels : StmtLabels) (decl : LocalDecl) (slot : Nat)
    (hasNextKnown : basis.known (.method hasNext))
    (nextKnown : basis.known (.method next))
    (bodyComposed : Composes basis body) :
    Composed basis fun lower =>
      lowerIteratorRounds lower tag labels decl slot hasNext next body := by
  refine seq (pushLoop _) (seq (goto _) (seq (.mark _) (seq (inScope ?_) ?_)))
  · have rest : Composed basis fun lower => (do
        Emit.bindElement decl tag.span
        lower body) :=
      seq (bindElement decl _) bodyComposed
    refine seq (load _ _) (seq (invoke nextKnown) ?_)
    exact ite (seq (checkCast _) rest) rest
  · refine seq (.mark _) (seq (load _ _) (seq (invoke hasNextKnown) (seq (jump _ _) ?_)))
    exact seq popFrame (.mark _)

/-- What an iterator holds is released however its loop is left. -/
theorem lowerDisposing
    {rounds : Lowering → Emit Unit} (id : StmtId) (slot : Nat)
    (disposeKnown : basis.known (.method dispose))
    (roundsComposed : Composed basis rounds) :
    Composed basis fun lower => lowerDisposing id slot dispose (rounds lower) := by
  refine bind openRegion fun region => seq (pushFrame id ?_ nofun) (seq roundsComposed ?_)
  · exact fun ref member => List.mem_singleton.mp member ▸ disposeKnown
  · refine seq popFrame (bind (closeRegion region) fun segments => bind .newLabel fun after => ?_)
    refine seq (code (.disposeIterator slot disposeKnown)) (seq (goto _) (bind .here fun _ => ?_))
    refine seq (protect _ _ _) (seq (rethrowAfter ?_) (.mark _))
    exact code (.disposeIterator slot disposeKnown)

/-- A loop over an iterator may have to dispose of it. -/
theorem lowerIteratorLoop
    {iterator hasNext next : MethodRef} {dispose : Option MethodRef} (tag : StmtTag) (spans : Bool)
    (labels : StmtLabels) (decl : LocalDecl)
    (collectionReads : Reads basis (collection.visits false))
    (iteratorKnown : basis.known (.method iterator))
    (hasNextKnown : basis.known (.method hasNext))
    (nextKnown : basis.known (.method next))
    (disposeKnown : ∀ found ∈ dispose, basis.known (.method found))
    (bodyComposed : Composes basis body) :
    Composed basis fun lower =>
      lowerIteratorLoop lower tag spans labels decl collection iterator hasNext next dispose
        body := by
  refine ite (bind (fail rfl) fun _ => ?_) ?_
  all_goals
    refine seq (pushValue collectionReads) (seq (invoke iteratorKnown) ?_)
    refine bind (newSpillTemp _ _) fun slot => seq (store _ _) ?_
    cases dispose with
    | none => exact lowerIteratorRounds tag labels decl slot hasNextKnown nextKnown bodyComposed
    | some dispose =>
      refine lowerDisposing _ slot (disposeKnown dispose rfl) ?_
      exact lowerIteratorRounds tag labels decl slot hasNextKnown nextKnown bodyComposed

/-- What a loop over elements calls is what it mentions. -/
theorem lowerForEach
    {decl : LocalDecl} {source : ElementSource} (tag : StmtTag) (spans : Bool)
    (mentions : ∀ ref ∈ (Stmt.forEach tag decl collection source body).mentions, basis.known ref)
    (collectionReads : Reads basis (collection.visits false))
    (bodyComposed : Composes basis body) :
    Composed basis fun lower => lowerForEach lower tag spans decl collection source body := by
  refine inScope (bind (labelsOf _) fun labels => ?_)
  cases source with
  | array => exact lowerArrayLoop tag spans labels decl collectionReads bodyComposed
  | iterator iterator hasNext next dispose =>
    refine lowerIteratorLoop tag spans labels decl collectionReads ?_ ?_ ?_ ?_ bodyComposed
    · exact mentions _ (by simp [Stmt.mentions])
    · exact mentions _ (by simp [Stmt.mentions])
    · exact mentions _ (by simp [Stmt.mentions])
    · exact fun found member => mentions _ (by simp_all [Stmt.mentions])

/-- The sections of a switch follow each other. -/
theorem lowerPlaced
    {placed : List (Section × Label)} (id : StmtId) (cases : CaseMap) (stop : Label)
    (bodiesComposed : ∀ entry ∈ placed, ∀ stmt ∈ entry.1.body,
      Composes basis stmt) :
    Composed basis fun lower => lowerPlaced lower id cases placed stop := by
  refine seq (modifyAside fun _ _ => rfl) (seq (pushFrame _ nofun nofun) (seq (forM ?_) ?_))
  · exact fun entry member => seq (.mark _) (forM (bodiesComposed entry member))
  · exact seq popFrame (seq (modifyAside fun _ _ => rfl) (.mark _))

/-- A switch dispatches first; its sections follow. -/
theorem lowerSwitch
    {selector : Expr} {kind : SelectorKind} {sections : List Section}
    (library : Library.KnownTo basis.known)
    (tag : StmtTag)
    (mentions : ∀ ref ∈ (Stmt.switch tag selector kind sections).mentions, basis.known ref)
    (selectorReads : Reads basis (selector.visits false))
    (bodiesComposed : ∀ section' ∈ sections, ∀ stmt ∈ section'.body,
      Composes basis stmt) :
    Composed basis fun lower => lowerSwitch lower tag.id selector kind sections := by
  refine inScope (bind (labelsOf _) fun labels => bind (newLabels _) fun starts => ?_)
  refine bind (code (.caseMap sections starts)) fun cases => ?_
  refine seq (code (.lowerDispatch library selectorReads ?_ sections ?_ trivial))
    (lowerPlaced _ _ _ ?_)
  · rintro ordinal rfl
    exact mentions _ (List.mem_singleton_self _)
  · exact fun _ _ => trivial
  · exact fun entry member => bodiesComposed entry.1 (List.of_mem_zip member).1

theorem bindException (clause : CatchClause) : Composed basis fun _ => bindException clause := by
  unfold Emit.bindException
  split
  · exact storeDeclared _ _
  · exact bind (newTemp _) fun temp => seq (store _ _) (pure temp)

theorem lowerCatchBody
    {clause : CatchClause}
    (bodyComposed : Composes basis clause.body) :
    Composed basis fun lower => lowerCatchBody lower clause := by
  refine inScope (bind (bindException clause) fun slot => ?_)
  refine seq (modifyAside fun _ _ => rfl) (seq bodyComposed ?_)
  exact modifyAside fun _ _ => rfl

theorem pushFinalized
    {finalizer : Stmt} (id : StmtId) (region : RegionId)
    (reads : Reads basis (finalizer.visits false)) :
    Composed basis fun _ => Emit.pushFrame id (.finalized finalizer region) := by
  refine pushFrame id ?_ reads.compiled
  intro ref member
  obtain ⟨visit, visited, mentioned⟩ := List.mem_flatMap.mp member
  exact reads.mentions visit visited ref mentioned

section

variable (library : Library.KnownTo basis.known)
include library

theorem finishPart
    (finalizerReads : ∀ found ∈ finalizer, Reads basis (found.visits false))
    (part : Stmt) (done : Label) :
    Composed basis fun lower => finishPart lower part finalizer done := by
  refine ite (seq (optionForM fun found member => ?_) (goto done)) (pure ())
  exact inlineFinalizer library (finalizerReads found member)

/-- A handler is protected if there is a finally body. -/
theorem lowerCatch
    {clause : CatchClause} (id : StmtId) (done : Label) (segments : List (Label × Label))
    (finalizerReads : ∀ found ∈ finalizer, Reads basis (found.visits false))
    (bodyComposed : Composes basis clause.body) :
    Composed basis fun lower => lowerCatch lower id finalizer done segments clause := by
  refine bind .here fun handler =>
    seq (protect _ _ _) (bind ?_ fun guarded => seq ?_ (pure guarded))
  · cases finalizer with
    | none => exact seq (lowerCatchBody bodyComposed) (pure [])
    | some finalizer =>
      refine bind openRegion fun region => seq (pushFinalized id region (finalizerReads _ rfl)) ?_
      exact seq (lowerCatchBody bodyComposed) (seq popFrame (closeRegion region))
  · exact finishPart library finalizerReads _ _

/-- A try statement with its handlers and its finally body. -/
theorem lowerGuard
    {catches : List CatchClause} (id : StmtId)
    (bodyComposed : Composes basis body)
    (catchesComposed : ∀ clause ∈ catches, Composes basis clause.body)
    (finalizerReads : ∀ found ∈ finalizer, Reads basis (found.visits false)) :
    Composed basis fun lower => lowerGuard lower id body catches finalizer := by
  refine bind .newLabel fun done => bind ?_ fun segments =>
    seq ?_ (bind (mapM ?_) fun guarded => ?_)
  · refine bind openRegion fun region =>
      seq (optionForM fun found member => ?_) (seq bodyComposed ?_)
    · exact pushFinalized id region (finalizerReads found member)
    · exact ite (seq popFrame (closeRegion region)) (closeRegion region)
  · exact finishPart library finalizerReads _ _
  · exact fun clause member =>
      lowerCatch library id done segments finalizerReads (catchesComposed clause member)
  · refine seq (optionForM fun found member => bind .here fun handler => ?_) (.mark done)
    refine seq (protect _ _ _) (rethrowAfter ?_)
    exact inlineFinalizer library (finalizerReads found member)

end

/-- A part is protected, and what it holds is released behind it. -/
theorem lowerReleasing
    {kind : RegionId → FrameKind} {part release : Lowering → Emit Unit} (id : StmtId)
    (completes : Bool)
    (refers : ∀ region, ∀ ref ∈ Frame.references ⟨id, kind region⟩, basis.known ref)
    (compiled : ∀ region lambda, .lambda lambda ∈ Frame.visits ⟨id, kind region⟩ →
      ∀ found ∈ basis.targets, (found.lookup lambda.id).isSome)
    (partComposed : Composed basis part)
    (releaseComposed : Composed basis release) :
    Composed basis fun lower => lowerReleasing id kind completes (part lower) (release lower) := by
  refine bind openRegion fun region => seq (pushFrame id (refers region) (compiled region)) ?_
  refine seq partComposed (seq popFrame (bind (closeRegion region) fun segments => ?_))
  refine bind .newLabel fun done => ?_
  have rest : Composed basis fun lower => (do
      Emit.protect segments (← Emit.here) none
      Emit.rethrowAfter (release lower)
      Emit.mark done) :=
    bind .here fun _ => seq (protect _ _ _) (seq (rethrowAfter releaseComposed) (.mark _))
  exact ite (seq releaseComposed (seq (goto _) rest)) rest

theorem lowerSynchronized
    {lock : Expr} (id : StmtId)
    (lockReads : Reads basis (lock.visits false))
    (bodyComposed : Composes basis body) :
    Composed basis fun lower => lowerSynchronized lower id lock body := by
  refine inScope (seq (pushValue lockReads) (seq (op _) (bind (newTemp _) fun slot => ?_)))
  refine seq (store _ _)
    (seq (op _) (lowerReleasing id _ ?_ ?_ bodyComposed (code (.exitMonitor slot))))
  · exact fun _ => nofun
  · exact fun _ _ => nofun

theorem acquireResource
    {resource : Resource} (spans : Bool) (span : Span)
    (initReads : Reads basis (resource.init.visits false)) :
    Composed basis fun _ => acquireResource spans span resource := by
  refine seq (pushValue initReads) ?_
  split
  · exact bind (newSpillTemp _ _) fun temp => seq (store _ _) (pure temp)
  · refine ite ?_ (storeDeclared _ _)
    refine seq (op _) (bind (newSpillTemp _ _) fun temp => seq (store _ _) ?_)
    exact andThen (.declareLocal _) fun _ => seq (code (.storeLocal _ _ _)) (pure temp)

/-- Each resource protects those after it, and the body. -/
theorem lowerResources
    {resources : List Resource} (tag : StmtTag) (spans : Bool)
    (disposesKnown : ∀ resource ∈ resources, basis.known (.method resource.dispose))
    (resourceReads : ∀ resource ∈ resources, Reads basis (resource.init.visits false))
    (bodyComposed : Composes basis body) :
    Composed basis fun lower => lowerResources lower tag spans body resources := by
  induction resources with
  | nil => exact bodyComposed
  | cons resource resources ih =>
    rw [List.forall_mem_cons] at disposesKnown resourceReads
    refine bind (acquireResource spans _ resourceReads.1) fun slot => ?_
    refine lowerReleasing _ _ ?_ (fun _ _ => nofun)
      (ih disposesKnown.2 resourceReads.2) (code (.disposeResource slot disposesKnown.1))
    exact fun _ ref member => List.mem_singleton.mp member ▸ disposesKnown.1

/-! ## Suspension -/

theorem nextYield? : Composed basis fun _ => nextYield? := by
  refine looking (fun _ _ _ => rfl) fun method => ?_
  split
  · exact pure _
  · refine looking (fun _ _ _ => rfl) fun _ => seq (modifyAside fun _ _ => rfl) (pure _)

/-- An element is handed out in the fields of the iteration. -/
theorem lowerElement
    {suspension : Suspension} {value : Expr} (span : Span)
    (refers : ∀ ref ∈ suspension.references, basis.known ref)
    (valueReads : Reads basis (value.visits false)) :
    Composed basis fun _ => lowerElement suspension span value := by
  refine seq (code (.checkSuspendable span)) (bind nextYield? fun found => ?_)
  split
  · exact fail rfl
  · refine seq (.log _ _) (seq (load _ _) (seq (pushValue valueReads) (seq (putField ?_) ?_)))
    · exact refers _ (by simp [Suspension.references])
    · refine seq (load _ _)
        (seq (push _) (seq (putField ?_) (seq (code (.saveLive fun _ => trivial)) (seq (op _) ?_))))
      · exact refers _ (by simp [Suspension.references])
      · exact seq (op _) (seq (.mark _) (code .reloadLive))

theorem lowerDeclarators
    {declarators : List Declarator} (span : Span)
    (initReads : ∀ declarator ∈ declarators, ∀ init ∈ declarator.init,
      Reads basis (init.visits false)) :
    Composed basis fun _ => lowerDeclarators span declarators := by
  refine forM fun declarator member => andThen (.declareLocal _) fun _ => ?_
  split
  · next init found =>
    exact seq (pushValue (initReads declarator member init found)) (code (.storeLocal _ _ _))
  · refine bind (isPromoted _) fun _ => ite ?_ (pure ())
    exact seq (code (.pushZero _)) (code (.storeLocal _ _ _))

theorem lowerLabeled (id : StmtId)
    (bodyComposed : Composes basis body) :
    Composed basis fun lower => lowerLabeled lower id body := by
  refine bind (labelsOf id) fun labels => seq (pushFrame id nofun nofun) (seq (.mark _) ?_)
  exact seq bodyComposed (seq popFrame (.mark _))

section

variable (library : Library.KnownTo basis.known)
include library

/-- Ending an iteration leaves all constructs; an element suspends it. -/
theorem lowerYield
    {value : Option Expr} (span : Span)
    (valueReads : ∀ found ∈ value, Reads basis (found.visits false)) :
    Composed basis fun lower => lowerYield lower span value := by
  refine .reading (fun _ _ _ => rfl) fun method _ => ?_
  have library : Library.KnownTo (basis.knowing method.references).known :=
    fun ref member => .inr (library ref member)
  split
  · exact fail rfl
  · next suspension suspended =>
    have refers := MethodContext.mem_references_of_suspension suspended
    cases value with
    | some value =>
      exact lowerElement span (fun ref member => .inl (refers ref member))
        ((valueReads value rfl).mono fun _ => .inr)
    | none =>
      have rest : Composed (basis.knowing method.references) fun lower => (do
          let regions ← Emit.leaveMethod lower
          Emit.finishIteration suspension.state
          Emit.resumeRegions regions) := by
        refine bind (leaveMethod library) fun regions => seq (code (.finishIteration ?_ trivial)) ?_
        · exact .inl (refers _ (by simp [Suspension.references]))
        · exact resumeRegions regions
      refine bind (looking (fun _ _ _ => rfl) fun _ => pure _) fun _ => ?_
      exact ite (bind (fail rfl) fun _ => rest) rest

/-- Lowering a statement is composed of steps and of the lowering of other statements. -/
theorem lowerReachable
    {stmt : Stmt}
    (reads : Reads basis (stmt.visits false))
    (own : ∀ tag key, stmt = .gotoCase tag key → ∀ found, basis.misses found stmt.span) :
    Composed basis fun lower => lowerReachable lower stmt := by
  have lowered : ∀ {stmt : Stmt}, Reads basis (stmt.visits false) →
      Composes basis stmt := fun reads => .call library reads
  cases stmt with
    simp only [Stmt.visits, Reads.append_iff, Reads.enter_iff, Reads.declare_iff] at reads
  | block tag body =>
    exact inScope (forM fun stmt member => lowered (reads.1.2.stmts stmt member))
  | cond tag condition thenBranch elseBranch =>
    obtain ⟨⟨⟨⟨-, conditionReads⟩, thenReads⟩, elseReads⟩, -⟩ := reads
    exact lowerCond conditionReads (lowered thenReads)
      fun found member => lowered (elseReads.optionStmt found member)
  | whileLoop tag condition body =>
    exact lowerWhile tag.id reads.1.1.2 (lowered reads.1.2)
  | doLoop tag body condition =>
    exact lowerDo tag.id reads.1.2 (lowered reads.1.1.2)
  | forLoop tag init condition update body =>
    obtain ⟨⟨⟨⟨⟨-, initReads⟩, conditionReads⟩, bodyReads⟩, updateReads⟩, -⟩ := reads
    exact lowerFor tag.id (fun stmt member => lowered (initReads.stmts stmt member))
      conditionReads.optionExpr updateReads.exprs (lowered bodyReads)
  | forEach tag decl collection source body =>
    obtain ⟨⟨⟨mentions, collectionReads⟩, bodyReads⟩, -⟩ := reads
    exact lowerForEach tag _ mentions collectionReads (lowered bodyReads)
  | switch tag selector kind sections =>
    obtain ⟨⟨⟨mentions, selectorReads⟩, sectionsRead⟩, -⟩ := reads
    exact lowerSwitch library tag mentions selectorReads
      fun section' member stmt inside => lowered (sectionsRead.sections section' member stmt inside)
  | guard tag body catches finalizer =>
    obtain ⟨⟨⟨⟨-, bodyReads⟩, catchesRead⟩, finalizerReads⟩, -⟩ := reads
    exact lowerGuard library tag.id (lowered bodyReads)
      (fun clause member => lowered (catchesRead.catches clause member)) finalizerReads.optionStmt
  | acquire tag resources body =>
    obtain ⟨⟨⟨mentions, resourcesRead⟩, bodyReads⟩, -⟩ := reads
    refine inScope (lowerResources tag _ ?_ resourcesRead.resources (lowered bodyReads))
    exact fun resource member => mentions _ (List.mem_map_of_mem member)
  | synchronized tag lock body =>
    exact lowerSynchronized tag.id reads.1.1.2 (lowered reads.1.2)
  | labeled tag label body =>
    exact lowerLabeled tag.id (lowered reads.1.2)
  | goto tag label => exact lowerJump library _ _
  | gotoCase tag key => exact lowerGotoCase library _ _ (own tag key rfl)
  | breakJump tag label => exact lowerJump library _ _
  | continueJump tag label => exact lowerJump library _ _
  | ret tag value =>
    exact lowerReturn library reads.1.2.optionExpr
  | throw tag exception =>
    exact code (.lowerThrow tag.span reads.1.2.optionExpr)
  | yield tag value =>
    exact lowerYield library tag.span reads.1.2.optionExpr
  | eval tag expr =>
    exact code (.evaluate reads.1.2)
  | empty tag => exact pure ()
  | declare tag declarators =>
    exact lowerDeclarators tag.span reads.1.2.declarators

end

theorem lowerStmt
    {misses : CaseKey → Span → Prop} (stmt : Stmt)
    (own : ∀ tag key, stmt = .gotoCase tag key → ∀ found, misses found stmt.span) :
    Composed (.free misses) fun lower => Emit.lowerReachable lower stmt :=
  lowerReachable (fun _ _ => trivial) .all own

/-! ## Lambdas -/

theorem lambdaHome (scope : ClosureScope) (slot : Option Nat) (host : LambdaHost) :
    Composed basis fun _ => lambdaHome scope slot host := by
  cases host with
  | scope =>
    unfold Emit.lambdaHome
    dsimp only
    split
    · exact pure _
    · exact fail rfl
  | receiver => exact looking (fun _ _ _ => rfl) fun _ => pure _
  | static => exact .readingClass (fun _ _ _ _ _ => rfl) fun _ => pure _

theorem registerLambda
    {misses : CaseKey → Span → Prop} (id : LambdaId) (target : LambdaTarget) :
    Composed (.free misses) fun _ => registerLambda id target :=
  .modifyMethod (fun _ _ => rfl) nofun

/-! ## Iterators -/

theorem beginSuspension
    {misses : CaseKey → Span → Prop}
    (className : String) (element : Ty) (count : Nat) (promoted : List (LocalId × FieldRef)) :
    Composed (.free misses) fun _ => beginSuspension className element count promoted := by
  refine bind (newLabels _) fun resume => bind .newLabel fun exhausted => ?_
  exact seq (.modifyMethod (fun _ _ => rfl) nofun) (pure _)

end ComposedTo
end Emit
end StackCode
