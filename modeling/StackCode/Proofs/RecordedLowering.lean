import StackCode.Proofs.Ancestry
import StackCode.Proofs.GuardedLowering

/-!
# What statements register

Lowering a statement registers the entries of the emissions that lie in it, one
for each construct of each statement that is emitted.
-/

namespace StackCode
namespace Emit
namespace Silently

variable {Known : Stmt → Prop}

theorem nextYield? : Silently Known nextYield? := by
  refine bind .method fun method => ?_
  cases method.suspension with
  | none => exact pure _
  | some suspension =>
    refine bind .method fun _ => ?_
    exact seq (modifyMethod fun _ => ⟨rfl, rfl, rfl⟩) (pure _)

/-- A suspension protects nothing. -/
theorem lowerElement (suspension : Suspension) (span : Span) (value : Expr) :
    Silently Known (lowerElement suspension span value) := by
  refine seq (code (.checkSuspendable span)) (bind nextYield? fun found => ?_)
  cases found with
  | none => exact code (.fail rfl)
  | some found =>
    refine seq (code (.log _ _)) (seq (code (.load _ _)) (seq (code (.pushValue .all)) ?_))
    refine seq (code (.putField trivial fun _ => trivial)) (seq (code (.load _ _)) ?_)
    refine seq (code (.push _)) (seq (code (.putField trivial fun _ => trivial)) ?_)
    refine seq (code (.saveLive fun _ => trivial)) (seq (code (.op _)) (seq (code (.op _)) ?_))
    exact seq (mark _) (code .reloadLive)

end Silently

namespace Records

variable {Known : Stmt → Prop} {Wanted : Stmt → Nat → Prop} {lower : Lowering}
variable {body : Stmt} {depth : Nat} {tag : StmtTag}

/-! ## Exits -/

/-- A step among outer frames; what is detached comes back. -/
theorem withOuterFrames {step : Emit Unit} (depth : Nat) (records : Records Known Wanted step) :
    Records Known Wanted (withOuterFrames depth step) := by
  intro before _ after success framed
  obtain ⟨detached, _, detaching, rest⟩ := bind_ok.mp success
  obtain ⟨between, stepped, restored⟩ := seq_ok.mp rest
  cases detaching
  let inner := before.method.frames.length - depth
  let outside : Emission :=
    { before with method := { before.method with frames := before.method.frames.drop inner } }
  have detaches : before.Silent Known outside :=
    { grows := .refl _
      ascends := fun _ _ ascends => ascends
      frames := fun frame member => framed frame (List.mem_of_mem_drop member)
      regions := rfl }
  obtain ⟨entries, sites, registers, covers⟩ := records outside _ _ stepped detaches.frames
  have restores : Silently Known (restoreFrames (before.method.frames.take inner)) := by
    refine .frames fun frames framedOutside frame member => ?_
    obtain member | member := List.mem_append.mp member
    · exact framed frame (List.mem_of_mem_take member)
    · exact framedOutside frame member
  have restores := restores _ _ _ restored registers.frames
  exact ⟨entries, sites, (registers.ofSilent detaches).andSilent restores, covers⟩

/-- A cleanup lowers the finally body of its frame. -/
theorem cleanup {frame : Frame} (framed : frame.Of Known)
    (lowers : ∀ stmt, Known stmt → Records Known (Emitted [stmt]) (lower stmt)) :
    Records Known (Emitted []) (cleanup lower frame) := by
  obtain ⟨id, kind⟩ := frame
  cases kind with
  | finalized finalizer region =>
    refine (inlineFinalizer (lowers finalizer (framed finalizer region rfl))).mono ?_
    simp [Emitted]
  | monitor slot region => exact ofSilently (.code (.exitMonitor slot))
  | resource slot dispose region => exact ofSilently (.code (.disposeResource slot trivial))
  | iterator slot dispose region => exact ofSilently (.code (.disposeIterator slot trivial))
  | loop => exact ofSilently (.pure ())
  | switch => exact ofSilently (.pure ())
  | labeled => exact ofSilently (.pure ())

/-- Cleanup, an exit and the regions that go on behind it. -/
theorem leaving {cleaning : Emit (List RegionId)} {leave : Emit Unit}
    (cleans : Records Known (Emitted []) cleaning) (leaves : Plainly [] leave) :
    Records Known (Emitted []) (do
      let regions ← cleaning
      leave
      Emit.resumeRegions regions) :=
  bindSilent cleans fun regions => .seq (.code leaves) (.resumeRegions regions)

section

variable (lowers : ∀ stmt, Known stmt → Records Known (Emitted [stmt]) (lower stmt))
include lowers

/-- Leaving constructs emits no construct of its own. -/
theorem cleanupFrames {frames : List Frame} (framed : ∀ frame ∈ frames, frame.Of Known)
    (stays : Frame → Bool) : Records Known (Emitted []) (cleanupFrames lower stays frames) := by
  induction frames with
  | nil => exact ofSilently (.pure _)
  | cons frame outer ih =>
    rw [List.forall_mem_cons] at framed
    refine ite (fun _ => ofSilently (.pure _)) fun _ => ?_
    cases frame.region? with
    | none => exact ih framed.2
    | some region =>
      refine silentSeq (.suspendRegion region) ?_
      refine noneBind (withOuterFrames outer.length (cleanup framed.1 lowers)) fun _ => ?_
      exact bindSilent (ih framed.2) fun _ => .pure _

theorem leaveMethod : Records Known (Emitted []) (leaveMethod lower) :=
  reading fun _ framed => cleanupFrames lowers framed _

theorem leaveFor (target : StmtId) : Records Known (Emitted []) (leaveFor lower target) :=
  reading fun _ framed => cleanupFrames lowers framed _

theorem exitTo (target : StmtId) (label : Label) :
    Records Known (Emitted []) (exitTo lower target label) :=
  leaving (leaveFor lowers target) (.goto trivial)

theorem lowerJump (stmt : Stmt) (label : StmtLabels → Label) :
    Records Known (Emitted []) (lowerJump lower stmt label) :=
  silentBind (.code (.targetOf stmt)) fun target =>
    silentBind (.labelsOf target) fun _ => exitTo lowers target _

theorem lowerGotoCase (stmt : Stmt) (key : Option Expr) :
    Records Known (Emitted []) (lowerGotoCase lower stmt key) := by
  refine silentBind (.code (.targetOf stmt)) fun target => ?_
  refine silentBind (.code (.gotoKey key)) fun key => ?_
  refine silentBind (.code (.looking (fun _ _ => rfl) fun _ => .pure _)) fun label => ?_
  cases label with
  | some label => exact exitTo lowers target label
  | none => exact throw _

/-- A return emits no construct of its own. -/
theorem lowerReturn (value : Option Expr) :
    Records Known (Emitted []) (lowerReturn lower value) := by
  cases value with
  | none => exact leaving (leaveMethod lowers) (.op _)
  | some value =>
    refine silentBind .method fun method => ?_
    refine silentBind (.code (.looking (fun _ _ => rfl) fun _ => .pure _)) fun pending =>
      ite (fun _ => ?_) fun _ => ?_
    · refine silentSeq (.code (.pushValue .all)) (silentBind (.code (.newTemp _)) fun temp => ?_)
      refine silentSeq (.code (.store _ temp)) (bindSilent (leaveMethod lowers) fun regions => ?_)
      exact .seq (.code (.load _ temp)) (.seq (.code (.op _)) (.resumeRegions regions))
    · exact ofSilently (.seq (.code (.pushValue .all)) (.code (.op _)))

/-- Neither does a suspension point. -/
theorem lowerYield (span : Span) (value : Option Expr) :
    Records Known (Emitted []) (lowerYield lower span value) := by
  refine silentBind .method fun method => ?_
  cases method.suspension with
  | none => exact throw _
  | some suspension =>
    cases value with
    | some value => exact ofSilently (.lowerElement suspension span value)
    | none =>
      refine silentBind (.code (.looking (fun _ _ => rfl) fun _ => .pure _)) fun finalizing => ?_
      refine ite (fun _ => silentBind (.code (.fail rfl)) fun _ => ?_) fun _ => ?_
      · exact leaving (leaveMethod lowers) (.finishIteration trivial trivial)
      · exact leaving (leaveMethod lowers) (.finishIteration trivial trivial)

end

/-! ## Conditionals and loops -/

/-- Both branches of a test are emitted. -/
theorem lowerTested
    {thenBranch : Stmt} {elseBranch : Option Stmt} (condition : Expr)
    (thenRecords : Records Known (Emitted [thenBranch]) (lower thenBranch))
    (elseRecords : ∀ found ∈ elseBranch, Records Known (Emitted [found]) (lower found)) :
    Records Known (Emitted (thenBranch :: elseBranch.toList))
      (lowerTested lower condition thenBranch elseBranch) := by
  refine silentBind (.code .newLabel) fun whenTrue =>
    silentBind (.code .newLabel) fun whenFalse => ?_
  refine silentSeq (.code (.branch .all trivial trivial)) (silentSeq (.mark _) ?_)
  cases elseBranch with
  | none => exact seqSilent thenRecords (.mark _)
  | some elseBranch =>
    have rest : Records Known (Emitted [elseBranch]) (do
        let done ← Emit.newLabel
        if thenBranch.completes then Emit.goto done
        Emit.mark whenFalse
        lower elseBranch
        if thenBranch.completes then Emit.mark done) := by
      have elseRecords := elseRecords elseBranch rfl
      refine silentBind (.code .newLabel) fun done =>
        ite (fun _ => silentSeq (.code (.goto trivial)) ?_) fun _ => ?_
      · exact silentSeq (.mark _) (seqSilent elseRecords (.ite (.mark _) (.pure ())))
      · exact silentSeq (.mark _) (seqSilent elseRecords (.ite (.mark _) (.pure ())))
    exact emittedBind thenRecords fun _ => rest

/-- Of a known condition only one branch is emitted. -/
theorem lowerCond
    {thenBranch : Stmt} {elseBranch : Option Stmt} (tag : StmtTag) (condition : Expr)
    (thenRecords : Records Known (Emitted [thenBranch]) (lower thenBranch))
    (elseRecords : ∀ found ∈ elseBranch, Records Known (Emitted [found]) (lower found)) :
    Records Known (Emitted (Stmt.cond tag condition thenBranch elseBranch).lowered)
      (lowerCond lower condition thenBranch elseBranch) := by
  rw [Stmt.lowered, Emit.lowerCond]
  cases condition.constantBool? with
  | none => exact lowerTested condition thenRecords elseRecords
  | some value =>
    cases value with
    | true => exact thenRecords
    | false =>
      cases elseBranch with
      | none => exact ofSilently (.pure ())
      | some elseBranch => exact elseRecords elseBranch rfl

theorem bindElement (decl : LocalDecl) (span : Span) : Silently Known (bindElement decl span) :=
  .bind (.declareLocal decl) fun _ => .code (.storeLocal _ _ _)

section

variable (bodyRecords : Records Known (Emitted [body]) (lower body))
include bodyRecords

theorem lowerLabeled (id : StmtId) :
    Records Known (Emitted [body]) (lowerLabeled lower id body) := by
  refine silentBind (.labelsOf id) fun labels => silentSeq (.pushFrame nofun) ?_
  exact silentSeq (.mark _) (seqSilent bodyRecords (.seq .popFrame (.mark _)))

/-- A loop that is never entered is not emitted. -/
theorem lowerWhile (tag : StmtTag) (condition : Expr) :
    Records Known (Emitted (Stmt.whileLoop tag condition body).lowered)
      (lowerWhile lower tag.id condition body) := by
  rw [Stmt.lowered]
  refine ite (fun never => ?_) fun unknown => ?_
  · rw [if_pos never]
    exact ofSilently (.pure ())
  · rw [if_neg unknown]
    refine silentBind (.labelsOf _) fun labels => silentSeq (.pushFrame nofun) ?_
    refine silentIf (.code (.goto trivial)) ?_
    refine silentSeq (.mark _) (seqSilent bodyRecords (.seq (.mark _) ?_))
    cases condition.constantBool? with
    | some _ => exact .seq (.code (.goto trivial)) (.seq .popFrame (.mark _))
    | none => exact .seq (.code (.branch .all trivial trivial)) (.seq .popFrame (.mark _))

theorem lowerDo (id : StmtId) (condition : Expr) :
    Records Known (Emitted [body]) (lowerDo lower id body condition) := by
  refine silentBind (.labelsOf id) fun labels => silentSeq (.pushFrame nofun) ?_
  refine silentSeq (.mark _) (seqSilent bodyRecords (.seq (.mark _) ?_))
  cases condition.constantBool? with
  | none => exact .seq (.code (.branch .all trivial trivial)) (.seq .popFrame (.mark _))
  | some value =>
    cases value with
    | true => exact .seq (.code (.goto trivial)) (.seq .popFrame (.mark _))
    | false => exact .seq .popFrame (.mark _)

theorem lowerForRounds (id : StmtId) (condition : Option Expr) (update : List Expr) :
    Records Known (Emitted [body]) (lowerForRounds lower id condition update body) := by
  have updates : Silently Known (update.forM evaluate) :=
    .code (.forM update fun expr _ => .evaluate .all)
  refine silentBind (.labelsOf id) fun labels => silentBind (.code .newLabel) fun test => ?_
  refine silentSeq (.pushFrame nofun) ?_
  cases condition with
  | some condition =>
    refine silentSeq (.code (.goto trivial)) (silentSeq (.mark _) (seqSilent bodyRecords ?_))
    refine .seq (.mark _) (.seq updates (.seq (.mark _) ?_))
    exact .seq (.code (.branch .all trivial trivial)) (.seq .popFrame (.mark _))
  | none =>
    refine silentSeq (.mark _) (seqSilent bodyRecords (.seq (.mark _) (.seq updates ?_)))
    exact .seq (.code (.goto trivial)) (.seq .popFrame (.mark _))

/-- What comes before the rounds is emitted before them. -/
theorem lowerFor
    {init : List Stmt} (tag : StmtTag) (condition : Option Expr) (update : List Expr)
    (initRecords : ∀ stmt ∈ init, Records Known (Emitted [stmt]) (lower stmt)) :
    Records Known (Emitted (Stmt.forLoop tag init condition update body).lowered)
      (lowerFor lower tag.id init condition update body) := by
  refine inScope ?_
  have both : ∀ {rounds : Emit Unit}, Records Known (Emitted [body]) rounds →
      Records Known (Emitted (init ++ [body])) (do init.forM lower; rounds) := by
    intro rounds roundsRecord
    exact emittedBind (lowerAll initRecords) fun _ => roundsRecord
  rw [Stmt.lowered]
  cases known : condition.bind Expr.constantBool? with
  | none => exact both (lowerForRounds bodyRecords tag.id condition update)
  | some value =>
    cases value with
    | true => exact both (lowerForRounds bodyRecords tag.id none update)
    | false => exact seqSilent (lowerAll initRecords) (.pure ())

/-! ## Loops over collections -/

/-- The body of a loop is emitted once. -/
theorem lowerArrayLoop
    (tag : StmtTag) (spans : Bool) (labels : StmtLabels) (decl : LocalDecl) (collection : Expr) :
    Records Known (Emitted [body])
      (lowerArrayLoop lower tag spans labels decl collection body) := by
  unfold Emit.lowerArrayLoop
  split
  · exact throw _
  · refine silentSeq (.code (.pushValue .all)) ?_
    refine silentBind (.newSpillTemp _ _) fun array => silentSeq (.code (.store _ array)) ?_
    refine silentBind (.newSpillTemp _ _) fun index => silentSeq (.code (.push _)) ?_
    refine silentSeq (.code (.store _ index)) (silentBind (.code .newLabel) fun test => ?_)
    refine silentSeq (.pushFrame nofun) (silentSeq (.code (.goto trivial)) (silentSeq (.mark _) ?_))
    refine seqSilent (inScope ?_) ?_
    · refine silentSeq (.code (.load _ array)) (silentSeq (.code (.load _ index)) ?_)
      exact silentSeq (.code (.op _)) (silentSeq (bindElement decl _) bodyRecords)
    · refine .seq (.mark _) (.seq (.code (.quiet rfl nofun nofun)) (.seq (.mark _) ?_))
      refine .seq (.code (.load _ index)) (.seq (.code (.load _ array)) (.seq (.code (.op _)) ?_))
      exact .seq (.code (.jump _ trivial)) (.seq .popFrame (.mark _))

theorem lowerIteratorRounds
    (tag : StmtTag) (labels : StmtLabels) (decl : LocalDecl) (slot : Nat)
    (hasNext next : MethodRef) :
    Records Known (Emitted [body])
      (lowerIteratorRounds lower tag labels decl slot hasNext next body) := by
  refine silentSeq (.pushFrame nofun) (silentSeq (.code (.goto trivial)) (silentSeq (.mark _) ?_))
  refine seqSilent (inScope ?_) ?_
  · have rest : Records Known (Emitted [body]) (do Emit.bindElement decl tag.span; lower body) :=
      silentSeq (bindElement decl _) bodyRecords
    refine silentSeq (.code (.load _ slot)) (silentSeq (.code (.invoke trivial)) ?_)
    exact ite (fun _ => silentSeq (.code (.checkCast _)) rest) fun _ => rest
  · refine .seq (.mark _) (.seq (.code (.load _ slot)) (.seq (.code (.invoke trivial)) ?_))
    exact .seq (.code (.jump _ trivial)) (.seq .popFrame (.mark _))

end

/-- The constructs of a statement itself, and what it emits inside. -/
def Whole (stmt : Stmt) (inner : Stmt) (index : Nat) : Prop :=
  (inner = stmt ∧ index < stmt.guardCount) ∨ Emitted stmt.lowered inner index

/-- A statement without a construct of its own. -/
theorem ofLowered {stmt : Stmt} {step : Emit α} (none : stmt.guardCount = 0)
    (records : Records Known (Emitted stmt.lowered) step) : Records Known (Whole stmt) step := by
  refine records.mono ?_
  rintro inner index (⟨-, below⟩ | wanted)
  · omega
  · exact wanted

/-- A loop that disposes of its iterator is a construct. -/
theorem lowerForEach
    {decl : LocalDecl} {collection : Expr} {source : ElementSource} (spans : Bool)
    (known : Known (.forEach tag decl collection source body))
    (bodyRecords : Records Known (Emitted [body]) (lowerWithin depth body)) :
    Records Known (Whole (.forEach tag decl collection source body))
      (lowerForEach (lowerWithin depth) tag spans decl collection source body) := by
  refine inScope (silentBind (.labelsOf _) fun labels => ?_)
  cases source with
  | array => exact ofLowered rfl (lowerArrayLoop bodyRecords tag spans labels decl collection)
  | iterator iterator hasNext next dispose =>
    refine ite (fun _ => silentBind (.code (.fail rfl)) fun _ => ?_) fun _ => ?_
    all_goals
      refine silentSeq (.code (.pushValue .all)) (silentSeq (.code (.invoke trivial)) ?_)
      refine silentBind (.newSpillTemp _ _) fun slot => silentSeq (.code (.store _ slot)) ?_
      have rounds := lowerIteratorRounds bodyRecords tag labels decl slot hasNext next
      cases dispose with
      | none => exact ofLowered rfl rounds
      | some dispose =>
        refine (lowerReleasing (.iterator labels slot) known rounds).mono ?_
        rintro inner index (⟨rfl, below⟩ | wanted)
        · exact .inl ⟨rfl, Nat.lt_one_iff.mp below⟩
        · exact .inr wanted

/-! ## Switches -/

/-- All sections of a switch are emitted. -/
theorem lowerSwitch
    {sections : List Section} (id : StmtId) (selector : Expr) (kind : SelectorKind)
    (bodiesRecord : ∀ stmt ∈ sections.flatMap Section.body,
      Records Known (Emitted [stmt]) (lower stmt)) :
    Records Known (Emitted (sections.flatMap Section.body))
      (lowerSwitch lower id selector kind sections) := by
  refine inScope (silentBind (.labelsOf id) fun labels => ?_)
  refine silentBindOf (.newLabels _) fun starts returned => ?_
  refine silentBind (.code (.caseMap sections starts)) fun cases => ?_
  refine silentSeq (.code (.lowerDispatch (fun _ _ => trivial) .all (fun _ _ => trivial) _
    (fun _ _ => trivial) trivial)) ?_
  refine silentSeq (.modifyMethod fun _ => ⟨rfl, rfl, rfl⟩) ?_
  refine silentSeq (.pushFrame nofun) (seqSilent ?_ (.seq .popFrame (.seq ?_ (.mark _))))
  · have bodies : Records Known _ ((sections.zip starts).forM fun entry => do
        Emit.mark entry.2
        entry.1.body.forM lower) :=
      forM fun entry member => silentSeq (.mark entry.2) (lowerAll fun stmt inside =>
        bodiesRecord stmt (List.mem_flatMap.mpr ⟨_, (List.of_mem_zip member).1, inside⟩))
    refine bodies.mono ?_
    rintro inner index ⟨⟨stmt, member, emits⟩, below⟩
    obtain ⟨found, listed, inside⟩ := List.mem_flatMap.mp member
    obtain ⟨before, after, handedOut⟩ := returned
    have all : (sections.zip starts).map Prod.fst = sections :=
      List.map_fst_zip (newLabels_ok handedOut).1.ge
    rw [← all] at listed
    obtain ⟨entry, paired, rfl⟩ := List.mem_map.mp listed
    exact ⟨entry, paired, ⟨stmt, inside, emits⟩, below⟩
  · exact .modifyMethod fun _ => ⟨rfl, rfl, rfl⟩

/-! ## Resources and monitors -/

theorem acquireResource (spans : Bool) (span : Span) (resource : Resource) :
    Silently Known (acquireResource spans span resource) := by
  refine .seq (.code (.pushValue .all)) ?_
  cases resource.decl with
  | none => exact .bind (.newSpillTemp _ _) fun temp => .seq (.code (.store _ temp)) (.pure temp)
  | some decl =>
    refine .ite (.seq (.code (.op _)) (.bind (.newSpillTemp _ _) fun temp => ?_))
      (.storeDeclared decl span)
    refine .seq (.code (.store _ temp)) (.bind (.declareLocal decl) fun _ => ?_)
    exact .seq (.code (.storeLocal _ _ _)) (.pure temp)

/-- Each resource has an emission of its own. -/
theorem lowerResources
    {left right : List Resource} (spans : Bool)
    (known : Known (.acquire tag (left ++ right) body))
    (bodyRecords : Records Known (Emitted [body]) (lowerWithin depth body)) :
    Records Known
      (fun inner index => (inner = .acquire tag (left ++ right) body ∧
          left.length ≤ index ∧ index < (left ++ right).length) ∨ Emitted [body] inner index)
      (lowerResources (lowerWithin depth) tag spans body right) := by
  induction right generalizing left with
  | nil =>
    refine bodyRecords.mono ?_
    rintro inner index (⟨-, above, below⟩ | wanted)
    · rw [List.append_nil] at below
      omega
    · exact wanted
  | cons resource right ih =>
    refine silentBind (acquireResource spans tag.span resource) fun slot => ?_
    have split : left ++ resource :: right = (left ++ [resource]) ++ right := by simp
    have inside := ih (split ▸ known)
    rw [← split] at inside
    refine (lowerReleasing (.resource left resource right slot spans) known inside).mono ?_
    rintro inner index (⟨rfl, above, below⟩ | wanted)
    · obtain rfl | above := Nat.eq_or_lt_of_le above
      · exact .inl ⟨rfl, rfl⟩
      · refine .inr (.inl ⟨rfl, ?_, below⟩)
        rw [List.length_append]
        exact above
    · exact .inr (.inr wanted)

/-- Every resource is a construct. -/
theorem lowerAcquire
    {resources : List Resource} (spans : Bool)
    (known : Known (.acquire tag resources body))
    (bodyRecords : Records Known (Emitted [body]) (lowerWithin depth body)) :
    Records Known (Whole (.acquire tag resources body))
      (lowerAcquire (lowerWithin depth) tag spans resources body) := by
  have known : Known (.acquire tag ([] ++ resources) body) := known
  refine inScope ((lowerResources spans known bodyRecords).mono ?_)
  rintro inner index (⟨rfl, below⟩ | wanted)
  · exact .inl ⟨rfl, Nat.zero_le _, below⟩
  · exact .inr wanted

/-- A monitor is a construct around its body. -/
theorem lowerSynchronized
    {lock : Expr}
    (known : Known (.synchronized tag lock body))
    (bodyRecords : Records Known (Emitted [body]) (lowerWithin depth body)) :
    Records Known (Whole (.synchronized tag lock body))
      (lowerSynchronized (lowerWithin depth) tag.id lock body) := by
  refine inScope (silentSeq (.code (.pushValue .all)) (silentSeq (.code (.op _)) ?_))
  refine silentBind (.code (.newTemp _)) fun slot => ?_
  refine silentSeq (.code (.store _ slot)) (silentSeq (.code (.op _)) ?_)
  refine (lowerReleasing (.monitor slot) known bodyRecords).mono ?_
  rintro inner index (⟨rfl, below⟩ | wanted)
  · exact .inl ⟨rfl, Nat.lt_one_iff.mp below⟩
  · exact .inr wanted

/-! ## Statements -/

theorem lowerDeclarators (span : Span) (declarators : List Declarator) :
    Silently Known (lowerDeclarators span declarators) := by
  unfold Emit.lowerDeclarators
  induction declarators with
  | nil => exact .pure ()
  | cons declarator declarators ih =>
    refine .seq (.bind (.declareLocal _) fun _ => ?_) ih
    cases declarator.init with
    | some init => exact .seq (.code (.pushValue .all)) (.code (.storeLocal _ _ _))
    | none =>
      refine .bind (.code (.bind (.looking (fun _ _ => rfl) fun _ => .pure _) fun _ => .pure _))
        fun promoted => ?_
      exact .ite (.seq (.code (.pushZero _)) (.code (.storeLocal _ _ _))) (.pure ())

section

variable {depth : Nat}
variable (closed : ∀ stmt child, Known stmt → child ∈ stmt.children → Known child)
include closed

/-- A reachable statement has an emission for each of its constructs. -/
theorem lowerReachable
    (lowers : ∀ stmt, Known stmt → Records Known (Emitted [stmt]) (lowerWithin depth stmt))
    {stmt : Stmt}
    (known : Known stmt) :
    Records Known (Whole stmt) (lowerReachable (lowerWithin depth) stmt) := by
  have children :
      ∀ child ∈ stmt.children, Records Known (Emitted [child]) (lowerWithin depth child) :=
    fun child member => lowers child (closed stmt child known member)
  cases stmt with
  | block tag body => exact ofLowered rfl (inScope (lowerAll children))
  | cond tag condition thenBranch elseBranch =>
    refine ofLowered rfl (lowerCond tag condition (children _ List.mem_cons_self) ?_)
    exact fun found member => children _ (List.mem_cons_of_mem _ (Option.mem_toList.mpr member))
  | whileLoop tag condition body =>
    exact ofLowered rfl (lowerWhile (children _ List.mem_cons_self) tag condition)
  | doLoop tag body condition =>
    exact ofLowered rfl (lowerDo (children _ List.mem_cons_self) tag.id condition)
  | forLoop tag init condition update body =>
    refine ofLowered rfl (lowerFor (children _ ?_) tag condition update ?_)
    · exact List.mem_append_right _ List.mem_cons_self
    · exact fun stmt member => children _ (List.mem_append_left _ member)
  | forEach tag decl collection source body =>
    exact lowerForEach _ known (children _ List.mem_cons_self)
  | switch tag selector kind sections =>
    exact ofLowered rfl (lowerSwitch tag.id selector kind children)
  | guard tag body catches finalizer =>
    have finalizers : ∀ found ∈ finalizer,
        found ∈ (Stmt.guard tag body catches finalizer).children :=
      fun found member => List.mem_append_right _ (Option.mem_toList.mpr member)
    have bodies : ∀ clause ∈ catches,
        clause.body ∈ (Stmt.guard tag body catches finalizer).children :=
      fun clause member =>
        List.mem_append_left _ (List.mem_cons_of_mem _ (List.mem_map_of_mem member))
    refine (lowerGuard known ?_ (children _ ?_) ?_ ?_).mono ?_
    · exact fun found member => closed _ _ known (finalizers found member)
    · exact List.mem_append_left _ List.mem_cons_self
    · exact fun clause member => children _ (bodies clause member)
    · exact fun found member => children _ (finalizers found member)
    · rintro inner index (⟨rfl, below⟩ | wanted)
      · exact .inl ⟨rfl, Nat.lt_one_iff.mp below⟩
      · exact .inr wanted
  | acquire tag resources body => exact lowerAcquire _ known (children _ List.mem_cons_self)
  | synchronized tag lock body => exact lowerSynchronized known (children _ List.mem_cons_self)
  | labeled tag label body =>
    exact ofLowered rfl (lowerLabeled (children _ List.mem_cons_self) tag.id)
  | goto tag label => exact ofLowered rfl (lowerJump lowers _ _)
  | gotoCase tag key => exact ofLowered rfl (lowerGotoCase lowers _ _)
  | breakJump tag label => exact ofLowered rfl (lowerJump lowers _ _)
  | continueJump tag label => exact ofLowered rfl (lowerJump lowers _ _)
  | ret tag value => exact ofLowered rfl (lowerReturn lowers value)
  | throw tag exception => exact ofLowered rfl (ofSilently (.code (.lowerThrow _ fun _ _ => .all)))
  | yield tag value => exact ofLowered rfl (lowerYield lowers _ value)
  | eval tag expr => exact ofLowered rfl (ofSilently (.code (.evaluate .all)))
  | empty tag => exact ofLowered rfl (ofSilently (.pure ()))
  | declare tag declarators => exact ofLowered rfl (ofSilently (lowerDeclarators _ declarators))

/-- What a statement emits has an emission for each of its constructs. -/
theorem lowerWithin (depth : Nat) {stmt : Stmt} (known : Known stmt) :
    Records Known (Emitted [stmt]) (lowerWithin depth stmt) := by
  induction depth generalizing stmt with
  | zero => exact throw _
  | succ depth ih =>
    refine ite (fun reachable => ?_) fun unreachable => ?_
    · refine (lowerReachable closed (fun _ => ih) known).mono ?_
      rintro inner index ⟨⟨_, member, emits⟩, below⟩
      obtain rfl := List.mem_singleton.mp member
      cases emits with
      | self => exact .inl ⟨rfl, below⟩
      | inside _ lowered emits => exact .inr ⟨⟨_, lowered, emits⟩, below⟩
    · refine (ofSilently (.pure ())).mono ?_
      rintro inner index ⟨⟨_, member, emits⟩, below⟩
      obtain rfl := List.mem_singleton.mp member
      cases emits with
      | self reachable => exact absurd reachable unreachable
      | inside reachable => exact absurd reachable unreachable

end

end Records
end Emit
end StackCode
