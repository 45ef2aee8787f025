import StackCode.Proofs.Contexts
import StackCode.Proofs.RecordedLowering
import StackCode.Proofs.Resumption

/-!
# The order of the exception table

The machine takes the first entry that fits, so the order of the table decides
which handler runs.  In the code of a body, whatever it is a body of, the ranges
of one handler follow one another, the entries of an inner construct come before
those of an outer one, and the entries of a try statement follow its clauses.
-/

namespace StackCode

open Emit

variable {code : MethodBody}

/-! ## Before and after a body -/

namespace Emit.Silently

variable {Known : Stmt → Prop}

/-- The method is left alone. -/
theorem ofMethod {step : Emit α}
    (same : ∀ before value after, step before = .ok value after → after.method = before.method) :
    Silently Known step := by
  intro before value after success framed
  have same := same before value after success
  have code : after.code = before.code := congrArg MethodContext.code same
  refine ofSame framed ?_ (by rw [code]) (by rw [same]) (by rw [same])
  rw [code]
  exact .refl _

theorem forM {values : List α} {step : α → Emit Unit}
    (stepSilent : ∀ value ∈ values, Silently Known (step value)) :
    Silently Known (values.forM step) :=
  forM_of_steps (pure ()) (fun first rest => bind first fun _ => rest) stepSilent

theorem reserveSelf : Silently Known reserveSelf := by
  refine bind .method fun method => ite ?_ (pure ())
  exact bind (code (.allocate _ _)) fun _ => pure _

theorem declareLocals (params : List LocalDecl) :
    Silently Known (params.forM fun param => discard (Emit.declareLocal param)) :=
  forM fun param _ => bind (declareLocal param) fun _ => pure _

theorem setAccess (id : LocalId) (access : LocalAccess) : Silently Known (setAccess id access) :=
  modifyMethod fun _ => ⟨rfl, rfl, rfl⟩

theorem makeScope (scope : ClosureScope) (name : String) (params : List LocalDecl) :
    Silently Known (makeScope scope name params) := by
  rw [makeScope_eq]
  refine bind (code (.scopeCode trivial trivial ?_ ?_ ?_ params)) fun slot =>
    seq (forM fun entry _ => setAccess _ _) (pure slot)
  · exact fun _ _ => trivial
  · exact fun _ _ _ => trivial
  · exact fun _ => trivial

/-- Lambdas are compiled into code of their own. -/
theorem prepareWithin (depth : Nat) (body : Stmt) (params : List LocalDecl) :
    Silently Known (prepareWithin depth body params) := by
  cases depth with
  | zero => exact ite (pure ()) (ofMethod fun _ _ _ success => (defect_ok.mp success).elim)
  | succ depth =>
    refine bind .method fun outside => bind (code (.planLambdas _ _ _)) fun planned => ?_
    refine bind ?_ fun slot => seq (forM fun plan _ => ?_) ?_
    · unfold Emit.makeScope?
      split
      · exact bind (makeScope _ _ params) fun _ => pure _
      · exact pure _
    · refine bind (ofMethod fun _ _ _ success => ?_) fun home => ?_
      · rw [(lambdaHome_cases success).1]
      · refine bind (ofMethod fun _ _ _ success => (compileLambda_ok success).1) fun target => ?_
        exact modifyMethod fun _ => ⟨rfl, rfl, rfl⟩
    · unfold Emit.addScopeClass
      cases planned.2.toClass? with
      | none => exact pure ()
      | some cls =>
        refine seq (code (.log _ _)) (ofMethod fun _ _ _ success => ?_)
        obtain rfl := modifyClass_ok.mp success
        rfl

theorem setParents (body : Stmt) : Silently Known (setParents body) :=
  modifyMethod fun _ => ⟨rfl, rfl, rfl⟩

theorem declareParams (params : List LocalDecl) : Silently Known (declareParams params) :=
  seq reserveSelf (declareLocals params)

theorem plainEntry (method : MethodDecl) (body : Stmt) : Silently Known (plainEntry method body) :=
  seq (declareParams _) (seq (prepareWithin _ _ _) (setParents body))

theorem lambdaEntry
    (depth : Nat) (lambda : Lambda) (access : List (LocalId × LocalAccess))
    (selfPath : List FieldRef) :
    Silently Known (lambdaEntry (Emit.prepareWithin depth) lambda access selfPath) := by
  refine seq (seq (declareParams _) (seq (forM fun _ _ => setAccess _ _) ?_)) ?_
  · exact modifyMethod fun _ => ⟨rfl, rfl, rfl⟩
  · exact seq (prepareWithin _ _ _) (setParents _)

theorem returnAtEnd (body : Stmt) : Silently Known (returnAtEnd body) := by
  refine ite (bind .method fun method => ?_) (pure ())
  exact ite (code (.op _)) (code (.fail rfl))

theorem moveNextStart (layout : IteratorClass.Layout) (body : Stmt) :
    Silently Known (moveNextStart layout body) := by
  refine seq reserveSelf (seq (modifyMethod fun _ => ⟨rfl, rfl, rfl⟩) ?_)
  refine bind ?_ fun suspension => seq (forM fun _ _ => setAccess _ _) (pure _)
  refine bind (newLabels _) fun resume => bind (code .newLabel) fun exhausted => ?_
  exact seq (modifyMethod fun _ => ⟨rfl, rfl, rfl⟩) (pure _)

theorem moveNextEntry
    (layout : IteratorClass.Layout) (method : MethodDecl) (body : Stmt) (suspension : Suspension) :
    Silently Known (moveNextEntry layout method body suspension) := by
  refine seq (forM fun param _ => ?_) (seq (plain (.dispatchState trivial)) ?_)
  · exact ite (bind (declareLocal param) fun _ => pure _) (pure ())
  · exact seq (prepareWithin _ _ _) (setParents body)

/-- Nothing is registered before a body. -/
theorem entry (compilation : Compilation) : Silently Known compilation.entry := by
  cases compilation with
  | plain => exact plainEntry _ _
  | lambda => exact lambdaEntry _ _ _ _
  | iterator layout method body =>
    exact bind (moveNextStart layout body) fun _ => seq enterScope (moveNextEntry _ _ _ _)

/-- Nothing is registered after a body. -/
theorem ending (body : Stmt) (suspension : Option Suspension) :
    Silently Known (Compilation.ending body suspension) := by
  cases suspension with
  | none => exact returnAtEnd body
  | some suspension => exact seq (mark _) (seq (code (.finishIteration trivial trivial)) exitScope)

end Emit.Silently

/-! ## Generated bodies -/

/-- The emissions of the protected constructs of a body account for the table of its code. -/
structure Accounts (body : Stmt) (code : MethodBody) (sites : List GuardSite) : Prop where
  /-- They are emissions of statements of the body in its code. -/
  rendered : ∃ emitted : Code, emitted.finish = .ok code ∧
    ∀ site ∈ sites, site.stmt ∈ body.statements ∧
      ∃ depth, site.Renders (lowerWithin depth) emitted
  placed : ∀ site ∈ sites, site.Placed ∧ site.last ≤ code.instructions.size
  /-- There is one for each construct of each statement that is emitted. -/
  covers : ∀ inner, body.Emits inner → ∀ index < inner.guardCount,
    ∃ site ∈ sites, site.stmt = inner ∧ site.index = index
  /-- Every entry is for a handler of one of them. -/
  complete : ∀ entry ∈ code.exceptions, ∃ site ∈ sites, entry.handler ∈ site.handlers
  /-- No two of them share a handler. -/
  distinct : (sites.flatMap GuardSite.handlers).Nodup

/-- The table is sorted by handlers, and each handler has the entries that it takes. -/
structure MethodBody.Arranged (code : MethodBody) (sites : List GuardSite) : Prop where
  sorted : code.exceptions.Pairwise fun earlier later => earlier.handler ≤ later.handler
  fits : ∀ site ∈ sites, site.Fits code.exceptions

/-- The table has the entries that are registered while the body is lowered. -/
theorem arranged_of_run
    {body : Stmt} {start entered lowered ended : Emission}
    (enters : start.Silent (· ∈ body.statements) entered)
    (empty : start.code.regions = #[])
    (lowering : lower body entered = .ok () lowered)
    (ends : lowered.FramesOf (· ∈ body.statements) → lowered.Silent (· ∈ body.statements) ended)
    (finished : ended.code.finish = .ok code) :
    ∃ sites, Accounts body code sites ∧ code.Arranged sites := by
  have closed : ∀ stmt child, stmt ∈ body.statements → child ∈ stmt.children →
      child ∈ body.statements := fun stmt child member inside =>
    Stmt.mem_statements_trans member (Stmt.mem_statements_of_mem_children inside)
  have lowering : lowerWithin (nestingBound entered.method.frames body) body entered =
      .ok () lowered := lowering
  obtain ⟨entries, sites, registers, covers⟩ := Records.lowerWithin closed _
    (Stmt.mem_statements_self body) _ _ _ lowering enters.frames
  have registers := (registers.ofSilent enters).andSilent (ends registers.frames)
  have finishes := Code.finishes_of_finish finished
  have table : code.exceptions = entries := by
    have tabled : start.code.Tabled := by simp [Code.Tabled, empty]
    rw [finishes.exceptions_eq, registers.tables.table tabled]
    simp [Code.table, empty]
  have size : code.instructions.size = ended.code.size := by
    rw [finishes.instructions]
    rfl
  refine ⟨sites,
    { rendered := ⟨ended.code, finished, fun site member => ?_⟩
      placed := fun site member => ?_
      covers := fun inner emits index below => ?_
      complete := fun entry member => ?_
      distinct := registers.distinct },
    { sorted := ?_
      fits := fun site member => ?_ }⟩
  · exact ⟨(registers.stands site member).known, (registers.stands site member).rendered⟩
  · rw [size]
    exact ⟨(registers.stands site member).placed, (registers.stands site member).ends⟩
  · exact covers inner index ⟨⟨body, List.mem_singleton_self _, emits⟩, below⟩
  · rw [table] at member
    obtain found | found := registers.complete entry member
    · exact (List.not_mem_nil found).elim
    · exact found
  · rw [table]
    exact registers.tables.sorted
  · rw [table]
    exact (registers.stands site member).fits

/-- The emissions of a generated body. -/
theorem Generates.arranged {body : Stmt} (generates : Generates body code) :
    ∃ sites, Accounts body code sites ∧ code.Arranged sites := by
  obtain @⟨compilation, debugInfo, cls, _, _, generated⟩ := generates
  have empty : (compilation.first debugInfo cls).code.regions = #[] := by cases compilation <;> rfl
  have unframed : (compilation.first debugInfo cls).FramesOf (· ∈ compilation.body.statements) := by
    cases compilation <;> exact nofun
  obtain ⟨start, lowered, ended, suspension, entering, lowering, ending, finished⟩ :=
    Compilation.code_ok generated
  exact arranged_of_run (Silently.entry _ _ _ _ entering unframed) empty lowering
    (Silently.ending _ _ _ _ _ ending) finished

/-! ## The order of the table -/

namespace MethodBody

/-- The ranges that a handler is for, in the order of the table. -/
def rangesFor (code : MethodBody) (handler : Nat) : List (Nat × Nat) :=
  (code.exceptions.filter fun entry => entry.handler = handler).map fun entry =>
    (entry.start, entry.stop)

/-- In the table, all entries for one handler come before all entries for another. -/
def Prefers (code : MethodBody) (handler other : Nat) : Prop :=
  ∀ (i j : Nat) (entry later : ExceptionEntry),
    code.exceptions[i]? = some entry → code.exceptions[j]? = some later →
      entry.handler = handler → later.handler = other → i < j

/-- Handlers that begin earlier come first. -/
theorem Arranged.prefers {code : MethodBody} {sites : List GuardSite}
    (arranged : code.Arranged sites)
    {handler other : Nat} (behind : handler < other) : code.Prefers handler other := by
  rintro i j entry later found found' rfl rfl
  by_contra wrong
  obtain ⟨inBounds, rfl⟩ := List.getElem?_eq_some_iff.mp found
  obtain ⟨inBounds', rfl⟩ := List.getElem?_eq_some_iff.mp found'
  obtain rfl | before := Nat.eq_or_lt_of_le (Nat.le_of_not_lt wrong)
  · omega
  · have := List.pairwise_iff_getElem.mp arranged.sorted j i inBounds' inBounds before
    omega

end MethodBody

/-- The entry is for a position. -/
def ExceptionEntry.Protects (entry : ExceptionEntry) (position : Nat) : Prop :=
  entry.start ≤ position ∧ position < entry.stop

/-- The entries for a handler of a construct are for the ranges that it protects. -/
theorem GuardSite.Fits.rangesFor_eq
    {site : GuardSite}
    (fits : site.Fits code.exceptions)
    {handler : Nat}
    (member : handler ∈ site.handlers) :
    code.rangesFor handler = site.rangesOf handler := by
  have project : ∀ (ranges : List (Nat × Nat)) (catchType : Option String),
      (ranges.map (Code.entryOf handler catchType)).map
        (fun entry => (entry.start, entry.stop)) = ranges := by
    intro ranges catchType
    rw [List.map_map]
    exact List.map_id _
  unfold GuardSite.rangesOf MethodBody.rangesFor
  split
  · next last => rw [fits.catchAll handler last, project]
  · next other =>
    obtain member | member := List.mem_append.mp member
    · obtain ⟨clause, listed, rfl⟩ := List.mem_map.mp member
      rw [fits.clauses clause listed, project]
    · exact absurd (Option.mem_toList.mp member) other

/-- The range of an entry lies between the block of its construct and its handler. -/
theorem GuardSite.Fits.bounds
    {site : GuardSite}
    (fits : site.Fits code.exceptions)
    (placed : site.Placed)
    {entry : ExceptionEntry}
    (listed : entry ∈ code.exceptions)
    (member : entry.handler ∈ site.handlers) :
    site.block.start ≤ entry.start ∧ entry.stop ≤ entry.handler ∧
      (site.catchAll ≠ some entry.handler → entry.stop ≤ site.block.stop) := by
  have found : (entry.start, entry.stop) ∈ site.rangesOf entry.handler := by
    rw [← fits.rangesFor_eq member]
    exact List.mem_map.mpr ⟨entry, List.mem_filter.mpr ⟨listed, by simp⟩, rfl⟩
  obtain ⟨begins, -, ends⟩ := (placed.together _ member).bounds _ found
  refine ⟨begins, ends, fun other => ?_⟩
  rw [GuardSite.rangesOf, if_neg other] at found
  exact ((placed.successive site.block List.mem_cons_self).bounds _ found).2.2

/-- The order of a table with regard to the emissions that account for it. -/
structure MethodBody.Ordered (code : MethodBody) (sites : List GuardSite) : Prop where
  /-- The ranges of one handler are not empty, follow one another and lie in the code. -/
  ranges : ∀ site ∈ sites, ∀ handler ∈ site.handlers,
    Successive 0 (code.rangesFor handler) code.instructions.size
  /--
  Where two entries are for one position, that of the construct which is emitted
  inside a protected part of the other one comes first.
  -/
  innerFirst : ∀ inner ∈ sites, ∀ outer ∈ sites, ∀ part ∈ outer.parts,
    part.start ≤ inner.first → inner.last ≤ part.stop →
      ∀ (i j : Nat) (entry later : ExceptionEntry),
        code.exceptions[i]? = some entry → code.exceptions[j]? = some later →
          entry.handler ∈ inner.handlers → later.handler ∈ outer.handlers →
            (∃ position, entry.Protects position ∧ later.Protects position) → i < j
  /-- The entries for earlier clauses come first, and those for what catches everything last. -/
  clauseOrder : ∀ site ∈ sites, site.handlers.Pairwise code.Prefers
  /--
  All clauses protect the ranges of the block, and what catches everything protects
  the ranges of all parts.
  -/
  clauses : ∀ site ∈ sites, site.Fits code.exceptions

/-- The entries for what is inside a protected part are for handlers that begin earlier. -/
theorem MethodBody.Arranged.inner_lt_outer
    {sites : List GuardSite}
    (arranged : code.Arranged sites)
    (placed : ∀ site ∈ sites, site.Placed)
    {inner outer : GuardSite}
    (innerListed : inner ∈ sites)
    (outerListed : outer ∈ sites)
    {part : ProtectedPart}
    (protects : part ∈ outer.parts)
    (begins : part.start ≤ inner.first)
    (ends : inner.last ≤ part.stop)
    {entry later : ExceptionEntry}
    (listed : entry ∈ code.exceptions)
    (listed' : later ∈ code.exceptions)
    (member : entry.handler ∈ inner.handlers)
    (member' : later.handler ∈ outer.handlers)
    {position : Nat}
    (covered : entry.Protects position)
    (covered' : later.Protects position) :
    entry.handler < later.handler := by
  have innerPlaced := placed inner innerListed
  have outerPlaced := placed outer outerListed
  have inside := innerPlaced.inside member
  suffices part.stop ≤ later.handler by omega
  obtain rfl | guarded := List.mem_cons.mp protects
  · exact outerPlaced.behind _ member'
  · obtain ⟨behind, before⟩ := outerPlaced.guarded part guarded
    by_cases last : outer.catchAll = some later.handler
    · exact before _ last
    · -- Only what catches everything is for positions in a catch body.
      have bounds := (arranged.fits inner innerListed).bounds innerPlaced listed member
      have bounds' :=
        ((arranged.fits outer outerListed).bounds outerPlaced listed' member').2.2 last
      have := innerPlaced.begins
      have := covered.1
      have := covered'.2
      omega

/--
The exception table of a generated body, for the emissions that account for it: the
ranges of one handler follow one another, entries of inner constructs come first, and
those of a try statement are in the order of its clauses.
-/
theorem Generates.table_ordered {body : Stmt} {code : MethodBody}
    (generates : Generates body code) :
    ∃ sites, Accounts body code sites ∧ code.Ordered sites := by
  obtain ⟨sites, accounts, arranged⟩ := generates.arranged
  have placed := fun site member => (accounts.placed site member).1
  refine ⟨sites, accounts,
    { ranges := fun site member handler found => ?_
      innerFirst := ?_
      clauseOrder := fun site member => ?_
      clauses := arranged.fits }⟩
  · rw [(arranged.fits site member).rangesFor_eq found]
    have within := (placed site member).ends handler found
    have ends := (accounts.placed site member).2
    have inside : handler ≤ code.instructions.size := by omega
    exact (((placed site member).together handler found).mono inside).anti (Nat.zero_le _)
  · rintro inner innerListed outer outerListed part protects begins ends i j entry later found
      found' member member' ⟨position, covered, covered'⟩
    have behind := arranged.inner_lt_outer placed innerListed outerListed protects begins ends
      (List.mem_of_getElem? found) (List.mem_of_getElem? found') member member' covered covered'
    exact arranged.prefers behind i j entry later found found' rfl rfl
  · exact (placed site member).ordered.imp fun behind => arranged.prefers behind

/-- A method that returns while it holds a monitor, inside a statement with two handlers. -/
def guardedLock : MethodDecl :=
  let receiver : Expr := .self { type := .object }
  let locked : Stmt := .block {} [.eval {} receiver, .ret {} none]
  { name := "m"
    body := some (.guard {} (.synchronized {} receiver locked)
      [{ type := some .object, decl := none, body := .empty {} }] (some (.empty {}))) }

/-- The handlers of the monitor and of both clauses share the positions before the return. -/
theorem Generates.table_ordered_guardedLock :
    ∃ body code sites,
      Generates body code ∧
        code.exceptions.map (fun entry => (entry.start, entry.stop, entry.handler)) =
          [(4, 6, 9), (0, 8, 14), (9, 14, 14), (0, 8, 16), (9, 14, 16), (14, 15, 16)] ∧
        Accounts body code sites ∧ code.Ordered sites := by
  let body := guardedLock.annotate.body.getD default
  let start : Emission :=
    { method := .start "A" "m" false .void true, cls := { name := "A", config := {} } }
  obtain ⟨code, after, generated, table⟩ : ∃ code after,
      plainBody guardedLock.annotate body start = .ok code after ∧
        decide (code.exceptions.map (fun entry => (entry.start, entry.stop, entry.handler)) =
          [(4, 6, 9), (0, 8, 14), (9, 14, 14), (0, 8, 16), (9, 14, 16), (14, 15, 16)]) :=
    exists_ok (by decide +kernel)
  have generates : Generates body code :=
    @Generates.intro (.plain "A" guardedLock.annotate body) true _ _ _ generated
  obtain ⟨sites, accounts, ordered⟩ := Generates.table_ordered generates
  exact ⟨body, code, sites, generates, of_decide_eq_true table, accounts, ordered⟩

end StackCode
