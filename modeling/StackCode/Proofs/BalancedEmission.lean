import StackCode.Proofs.BridgeCollection
import StackCode.Proofs.Contexts

/-!
# Balanced emission

Generating a class whose methods are annotated binds every label once and closes
every scope that it opens.  Wherever a statement is lowered on the way, it leaves
the constructs, the copies of finally bodies and the scopes around it as they
were.
-/

namespace StackCode

open Emit

/-! ## Methods -/

/-- A method without constructs. -/
theorem proper_prepared
    {context : MethodContext} {step : Emit Unit}
    (started : ∀ cls, Bare [] [] { method := context, cls })
    (preparing : Preparing step) :
    Proper (onMethod context do
      step
      finish) := by
  refine ⟨?_⟩
  intro cls error after failure
  obtain ⟨state, failed⟩ := onMethod_error failure
  obtain failed | ⟨_, _, _, failed⟩ := bind_error.mp failed
  · exact preparing.proper (started cls) failed
  · exact proper_finish.proper failed

namespace IteratorClass

theorem proper_protocolMethods (className : String) (element : Ty) :
    Proper (protocolMethods className element) := by
  rw [protocolMethods_eq]
  refine .bind
    (.ite (.pure _) (.bind ?_ fun box => .bind (.modify _) fun _ => .pure _)) fun bridge =>
    .pure _
  unfold boxElement
  split
  · split
    · exact .pure _
    · exact .throw rfl
  · exact .pure _

theorem proper_layOut (className : String) (method : MethodDecl) (element : Ty) (body : Stmt) :
    Proper (layOut className method element body) := by
  refine .bind .get fun cls => .foldlM (fun layout id => ?_) _
  split
  · exact .pure _
  · exact .throw rfl

theorem proper_entryBody (context : MethodContext) (layout : Layout) (method : MethodDecl)
    (started : ∀ cls, Bare [] [] { method := context, cls }) :
    Proper (onMethod context (entryBody layout method)) := by
  rw [entryBody_eq]
  refine proper_prepared started (.seq (.declareParams _) (.plain ?_))
  exact plain_stateCode method fun _ _ => trivial

/-- Compiling an iterator never breaks the books. -/
theorem proper_compile (method : MethodDecl) (element : Ty) {body : Stmt}
    (distinct : body.Distinct) : Proper (compile method element body) := by
  refine .bind ⟨nofun⟩ fun className => .bind .get fun cls => .bind (.modify _) fun _ => ?_
  refine .bind (proper_layOut _ _ _ _) fun layout => .bind (.modify _) fun _ => ?_
  refine .bind ?_ fun _ => proper_entryBody _ _ _ (bare_start List.nodup_nil _ _ _ _ _)
  refine .bind (.bind .get fun cls => .bind ?_ fun _ => .pure _) fun moveNext => ?_
  · exact proper_moveNext distinct (bare_start distinct.nodup _ _ _ _ _) rfl rfl
  · refine .bind .get fun cls => ?_
    exact .ite (.bind (proper_protocolMethods _ _) fun _ => .modify _)
      (.bind (.pure _) fun _ => .modify _)

end IteratorClass

/-- Generating a method never breaks the books. -/
theorem proper_generateMethod {method : MethodDecl}
    (distinct : ∀ body ∈ method.body, body.Distinct) : Proper (generateMethod method) := by
  refine .bind ?_ fun body => .pure _
  unfold generateBody
  split
  · exact .pure _
  · next body element found _ =>
    exact .bind (IteratorClass.proper_compile method element (distinct body found)) fun _ => .pure _
  · next body found _ =>
    refine .bind .get fun cls => .bind (.modify _) fun _ => .bind ?_ fun _ => .pure _
    rw [plainBody_eq]
    have bodyDistinct := distinct body found
    exact proper_onMethod (bare_start bodyDistinct.nodup _ _ _ _ _)
      (.plainEntry method bodyDistinct)

/-! ## Classes -/

theorem proper_generateBridges (decl : ClassDecl) : Proper (generateBridges decl) := by
  refine ⟨?_⟩
  intro cls error after failure
  unfold generateBridges at failure
  split at failure
  · contradiction
  · next found state collected =>
    cases failure
    exact (Bridging.collectBridges_error collected).2

theorem proper_assemble (decl : ClassDecl) (methods bridges : List MethodDef) :
    Proper (assemble decl methods bridges) := by
  refine .bind .get fun cls => ?_
  dsimp only
  split
  · exact .pure _
  · next error failed =>
    obtain ⟨bundle, entry, failed⟩ := except_foldlM_error failed
    unfold ClassBundle.add at failed
    split at failed
    · contradiction
    · split at failed
      · contradiction
      · cases failed
        exact .throw rfl

/-- Generating a class does not fail because of its books. -/
theorem proper_generate {decl : ClassDecl}
    (distinct : decl.Distinct) :
    Proper (generate decl) := by
  refine .bind (.modify _) fun _ => .bind (proper_generateBridges decl) fun bridges => ?_
  refine .bind (.mapM fun method member => proper_generateMethod (distinct method member))
    fun methods => .bind (proper_assemble decl methods bridges) fun bundle => ?_
  refine .bind .get fun cls => .ite (.bind ?_ fun _ => .pure _) (.pure _)
  exact .forM fun cls _ => .forM fun listing _ => .modify _

/-! ## Balance -/

/-- Everything around a statement is as it was before the statement was lowered. -/
structure Emission.Balanced (before after : Emission) : Prop where
  /-- The same constructs are around the current point. -/
  frames : after.method.frames = before.method.frames
  /-- The same caught exceptions are at hand. -/
  catchSlots : after.method.catchSlots = before.method.catchSlots
  /-- The same switches are around the current point. -/
  switches : after.method.switches = before.method.switches
  /-- As many copies of finally bodies are in progress. -/
  layers : after.method.labels.layers.length = before.method.labels.layers.length
  /-- The current point is in as many finally bodies. -/
  finallyDepth : after.method.finallyDepth = before.method.finallyDepth
  /-- As many scopes are open. -/
  scopes : after.code.scopes.length = before.code.scopes.length
  /-- The scopes in which slots are saved are the same. -/
  scopeMarks :
    after.method.suspension.map Suspension.scopeMarks =
      before.method.suspension.map Suspension.scopeMarks
  /-- The regions of the constructs around the current point are open. -/
  isOpen : ∀ frame ∈ after.method.frames, ∀ region ∈ frame.region?, after.IsOpen region

/-- A step that keeps the books is balanced. -/
theorem Emission.Kept.balanced
    {before after : Emission} {ids : List StmtId} {labels : List Label} {regions : List RegionId}
    (kept : before.Kept before.method.setting ids labels regions after) :
    before.Balanced after where
  frames := by
    have same := congrArg MethodContext.frames kept.setting
    exact same
  catchSlots := by
    have same := congrArg MethodContext.catchSlots kept.setting
    exact same
  switches := by
    have same := congrArg MethodContext.switches kept.setting
    exact same
  layers := by
    have same := congrArg List.length kept.evolves.labels.owned
    simpa using same
  finallyDepth := by
    have same := congrArg MethodContext.finallyDepth kept.setting
    exact same
  scopes := by
    have same := congrArg List.length kept.evolves.scopes
    simpa using same
  scopeMarks := by
    have same := congrArg (Option.map Suspension.scopeMarks) kept.evolves.suspension
    rw [Option.map_map, Option.map_map] at same
    exact same
  isOpen := kept.framed.isOpen

/--
Generating an annotated class binds no label twice and closes no scope that is
not open, and lowering a statement on the way leaves everything around the
statement as it was.
-/
theorem balanced_emission (decl : ClassDecl) (config : Config) :
    (∀ error, (decl.annotate.generate config).result = .error error →
      (∀ label first second, error ≠ .labelMarkedTwice label first second) ∧
        error ≠ .scopeUnderflow) ∧
    ∀ body stmt state, LoweredAt decl.annotate body stmt state →
      ∀ depth after,
        (lower stmt state = .ok () after ∨ lowerWithin depth stmt state = .ok () after) →
        state.Balanced after := by
  refine ⟨?_, ?_⟩
  · intro error failed
    have proper : error.breaksBookkeeping = false := by
      unfold ClassDecl.generate at failed
      split at failed
      · contradiction
      · next found cls generated =>
        cases failed
        exact (proper_generate decl.distinct_annotate).proper generated
    refine ⟨?_, ?_⟩
    · rintro label first second rfl
      contradiction
    · rintro rfl
      contradiction
  · intro body stmt state loweredAt depth after lowered
    have inOrder := loweredAt.inOrder decl.distinct_annotate
    obtain lowered | lowered := lowered
    · exact ((Tidy.lowerWithin (nestingBound state.method.frames stmt)
        inOrder.distinguished).kept inOrder.ready lowered).balanced
    · exact ((Tidy.lowerWithin depth inOrder.distinguished).kept inOrder.ready lowered).balanced

/-- A method that returns from a statement with a finally body. -/
def guardedReturn : MethodDecl :=
  { name := "m", body := some (.guard {} (.ret {} none) [] (some (.empty {}))) }

/-- The finally body is lowered twice, and everything around the statement is as it was. -/
theorem balanced_emission_guardedReturn :
    ∃ body state after,
      LoweredAt (ClassDecl.annotate { name := "A", methods := [guardedReturn] }) body body state ∧
        lower body state = .ok () after ∧ after.code.size = 4 ∧ state.Balanced after := by
  let body := (Stmt.guard {} (.ret {} none) [] (some (.empty {}))).annotate
  let start : Emission :=
    { method := .start "A" "m" false .void true, cls := { name := "A", config := {} } }
  obtain ⟨_, after, run, size⟩ : ∃ (value : Unit) (after : Emission),
      (do plainEntry guardedReturn.annotate body; lower body) start = .ok value after ∧
        decide (after.code.size = 4) :=
    exists_ok (by decide +kernel)
  obtain ⟨state, entering, lowered⟩ := seq_ok.mp run
  have loweredAt : LoweredAt
      (ClassDecl.annotate { name := "A", methods := [guardedReturn] }) body body state :=
    ⟨state, Entered.plain List.mem_cons_self rfl entering, .body⟩
  refine ⟨body, state, after, loweredAt, lowered, of_decide_eq_true size, ?_⟩
  exact (balanced_emission { name := "A", methods := [guardedReturn] } {}).2 body body state
    loweredAt 0 after (.inl lowered)

end StackCode
