import StackCode.Proofs.Distinctness
import StackCode.Proofs.Finishing
import StackCode.Proofs.Generating
import StackCode.Proofs.Tidiness

/-!
# What comes before a body is lowered

Before a body is lowered, its method gets its parameters, the lambdas of the body
are compiled, and an iterator gets its points of resumption.  All this happens
outside of every construct and keeps the books.
-/

namespace StackCode

/-! ## Failures that are not due to the books -/

/-- A step that never fails because of the books. -/
structure Proper (step : EStateM Error σ α) : Prop where
  proper : ∀ {before error after}, step before = .error error after →
    error.breaksBookkeeping = false

namespace Proper

variable {σ : Type}
variable {values : List α}

theorem pure (value : α) : Proper (pure value : EStateM Error σ α) := ⟨nofun⟩

theorem throw {error : Error} (proper : error.breaksBookkeeping = false) :
    Proper (throw error : EStateM Error σ α) := by
  refine ⟨?_⟩
  intro before other after failure
  cases failure
  exact proper

theorem modify (change : σ → σ) : Proper (modify change : EStateM Error σ PUnit) := ⟨nofun⟩

theorem get : Proper (get : EStateM Error σ σ) := ⟨nofun⟩

theorem bind
    {first : EStateM Error σ α} {next : α → EStateM Error σ β}
    (firstProper : Proper first)
    (nextProper : ∀ value, Proper (next value)) :
    Proper (first >>= next) := by
  refine ⟨?_⟩
  intro before error after failure
  obtain failed | ⟨value, _, -, failed⟩ := bind_error.mp failure
  · exact firstProper.proper failed
  · exact (nextProper value).proper failed

theorem ite {condition : Prop} [Decidable condition] {first second : EStateM Error σ α}
    (firstProper : Proper first) (secondProper : Proper second) :
    Proper (if condition then first else second) := by
  split
  · exact firstProper
  · exact secondProper

theorem forM {step : α → EStateM Error σ PUnit}
    (stepProper : ∀ value ∈ values, Proper (step value)) :
    Proper (values.forM step) :=
  forM_of_steps (pure _) (fun first rest => bind first fun _ => rest) stepProper

theorem mapM {step : α → EStateM Error σ β} (stepProper : ∀ value ∈ values, Proper (step value)) :
    Proper (values.mapM step) := by
  induction values with
  | nil => exact pure _
  | cons value values ih =>
    rw [List.mapM_cons]
    refine bind (stepProper value List.mem_cons_self) fun _ => bind (ih ?_) fun _ =>
      pure _
    exact fun other member => stepProper other (List.mem_cons_of_mem _ member)

theorem foldlM {step : β → α → EStateM Error σ β}
    (stepProper : ∀ state value, Proper (step state value)) (start : β) :
    Proper (values.foldlM step start) := by
  induction values generalizing start with
  | nil => exact pure _
  | cons value values ih =>
    rw [List.foldlM_cons]
    exact bind (stepProper start value) ih

end Proper

namespace Emit

theorem proper_finish : Proper finish := by
  refine .bind (.bind .get fun _ => .pure _) fun method => ?_
  cases finished : method.code.finish with
  | ok body => exact .pure body
  | error error =>
    obtain ⟨label, rfl, -⟩ := Code.finish_error finished
    exact .throw rfl

/-! ## Outside of every construct -/

/-- No construct is around the current point, and the books are in order. -/
structure Bare (ids : List StmtId) (labels : List Label) (state : Emission) : Prop where
  ready : state.Ready state.method.setting ids labels []
  frames : state.method.frames = []

/-- A step outside of every construct that keeps the books. -/
structure Preparing (step : Emit α) : Prop where
  bare : ∀ {ids labels before value after}, Bare ids labels before →
    step before = .ok value after → Bare ids labels after ∧ before.Evolves after
  proper : ∀ {ids labels before error after}, Bare ids labels before →
    step before = .error error after → error.breaksBookkeeping = false

namespace Preparing

variable {step : Emit α}

/-- The second step knows what the first one may return. -/
theorem bindKnown
    {first : Emit α} {next : α → Emit β}
    (firstPreparing : Preparing first)
    (nextPreparing : ∀ value, (∃ before after, first before = .ok value after) →
      Preparing (next value)) :
    Preparing (first >>= next) where
  bare := by
    intro ids labels before _ after bare success
    obtain ⟨value, between, firstSuccess, nextSuccess⟩ := bind_ok.mp success
    obtain ⟨bareBetween, evolves⟩ := firstPreparing.bare bare firstSuccess
    have second := nextPreparing value ⟨before, between, firstSuccess⟩
    obtain ⟨bareAfter, evolvesAfter⟩ := second.bare bareBetween nextSuccess
    exact ⟨bareAfter, evolves.trans evolvesAfter⟩
  proper := by
    intro ids labels before error after bare failure
    obtain failure | ⟨value, between, firstSuccess, failure⟩ := bind_error.mp failure
    · exact firstPreparing.proper bare failure
    · obtain ⟨bareBetween, -⟩ := firstPreparing.bare bare firstSuccess
      exact (nextPreparing value ⟨before, between, firstSuccess⟩).proper bareBetween failure

theorem bind
    {first : Emit α} {next : α → Emit β}
    (firstPreparing : Preparing first)
    (nextPreparing : ∀ value, Preparing (next value)) :
    Preparing (first >>= next) :=
  .bindKnown firstPreparing fun value _ => nextPreparing value

theorem seq
    {first : Emit PUnit} {next : Emit β}
    (firstPreparing : Preparing first)
    (nextPreparing : Preparing next) :
    Preparing (first >>= fun _ => next) :=
  .bind firstPreparing fun _ => nextPreparing

/-- A change that the books do not show. -/
theorem ofBooks
    (books : ∀ {before value after}, step before = .ok value after →
      before.SameBooks after ∧ after.method.frames = before.method.frames)
    (stepProper : Proper step) :
    Preparing step where
  bare := by
    intro ids labels before value after bare success
    obtain ⟨same, frames⟩ := books success
    have bareFrames : after.method.frames = [] := frames.trans bare.frames
    have framed : after.Framed := by
      refine ⟨?_, ?_⟩
      · simp [bareFrames]
      · simp [bareFrames]
    exact ⟨⟨same.ready bare.ready framed, bareFrames⟩, same.evolves⟩
  proper := fun _ failure => stepProper.proper failure

theorem unseen (stepUnseen : Tidy.Unseen step) : Preparing step := by
  refine ofBooks ?_ ⟨stepUnseen.proper⟩
  intro before value after success
  obtain ⟨books, setting⟩ := stepUnseen.books success
  have frames := congrArg MethodContext.frames setting
  exact ⟨books, frames⟩

/-- Plain steps are allowed outside of constructs. -/
theorem plain (stepPlain : Plainly [] step) : Preparing step where
  bare := by
    intro ids labels before value after bare success
    have cuts : Cuts (fun _ => True) before after := .plain stepPlain success
    have ready := cuts.ready bare.ready (fun _ _ _ _ => trivial) fun _ _ => trivial
    rw [← cuts.setting] at ready
    exact ⟨⟨ready, cuts.frames.trans bare.frames⟩, cuts.evolves⟩
  proper := fun _ failure => stepPlain.proper rfl List.nodup_nil nofun failure

theorem pure (value : α) : Preparing (pure value : Emit α) := plain (.pure value)

theorem method : Preparing method := by
  refine ofBooks ?_ ⟨nofun⟩
  intro before _ after success
  obtain ⟨-, rfl⟩ := method_ok.mp success
  exact ⟨.refl _, rfl⟩

theorem modifyMethod
    {change : MethodContext → MethodContext}
    (same : ∀ state : Emission, state.SameBooks (state.mapMethod change))
    (frames : ∀ method, (change method).frames = method.frames) :
    Preparing (modifyMethod change) := by
  refine ofBooks ?_ ⟨nofun⟩
  intro before _ after success
  obtain rfl := modifyMethod_ok.mp success
  exact ⟨same before, frames _⟩

theorem forM {values : List α} {step : α → Emit PUnit}
    (stepPreparing : ∀ value ∈ values, Preparing (step value)) :
    Preparing (values.forM step) :=
  forM_of_steps (pure _) seq stepPreparing

theorem optionForM {value : Option α} {step : α → Emit PUnit}
    (stepPreparing : ∀ found ∈ value, Preparing (step found)) :
    Preparing (value.forM step) := by
  cases value with
  | none => exact pure _
  | some found => exact stepPreparing found rfl

/-- Another method is generated. -/
theorem aside {step : Generation α} (stepProper : Proper step) : Preparing (aside step) := by
  refine ofBooks ?_ ⟨?_⟩
  · intro before value after success
    obtain ⟨cls, -, rfl⟩ := aside_ok.mp success
    exact ⟨{ Emission.SameBooks.refl before with }, rfl⟩
  · intro before error after failure
    obtain ⟨_, stopped⟩ := aside_error failure
    exact stepProper.proper stopped

theorem cls : Preparing cls := by
  refine ofBooks ?_ ⟨nofun⟩
  intro before value after success
  cases success
  exact ⟨.refl _, rfl⟩

theorem modifyClass (change : ClassContext → ClassContext) : Preparing (modifyClass change) := by
  refine ofBooks ?_ ⟨nofun⟩
  intro before _ after success
  obtain rfl := modifyClass_ok.mp success
  exact ⟨{ Emission.SameBooks.refl before with }, rfl⟩

theorem reserveSelf : Preparing reserveSelf := by
  refine bind .method fun method => ?_
  split
  · exact bind (plain (.allocate _ _)) fun _ => pure _
  · exact pure _

theorem declareLocals (params : List LocalDecl) :
    Preparing (params.forM fun param => discard (declareLocal param)) :=
  forM fun param _ => bind (unseen (.declareLocal param)) fun _ => pure _

theorem setSelfPath (path : List FieldRef) : Preparing (setSelfPath path) :=
  modifyMethod (fun state => { Emission.SameBooks.refl state with }) fun _ => rfl

theorem setParents (body : Stmt) : Preparing (setParents body) :=
  modifyMethod (fun state => { Emission.SameBooks.refl state with }) fun _ => rfl

theorem registerLambda (id : LambdaId) (target : LambdaTarget) :
    Preparing (registerLambda id target) :=
  modifyMethod (fun state => { Emission.SameBooks.refl state with }) fun _ => rfl

end Preparing

/-! ## Lambdas -/

theorem planLambda_ok
    {decls : List LocalDecl} {scope next : ClosureScope} {lambda : Lambda} {plan : LambdaPlan}
    {before after : Emission}
    (success : planLambda decls scope lambda before = .ok (plan, next) after) :
    plan.lambda = lambda := by
  obtain ⟨⟨captures, inner⟩, _, -, rest⟩ := bind_ok.mp success
  obtain ⟨⟨host, outer⟩, _, -, rest⟩ := bind_ok.mp rest
  obtain ⟨same, -⟩ := pure_ok.mp rest
  cases same
  rfl

/-- Every lambda of a body gets a plan. -/
theorem planLambdas_ok
    {decls : List LocalDecl} {lambdas : List Lambda} {scope next : ClosureScope}
    {plans : List LambdaPlan} {before after : Emission}
    (success : planLambdas decls lambdas scope before = .ok (plans, next) after) :
    plans.map LambdaPlan.lambda = lambdas := by
  induction lambdas generalizing scope plans next before after with
  | nil =>
    obtain ⟨same, -⟩ := pure_ok.mp success
    cases same
    rfl
  | cons lambda lambdas ih =>
    obtain ⟨⟨plan, inner⟩, _, planned, rest⟩ := bind_ok.mp success
    obtain ⟨⟨others, outer⟩, _, planning, rest⟩ := bind_ok.mp rest
    obtain ⟨same, -⟩ := pure_ok.mp rest
    cases same
    rw [List.map_cons, planLambda_ok planned, ih planning]

namespace Preparing

theorem makeScope (scope : ClosureScope) (name : String) (params : List LocalDecl) :
    Preparing (makeScope scope name params) := by
  rw [makeScope_eq]
  refine bind (plain (.scopeCode trivial trivial ?_ ?_ ?_ params)) fun slot =>
    seq (forM fun entry _ => unseen (.setAccess _ _)) (pure slot)
  · exact fun _ _ => trivial
  · exact fun _ _ _ => trivial
  · exact fun _ => trivial

theorem makeScope? (scope : ClosureScope) (params : List LocalDecl) :
    Preparing (makeScope? scope params) := by
  unfold Emit.makeScope?
  split
  · exact bind (makeScope scope _ params) fun _ => pure _
  · exact pure _

theorem lambdaHome (scope : ClosureScope) (slot : Option Nat) (host : LambdaHost) :
    Preparing (lambdaHome scope slot host) := by
  cases host with
  | scope =>
    simp only [Emit.lambdaHome]
    split
    · exact pure _
    · exact plain (.fail rfl)
  | receiver => exact bind .method fun _ => pure _
  | static => exact bind cls fun _ => pure _

theorem addScopeClass (scope : ClosureScope) : Preparing (addScopeClass scope) :=
  optionForM fun _ _ => seq (plain (.log _ _)) (modifyClass _)

end Preparing

end Emit
end StackCode
