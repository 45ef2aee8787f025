import StackCode.Proofs.ComposedLowering

/-!
# Generation without tables of local variables

The table of local variables is written and never read.  A generation whose state
is stripped of it goes the same way: every step that lowering is composed of does to
the stripped state what it does to the full one.
-/

namespace StackCode

/-! ## Without tables -/

/-- The code without its table of local variables, which is not kept any further. -/
def Code.untabled (code : Code) : Code := { code with ended := #[], debugInfo := false }

/-- The body without its table of local variables. -/
def MethodBody.untabled (body : MethodBody) : MethodBody := { body with localVars := [] }

/-- The method without its table of local variables. -/
def MethodDef.untabled (method : MethodDef) : MethodDef :=
  { method with body := method.body.map MethodBody.untabled }

/-- The class without tables of local variables. -/
def ClassDef.untabled (cls : ClassDef) : ClassDef :=
  { cls with methods := cls.methods.map MethodDef.untabled }

/-- The classes without tables of local variables. -/
def ClassBundle.untabled (bundle : ClassBundle) : ClassBundle :=
  { main := bundle.main.untabled, nested := bundle.nested.map ClassDef.untabled }

/-- The state of a method without its table of local variables. -/
def MethodContext.untabled (method : MethodContext) : MethodContext :=
  { method with code := method.code.untabled }

/-- The configuration that keeps no tables and lists methods as given. -/
def Config.untabled (config : Config) (listed : Bool) : Config :=
  { config with debugCode := listed, varDebugInfo := false }

/-- The state of a class without tables of local variables, with methods `listed` or not. -/
def ClassContext.untabled (listed : Bool) (cls : ClassContext) : ClassContext :=
  { cls with
    config := cls.config.untabled listed
    methods := cls.methods.map fun entry => (entry.1, entry.2.untabled)
    nested := cls.nested.map ClassDef.untabled }

/-- The state of a generation without tables of local variables. -/
def Emission.untabled (listed : Bool) (state : Emission) : Emission :=
  { method := state.method.untabled, cls := state.cls.untabled listed }

namespace Code

theorem endLocals_untabled (code : Code) (locals : List LiveLocal) :
    code.untabled.endLocals locals = (code.endLocals locals).untabled := by
  have nothing : locals.filterMap code.untabled.endLocal? = [] :=
    List.filterMap_eq_nil_iff.mpr fun _ _ => if_neg Bool.false_ne_true
  unfold endLocals
  rw [nothing]
  rfl

theorem closeScope_untabled (code : Code) (scope : LocalScope) (outer : List LocalScope) :
    code.untabled.closeScope scope outer = (code.closeScope scope outer).untabled := by
  unfold closeScope
  rw [endLocals_untabled]
  rfl

theorem exitScope_untabled (code : Code) :
    code.untabled.exitScope = code.exitScope.map Code.untabled := by
  have same : code.untabled.scopes = code.scopes := rfl
  unfold exitScope
  rw [same]
  cases code.scopes with
  | nil => rfl
  | cons scope outer => exact congrArg Except.ok (code.closeScope_untabled scope outer)

theorem mark_untabled (code : Code) (label : Label) :
    code.untabled.mark label = (code.mark label).map Code.untabled := by
  have same : code.untabled.marks = code.marks := rfl
  unfold mark
  rw [same]
  cases code.marks[label.index]? with
  | none => rfl
  | some bound => cases bound <;> rfl

theorem allocate_untabled (code : Code) (name : Option String) (type : Ty) :
    code.untabled.allocate name type =
      ((code.allocate name type).1, (code.allocate name type).2.untabled) := by
  have same : code.untabled.scopes = code.scopes := rfl
  simp only [allocate, same]
  cases code.scopes with
  | nil => rfl
  | cons scope outer => rfl

/-- Scopes are closed with or without a table. -/
theorem closeScopes_untabled (code : Code) :
    code.untabled.closeScopes = code.closeScopes.untabled := by
  have step : ∀ (scopes : List LocalScope) (code : Code),
      scopes.foldl (fun code scope => code.closeScope scope code.scopes.tail) code.untabled =
        (scopes.foldl (fun code scope => code.closeScope scope code.scopes.tail)
          code).untabled := by
    intro scopes
    induction scopes with
    | nil => exact fun _ => rfl
    | cons scope scopes ih =>
      intro code
      rw [List.foldl_cons, List.foldl_cons, closeScope_untabled]
      exact ih _
  exact step code.scopes code

/-- What is finished differs in the table of local variables only. -/
theorem finish_untabled (code : Code) :
    code.untabled.finish = code.finish.map MethodBody.untabled := by
  unfold finish
  dsimp only
  rw [closeScopes_untabled]
  have reversed : code.closeScopes.untabled.outermost = code.closeScopes.outermost := rfl
  rw [reversed, endLocals_untabled]
  generalize code.closeScopes.endLocals code.closeScopes.outermost.reverse = closed
  have regions : closed.untabled.regions.toList.mapM closed.untabled.resolveRegion =
      closed.regions.toList.mapM closed.resolveRegion := rfl
  rw [regions]
  change (do
      closed.instructions.toList.forM fun instruction =>
        instruction.targets.forM fun label => discard (closed.resolve label)
      let entries ← closed.regions.toList.mapM closed.resolveRegion
      _) = _
  cases closed.instructions.toList.forM fun instruction =>
    instruction.targets.forM fun label => discard (closed.resolve label) with
  | error error => rfl
  | ok value =>
    cases closed.regions.toList.mapM closed.resolveRegion with
    | error error => rfl
    | ok entries => rfl

end Code

/-! ## Steps on hidden states -/

/-- An outcome with parts of its value and of its state hidden. -/
def seen (view : α → α) (hide : σ → σ) : EStateM.Result ε σ α → EStateM.Result ε σ α
  | .ok value state => .ok (view value) (hide state)
  | .error error state => .error error (hide state)

/-- Where parts of the state are hidden, `other` does what `step` does where they are not. -/
def Mirrors (hide : σ → σ) (view : α → α) (step other : EStateM ε σ α) : Prop :=
  ∀ state, other (hide state) = seen view hide (step state)

namespace Mirrors

variable {hide : σ → σ}
variable {view : α → α} {values : List α}

theorem pure {value other : α} (same : other = view value) :
    Mirrors hide view (pure value : EStateM ε σ α) (pure other) := by
  rw [same]
  exact fun _ => rfl

theorem throw (error : ε) :
    Mirrors hide view (throw error : EStateM ε σ α) (throw error) := fun _ => rfl

theorem bind
    {view' : β → β} {first other : EStateM ε σ α} {next next' : α → EStateM ε σ β}
    (firstMirrors : Mirrors hide view first other)
    (nextMirrors : ∀ value, Mirrors hide view' (next value) (next' (view value))) :
    Mirrors hide view' (first >>= next) (other >>= next') := by
  intro state
  change EStateM.bind other next' (hide state) = seen view' hide (EStateM.bind first next state)
  unfold EStateM.bind
  rw [firstMirrors state]
  cases first state with
  | ok value between => exact nextMirrors value between
  | error error between => rfl

theorem seq
    {view : β → β} {first other : EStateM ε σ PUnit} {next next' : EStateM ε σ β}
    (firstMirrors : Mirrors hide id first other)
    (nextMirrors : Mirrors hide view next next') :
    Mirrors hide view (first >>= fun _ => next) (other >>= fun _ => next') :=
  bind firstMirrors fun _ => nextMirrors

theorem forM
    {step : α → EStateM ε σ PUnit}
    (stepMirrors : ∀ value ∈ values, Mirrors hide id (step value) (step value)) :
    Mirrors hide id (values.forM step) (values.forM step) := by
  induction values with
  | nil => exact pure rfl
  | cons value values ih =>
    rw [List.forall_mem_cons] at stepMirrors
    exact seq stepMirrors.1 (ih stepMirrors.2)

theorem mapM
    {view : β → β} {step : α → EStateM ε σ β}
    (stepMirrors : ∀ value, Mirrors hide view (step value) (step value)) :
    Mirrors hide (List.map view) (values.mapM step) (values.mapM step) := by
  induction values with
  | nil => exact pure rfl
  | cons value values ih =>
    rw [List.mapM_cons]
    exact bind (stepMirrors value) fun _ => bind ih fun _ => pure rfl

theorem foldlM
    {step : β → α → EStateM ε σ β}
    (stepMirrors : ∀ start value, Mirrors hide id (step start value) (step start value))
    {start : β} :
    Mirrors hide id (values.foldlM step start) (values.foldlM step start) := by
  induction values generalizing start with
  | nil => exact pure rfl
  | cons value values ih =>
    exact bind (stepMirrors start value) fun _ => ih

end Mirrors

namespace Emit

variable {listed : Bool}

/-- A step on which tables of local variables have no influence. -/
abbrev Untabled (listed : Bool) (view : α → α) (step other : Emit α) : Prop :=
  Mirrors (Emission.untabled listed) view step other

namespace Untabled

theorem method : Untabled listed MethodContext.untabled method method := fun _ => rfl

theorem cls : Untabled listed (ClassContext.untabled listed) cls cls := fun _ => rfl

/-- A change of the method that leaves the code alone. -/
theorem modifyMethod
    {change : MethodContext → MethodContext}
    (unseen : ∀ method code, change { method with code } = { change method with code }) :
    Untabled listed id (modifyMethod change) (modifyMethod change) := by
  intro state
  have kept : change state.method = { change state.method with code := state.method.code } :=
    unseen state.method state.method.code
  have same : change state.method.untabled = (change state.method).untabled := by
    rw [MethodContext.untabled, unseen, kept]
    rfl
  exact congrArg (fun method =>
    EStateM.Result.ok () (Emission.mk method (state.cls.untabled listed))) same

theorem modifyCode
    {change : Code → Code}
    (same : ∀ code, change code.untabled = (change code).untabled) :
    Untabled listed id (modifyCode change) (modifyCode change) := by
  intro state
  exact congrArg (fun code =>
    EStateM.Result.ok () (Emission.mk { state.method with code } (state.cls.untabled listed)))
    (same state.method.code)

theorem takeCode
    {take : Code → α × Code}
    (same : ∀ code, take code.untabled = ((take code).1, (take code).2.untabled)) :
    Untabled listed id (takeCode take) (takeCode take) := by
  intro state
  exact congrArg (fun taken =>
    EStateM.Result.ok taken.1
      (Emission.mk { state.method with code := taken.2 } (state.cls.untabled listed)))
    (same state.method.code)

theorem tryCode
    {change : Code → Except Error Code}
    (same : ∀ code, change code.untabled = (change code).map Code.untabled) :
    Untabled listed id (tryCode change) (tryCode change) := by
  refine .bind method fun found => ?_
  have changed : change found.untabled.code = (change found.code).map Code.untabled := same _
  rw [changed]
  cases change found.code with
  | ok code => exact fun _ => rfl
  | error error => exact .throw error

/-- What is made up depends neither on tables nor on methods. -/
theorem takeClass
    {take : ClassContext → α × ClassContext}
    (unseen : ∀ cls config methods nested, take { cls with config, methods, nested } =
      ((take cls).1, { (take cls).2 with config, methods, nested })) :
    Untabled listed id (takeClass take) (takeClass take) := by
  intro state
  have kept : (take state.cls).2 =
      { (take state.cls).2 with
        config := state.cls.config
        methods := state.cls.methods
        nested := state.cls.nested } :=
    congrArg Prod.snd (unseen state.cls state.cls.config state.cls.methods state.cls.nested)
  have same : take (state.cls.untabled listed) =
      ((take state.cls).1, (take state.cls).2.untabled listed) := by
    rw [ClassContext.untabled, unseen, kept]
    rfl
  exact congrArg (fun taken =>
    EStateM.Result.ok taken.1 (Emission.mk state.method.untabled taken.2)) same

/-- A local gets its slot with or without a table. -/
theorem declareSlot (decl : LocalDecl) :
    Untabled listed id (declareSlot decl) (declareSlot decl) := by
  have looks : Untabled listed id (promotedField? decl.id) (promotedField? decl.id) :=
    .bind method fun _ => .pure rfl
  refine .bind (takeCode fun code => code.allocate_untabled _ _) fun slot =>
    .bind looks fun field => ?_
  cases field with
  | some field =>
    exact .seq (modifyMethod fun _ _ => rfl) (.seq (modifyMethod fun _ _ => rfl) (.pure rfl))
  | none => exact .seq (modifyMethod fun _ _ => rfl) (.pure rfl)

theorem declareLocal (decl : LocalDecl) :
    Untabled listed id (declareLocal decl) (declareLocal decl) := by
  refine .bind method fun found => ?_
  have same : found.untabled.locals = found.locals := rfl
  rw [same]
  cases found.locals.lookup decl.id with
  | none => exact declareSlot decl
  | some access =>
    cases access with
    | slot slot kind => exact declareSlot decl
    | captured holder path => exact .pure rfl

end Untabled

/-- Tables of local variables have no influence on a lowering if they have none on others. -/
theorem ComposedTo.untabled
    {basis : Basis} {refs : α → List Reference}
    {step : Lowering → Emit α}
    (composed : ComposedTo basis refs step)
    (free : basis.targets = none)
    {lower : Lowering}
    (lowers : ∀ stmt, Untabled listed id (lower stmt) (lower stmt)) :
    Untabled listed id (step lower) (step lower) := by
  induction composed with
  | pureTo _ => exact .pure rfl
  | throw _ _ => exact .throw _
  | bindTo _ _ firstHypothesis nextHypothesis =>
    exact .bind (firstHypothesis free) fun value => nextHypothesis value free
  | @reading _ _ _ next unseen _ nextHypothesis =>
    refine .bind Untabled.method fun method => ?_
    have same : next lower method.untabled = next lower method := unseen lower method _
    rw [same]
    exact nextHypothesis method (by simp [free]) free
  | modifyMethod unseen _ => exact .modifyMethod unseen.code_eq
  | declareLocal decl => exact .declareLocal decl
  | emit _ => exact .modifyCode fun _ => rfl
  | newLabel => exact .takeCode fun _ => rfl
  | here => exact .takeCode fun _ => rfl
  | mark label => exact .tryCode fun code => code.mark_untabled label
  | allocate name type => exact .takeCode fun code => code.allocate_untabled name type
  | addRegion region => exact .modifyCode fun _ => rfl
  | openScope => exact .modifyCode fun _ => rfl
  | closeScope => exact .tryCode Code.exitScope_untabled
  | @readingClass _ _ _ next unseen _ nextHypothesis =>
    refine .bind Untabled.cls fun cls => ?_
    have same : next lower (cls.untabled listed) = next lower cls := unseen lower cls _ _ _
    rw [same]
    exact nextHypothesis cls free
  | takeClass unseen _ => exact .takeClass unseen
  | log level text => exact fun _ => rfl
  | call _ _ => exact lowers _

namespace Untabled

theorem lowerWithin (depth : Nat) (stmt : Stmt) :
    Untabled listed id (lowerWithin depth stmt) (lowerWithin depth stmt) := by
  induction depth generalizing stmt with
  | zero => exact .throw _
  | succ depth ih =>
    unfold Emit.lowerWithin
    split
    · have composed : Composed (.free fun _ _ => True) fun lower => lowerReachable lower stmt :=
        .lowerStmt stmt fun _ _ _ _ => trivial
      exact composed.untabled rfl ih
    · exact .pure rfl

/-- A step in which no statement is lowered. -/
theorem composed {step : Emit α} (stepComposed : Composed (.free fun _ _ => False) fun _ => step) :
    Untabled listed id step step :=
  stepComposed.untabled rfl (lowerWithin 0)

theorem lower (stmt : Stmt) : Untabled listed id (lower stmt) (lower stmt) :=
  .bind method fun _ => lowerWithin _ _

theorem finish : Untabled listed MethodBody.untabled finish finish := by
  refine .bind method fun found => ?_
  have finished : found.untabled.code.finish = found.code.finish.map MethodBody.untabled :=
    found.code.finish_untabled
  rw [finished]
  cases found.code.finish with
  | ok body => exact .pure rfl
  | error error => exact .throw error

end Untabled
end Emit

end StackCode
