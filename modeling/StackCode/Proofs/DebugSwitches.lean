import StackCode.Proofs.Linkage
import StackCode.Proofs.Untabled

/-!
# The switches for debugging

A configuration has two switches for debugging: one logs listings of the finished
methods, the other one keeps tables of local variables.  Neither has any influence on
whether a class can be generated and on the code that it gets.
-/

namespace StackCode

/-! ## Members without tables -/

namespace MethodBody

@[simp] theorem untabled_straight (maxLocals : Nat) (instructions : List Instruction) :
    (straight maxLocals instructions).untabled = straight maxLocals instructions := rfl

end MethodBody

@[simp] theorem MethodDef.untabled_defaultConstructor :
    MethodDef.defaultConstructor.untabled = .defaultConstructor := rfl

@[simp] theorem ClassDef.untabled_synthetic (name : String) (fields : List FieldDef) :
    (ClassDef.synthetic name fields).untabled = .synthetic name fields := rfl

/-- The table of local variables of every method of the class is empty. -/
def ClassDef.Tableless (cls : ClassDef) : Prop :=
  ∀ method ∈ cls.methods, ∀ body ∈ method.body, body.localVars = []

theorem ClassDef.tableless_untabled (cls : ClassDef) : cls.untabled.Tableless := by
  intro method member body found
  obtain ⟨source, -, rfl⟩ := List.mem_map.mp member
  obtain ⟨original, -, rfl⟩ := Option.map_eq_some_iff.mp found
  rfl

/-- A bridge has no table of local variables. -/
theorem MethodDef.untabled_of_buildBridge
    {owner : String} {method : MethodDecl} {signature : ErasedSignature} {bridge : MethodDef}
    (success : buildBridge owner method signature = .ok bridge) :
    bridge.untabled = bridge := by
  obtain ⟨arguments, -, made⟩ := except_bind_ok.mp success
  cases made
  rfl

theorem ClassDecl.untabled_collectBridges
    {decl : ClassDecl} {state : Bridging}
    (success : decl.collectBridges = .ok () state) :
    state.bridges.map MethodDef.untabled = state.bridges := by
  have collected := Bridging.collectBridges_collects decl
  rw [success] at collected
  refine (List.map_congr_left fun bridge member => ?_).trans (List.map_id _)
  obtain ⟨overriding, -, -, built⟩ := collected.built member
  exact MethodDef.untabled_of_buildBridge built

/-! ## Assembling a class -/

theorem ClassDef.addTo_untabled (owner : String) (method : MethodDef) (classes : List ClassDef) :
    addTo owner method.untabled (classes.map ClassDef.untabled) =
      (addTo owner method classes).map (List.map ClassDef.untabled) := by
  induction classes with
  | nil => rfl
  | cons cls others ih =>
    simp only [List.map_cons, addTo, ih]
    have name : cls.untabled.name = cls.name := rfl
    rw [name]
    split
    · simp [untabled]
    · simp [Function.comp_def]

/-- A method is added to its class with or without its table. -/
theorem ClassBundle.add_untabled (bundle : ClassBundle) (owner : String) (method : MethodDef) :
    bundle.untabled.add owner method.untabled =
      (bundle.add owner method).map ClassBundle.untabled := by
  have name : bundle.untabled.main.name = bundle.main.name := rfl
  have nested : bundle.untabled.nested = bundle.nested.map ClassDef.untabled := rfl
  unfold ClassBundle.add
  rw [name, nested, ClassDef.addTo_untabled]
  split
  · simp [Except.map, untabled, ClassDef.untabled]
  · cases ClassDef.addTo owner method bundle.nested <;> rfl

/-- Adding methods without tables gives the class without tables. -/
theorem ClassBundle.foldlM_add_untabled (methods : List (String × MethodDef))
    (bundle : ClassBundle) :
    (methods.map fun entry => (entry.1, entry.2.untabled)).foldlM
        (fun (bundle : ClassBundle) entry => bundle.add entry.1 entry.2) bundle.untabled =
      (methods.foldlM (fun (bundle : ClassBundle) entry => bundle.add entry.1 entry.2) bundle).map
        ClassBundle.untabled := by
  induction methods generalizing bundle with
  | nil => rfl
  | cons entry methods ih =>
    rw [List.map_cons, List.foldlM_cons, List.foldlM_cons, add_untabled]
    cases bundle.add entry.1 entry.2 with
    | error error => rfl
    | ok added => exact ih added

/-! ## Lambdas -/

/-- A step outside of methods on which tables of local variables have no influence. -/
abbrev Generation.Untabled (listed : Bool) (view : α → α) (step other : Generation α) : Prop :=
  Mirrors (ClassContext.untabled listed) view step other

/-- A method is generated from the same start, but for its table. -/
theorem Generation.Untabled.onMethod
    {listed : Bool} {view : α → α} {context : MethodContext} {step other : Emit α}
    (untabled : Emit.Untabled listed view step other) :
    Untabled listed view (Emit.onMethod context step) (Emit.onMethod context.untabled other) := by
  intro cls
  have inside : other { method := context.untabled, cls := cls.untabled listed } =
      seen view (Emission.untabled listed) (step { method := context, cls }) :=
    untabled { method := context, cls }
  unfold Emit.onMethod
  rw [inside]
  cases step { method := context, cls } <;> rfl

namespace Emit.Untabled

variable {listed : Bool}

theorem aside
    {view : α → α} {step other : Generation α}
    (untabled : Generation.Untabled listed view step other) :
    Untabled listed view (aside step) (aside other) := by
  intro state
  have inside : other (state.cls.untabled listed) =
      seen view (ClassContext.untabled listed) (step state.cls) := untabled _
  change Emit.aside other { method := _, cls := state.cls.untabled listed } = _
  unfold Emit.aside
  rw [inside]
  cases step state.cls <;> rfl

theorem modifyClass
    {change other : ClassContext → ClassContext}
    (same : ∀ cls, other (cls.untabled listed) = (change cls).untabled listed) :
    Untabled listed id (modifyClass change) (modifyClass other) := fun state =>
  congrArg (fun cls => EStateM.Result.ok () (Emission.mk state.method.untabled cls))
    (same state.cls)

theorem setParents (body : Stmt) : Untabled listed id (setParents body) (setParents body) :=
  composed (.modifyMethod (fun _ _ => rfl) nofun)

theorem setSelfPath (path : List FieldRef) :
    Untabled listed id (setSelfPath path) (setSelfPath path) :=
  composed (.modifyMethod (fun _ _ => rfl) nofun)

/-- Scope objects are made regardless of tables. -/
theorem makeScope? (scope : ClosureScope) (params : List LocalDecl) :
    Untabled listed id (makeScope? scope params) (makeScope? scope params) := by
  unfold Emit.makeScope?
  split
  · rw [makeScope_eq]
    refine .bind (.bind (composed (.code (.scopeCode trivial trivial ?_ ?_ ?_ params)))
      fun slot => .seq (.forM fun _ _ => modifyMethod fun _ _ => rfl) (.pure rfl))
        fun _ => .pure rfl
    · exact fun _ _ => trivial
    · exact fun _ _ _ => trivial
    · exact fun _ => trivial
  · exact .pure rfl

theorem lowerBody (body : Stmt) : Untabled listed id (lowerBody body) (lowerBody body) := by
  refine .seq (setParents body) (.seq (lower body) (composed (.ite ?_ (.pure _))))
  exact .looking (fun _ _ _ => rfl) fun _ => .ite (.op _) (.fail rfl)

/-- The body of a lambda loses its table only. -/
theorem lambdaBody
    {prepare : Preparation} {lambda : Lambda}
    (prepares : Untabled listed id (prepare lambda.body lambda.params)
      (prepare lambda.body lambda.params))
    (access : List (LocalId × LocalAccess)) (selfPath : List FieldRef) :
    Untabled listed MethodBody.untabled (lambdaBody prepare lambda access selfPath)
      (lambdaBody prepare lambda access selfPath) := by
  refine .seq (composed .reserveSelf) (.seq (composed (.declareLocals _)) (.seq ?_ ?_))
  · exact .forM fun _ _ => modifyMethod fun _ _ => rfl
  · exact .seq (setSelfPath _) (.seq prepares (.seq (lowerBody _) finish))

/-- A lambda is compiled regardless of tables. -/
theorem compileLambda
    {prepare : Preparation}
    (prepares : ∀ body params, Untabled listed id (prepare body params) (prepare body params))
    (home : LambdaHome) (plan : LambdaPlan) :
    Untabled listed id (compileLambda prepare home plan) (compileLambda prepare home plan) := by
  refine .bind method fun outside =>
    .bind (composed (.takeClass (fun _ _ _ _ => rfl) nofun)) fun name => ?_
  refine .seq (composed (.log _ _)) (.bind cls fun found => ?_)
  refine .bind (aside (.onMethod (lambdaBody (prepares _ _) _ _))) fun body => .seq ?_ (.pure rfl)
  refine modifyClass fun cls => ?_
  simp [ClassContext.untabled, MethodDef.untabled]

theorem addScopeClass (scope : ClosureScope) :
    Untabled listed id (addScopeClass scope) (addScopeClass scope) := by
  unfold Emit.addScopeClass ClosureScope.toClass?
  cases scope.name with
  | none => exact .pure rfl
  | some name =>
    refine .seq (composed (.log _ _)) (modifyClass fun cls => ?_)
    simp [ClassContext.untabled]

/-- Lambdas at any depth are compiled regardless of tables. -/
theorem prepareWithin (depth : Nat) (body : Stmt) (params : List LocalDecl) :
    Untabled listed id (prepareWithin depth body params) (prepareWithin depth body params) := by
  induction depth generalizing body params with
  | zero => exact composed (.ite (.pure _) (.fail rfl))
  | succ depth ih =>
    refine .bind method fun outside =>
      .bind (composed (.code (.planLambdas _ _ _))) fun planned => ?_
    refine .bind (makeScope? _ _) fun slot => .seq (.forM fun plan _ => ?_) (addScopeClass _)
    refine .bind (composed (.lambdaHome _ _ _)) fun home => ?_
    refine .bind (compileLambda ih home plan) fun target => ?_
    exact composed (.registerLambda _ _)

theorem plainBody (method : MethodDecl) (body : Stmt) :
    Untabled listed MethodBody.untabled (plainBody method body) (plainBody method body) := by
  refine .seq (composed .reserveSelf) (.seq (composed (.declareLocals _)) ?_)
  exact .seq (prepareWithin _ _ _) (.seq (lowerBody _) finish)

/-! ## Iterators -/

/-- The body of an iterator loses its table only. -/
theorem moveNextBody (layout : IteratorClass.Layout) (method : MethodDecl) (body : Stmt) :
    Untabled listed (Prod.map MethodBody.untabled id)
      (IteratorClass.moveNextBody layout method body)
      (IteratorClass.moveNextBody layout method body) := by
  refine .seq (composed .reserveSelf) (.seq (setSelfPath _) ?_)
  refine .bind (composed (.beginSuspension _ _ _ _)) fun suspension => ?_
  refine .seq (.forM fun _ _ => modifyMethod fun _ _ => rfl)
    (.seq (.seq (composed .enterScope) ?_) ?_)
  · refine .seq (.seq (composed (.forM fun param _ => ?_)) ?_) (composed .exitScope)
    · exact .ite (.andThen (.declareLocal _) fun _ => .pure _) (.pure _)
    · refine .seq (composed (PlainTo.dispatchState trivial).composed)
        (.seq (prepareWithin _ _ _) (.seq (setParents _) ?_))
      exact .seq (lower _)
        (.seq (composed (.mark _)) (composed (.code (.finishIteration trivial trivial))))
  · exact .bind Untabled.method fun found => .bind finish fun _ => .pure rfl

theorem entryBody (layout : IteratorClass.Layout) (method : MethodDecl) :
    Untabled listed MethodBody.untabled (IteratorClass.entryBody layout method)
      (IteratorClass.entryBody layout method) := by
  rw [entryBody_eq]
  refine .seq (composed (.seq (.seq .reserveSelf (.declareLocals _)) (.code ?_))) finish
  exact plain_stateCode method fun _ _ => trivial

end Emit.Untabled

namespace Generation.Untabled

open IteratorClass

variable {listed : Bool}

theorem get : Untabled listed (ClassContext.untabled listed) get get := fun _ => rfl

theorem log (level : LogLevel) (text : String) :
    Untabled listed id (Generation.log level text) (Generation.log level text) := fun _ => rfl

theorem modifyState
    {change other : ClassContext → ClassContext}
    (same : ∀ cls, other (cls.untabled listed) = (change cls).untabled listed) :
    Untabled listed id (modify change) (modify other) := fun cls =>
  congrArg (EStateM.Result.ok ()) (same cls)

/-- A synthetic class is added. -/
theorem pushNested {cls other : ClassDef} (same : other = cls.untabled) :
    Untabled listed id
      (modify fun context => { context with nested := context.nested.push cls })
      (modify fun context => { context with nested := context.nested.push other }) := by
  refine modifyState fun context => ?_
  rw [same]
  simp [ClassContext.untabled]

/-- The bridge of an iterator has no table to lose. -/
theorem nextBridge? (className : String) (element : Ty) :
    Untabled listed (Option.map MethodDef.untabled) (nextBridge? className element)
      (nextBridge? className element) := by
  unfold IteratorClass.nextBridge?
  dsimp only
  split
  · exact .pure rfl
  · have boxing : Untabled listed id (boxElement className element.erasure)
        (boxElement className element.erasure) := by
      unfold boxElement
      split
      · split
        · exact .pure rfl
        · exact .throw _
      · exact .pure rfl
    exact .bind boxing fun box => .seq (log _ _) (.pure rfl)

theorem protocolMethods (className : String) (element : Ty) :
    Untabled listed (List.map MethodDef.untabled) (protocolMethods className element)
      (protocolMethods className element) := by
  rw [protocolMethods_eq]
  refine .bind (nextBridge? _ _) fun bridge => .pure ?_
  cases bridge <;> rfl

theorem layOut (className : String) (method : MethodDecl) (element : Ty) (body : Stmt) :
    Untabled listed id (layOut className method element body)
      (layOut className method element body) := by
  refine .bind get fun cls => .foldlM fun layout id => ?_
  split
  · exact .pure rfl
  · exact .throw _

/-- The class of an iterator loses its tables only. -/
theorem addClass (layout : Layout) (method : MethodDecl) (body : Stmt) :
    Untabled listed id (addClass layout method body) (addClass layout method body) := by
  have running :
      Untabled listed (Prod.map MethodDef.untabled id) (moveNextMethod layout method body)
      (moveNextMethod layout method body) :=
    .bind get fun cls => .bind (onMethod (.moveNextBody _ _ _)) fun _ => .pure rfl
  refine .bind running fun moved => .bind get fun cls => ?_
  have same : (cls.untabled listed).config.iteratorProtocol = cls.config.iteratorProtocol := rfl
  dsimp only
  rw [same]
  cases cls.config.iteratorProtocol with
  | true =>
    refine .bind (protocolMethods _ _) fun members => pushNested ?_
    simp [ClassDef.untabled, ClassDef.synthetic, MethodDef.untabled_defaultConstructor]
  | false =>
    have none : Untabled listed (List.map MethodDef.untabled) (pure []) (pure []) := .pure rfl
    refine .bind none fun members => pushNested ?_
    simp [ClassDef.untabled, ClassDef.synthetic, MethodDef.untabled_defaultConstructor]

/-- An iterator is compiled regardless of tables. -/
theorem compile (method : MethodDecl) (element : Ty) (body : Stmt) :
    Untabled listed MethodBody.untabled (compile method element body)
      (compile method element body) := by
  have naming : Untabled listed id (modifyGet ClassContext.newIteratorName)
      (modifyGet ClassContext.newIteratorName) := fun _ => rfl
  refine .bind naming fun className => .bind get fun cls => .seq (log _ _) ?_
  refine .bind (layOut _ _ _ _) fun layout => .seq (log _ _) (.seq (addClass _ _ _) ?_)
  exact onMethod (.entryBody _ _)

/-! ## Classes -/

theorem generateBody (method : MethodDecl) :
    Untabled listed (Option.map MethodBody.untabled) (generateBody method)
      (generateBody method) := by
  unfold StackCode.generateBody
  split
  · exact .pure rfl
  · exact .bind (compile _ _ _) fun _ => .pure rfl
  · refine .bind get fun cls =>
      .seq (log _ _) (.bind (onMethod (.plainBody _ _)) fun _ => .pure rfl)

theorem generateMethod (method : MethodDecl) :
    Untabled listed MethodDef.untabled (generateMethod method) (generateMethod method) :=
  .bind (generateBody method) fun _ => .pure rfl

theorem generateBridges (decl : ClassDecl) :
    Untabled listed (List.map MethodDef.untabled) (generateBridges decl)
      (generateBridges decl) := by
  intro cls
  unfold StackCode.generateBridges
  cases collected : decl.collectBridges with
  | ok _ state =>
    have same := ClassDecl.untabled_collectBridges collected
    exact congrArg (fun bridges => EStateM.Result.ok bridges _) same.symm
  | error error state => rfl

/-- Methods without tables make up classes without tables. -/
theorem assemble (decl : ClassDecl) (methods bridges : List MethodDef) :
    Untabled listed ClassBundle.untabled (assemble decl methods bridges)
      (assemble decl (methods.map MethodDef.untabled) (bridges.map MethodDef.untabled)) := by
  refine .bind get fun cls => ?_
  dsimp only
  generalize startsAs : ClassBundle.mk _ cls.nested.toList = start
  generalize otherStartsAs : ClassBundle.mk _ (cls.untabled listed).nested.toList = other
  have hidden : other = start.untabled := by
    rw [← startsAs, ← otherStartsAs]
    simp [ClassBundle.untabled, ClassDef.untabled, ClassContext.untabled]
  have added : (cls.untabled listed).methods.toList =
      cls.methods.toList.map fun entry => (entry.1, entry.2.untabled) := by
    simp [ClassContext.untabled]
  rw [hidden, added, ClassBundle.foldlM_add_untabled]
  cases cls.methods.toList.foldlM
    (fun (bundle : ClassBundle) entry => bundle.add entry.1 entry.2) start with
  | ok bundle => exact .pure rfl
  | error error => exact .throw error

end Generation.Untabled

/-- The classes of a declaration, with no listing made of them. -/
def generateClasses (decl : ClassDecl) : Generation ClassBundle := do
  Generation.log .debug
    ("generating class " ++ decl.name ++ " (" ++ toString decl.methods.length ++ " methods)")
  let bridges ← generateBridges decl
  let methods ← decl.methods.mapM generateMethod
  assemble decl methods bridges

theorem Generation.Untabled.generateClasses (decl : ClassDecl) (listed : Bool) :
    Untabled listed ClassBundle.untabled (generateClasses decl) (generateClasses decl) :=
  .seq (log _ _) (.bind (generateBridges decl) fun _ =>
    .bind (.mapM generateMethod) fun _ => assemble decl _ _)

/-- Listing the methods always succeeds. -/
theorem logListings_ok (bundle : ClassBundle) (before : ClassContext) :
    ∃ after, logListings bundle before = .ok () after := by
  have repeated {α : Type} {step : α → Generation Unit}
      (each : ∀ value before, ∃ after, step value before = .ok () after) (values : List α) :
      ∀ before, ∃ after, values.forM step before = .ok () after := by
    induction values with
    | nil => exact fun before => ⟨before, rfl⟩
    | cons value values ih =>
      intro before
      obtain ⟨between, first⟩ := each value before
      obtain ⟨after, rest⟩ := ih between
      exact ⟨after, bind_ok.mpr ⟨(), between, first, rest⟩⟩
  exact repeated (fun (cls : ClassDef) => repeated (fun _ _ => ⟨_, rfl⟩) cls.listings) _ before

/-- What a run comes to, whatever state it leaves. -/
def resultOf : EStateM.Result ε σ α → Except ε α
  | .ok value _ => .ok value
  | .error error _ => .error error

theorem resultOf_seen (view : α → α) (hide : σ → σ) (outcome : EStateM.Result ε σ α) :
    resultOf (seen view hide outcome) = (resultOf outcome).map view := by
  cases outcome <;> rfl

/-- Listing methods has no influence on what is generated. -/
theorem ClassDecl.generate_result (decl : ClassDecl) (config : Config) :
    (decl.generate config).result =
      resultOf (generateClasses decl { name := decl.name, config }) := by
  have listing : StackCode.generate decl = do
      let bundle ← generateClasses decl
      let cls ← get
      if cls.config.debugCode then logListings bundle
      return bundle := by
    simp only [StackCode.generate, generateClasses, bind_assoc]
  have split : StackCode.generate decl { name := decl.name, config } =
      EStateM.bind (generateClasses decl) _ { name := decl.name, config } := congrFun listing _
  unfold ClassDecl.generate
  rw [split]
  unfold EStateM.bind
  cases generateClasses decl { name := decl.name, config } with
  | error error cls => rfl
  | ok bundle cls =>
    obtain ⟨after, listed⟩ := logListings_ok bundle cls
    dsimp only
    rw [Generation.get_bind_eq.mpr rfl]
    cases cls.config.debugCode with
    | false => rfl
    | true =>
      have success : (do logListings bundle; return bundle) cls = .ok bundle after :=
        bind_ok.mpr ⟨(), after, listed, rfl⟩
      rw [if_pos rfl, success]
      rfl

/-- A configuration without tables leads to the same classes, stripped of their tables. -/
theorem ClassDecl.generate_untabled (decl : ClassDecl) (config : Config) (listed : Bool) :
    (decl.generate (config.untabled listed)).result =
      (decl.generate config).result.map ClassBundle.untabled := by
  have mirrored := Generation.Untabled.generateClasses decl listed { name := decl.name, config }
  have start : ClassContext.untabled listed { name := decl.name, config } =
      { name := decl.name, config := config.untabled listed } := by
    simp [ClassContext.untabled]
  rw [start] at mirrored
  rw [generate_result, generate_result, mirrored, resultOf_seen]

/-- No method of the classes has a table of local variables. -/
def ClassBundle.Tableless (bundle : ClassBundle) : Prop :=
  ∀ cls ∈ bundle.main :: bundle.nested, cls.Tableless

theorem ClassBundle.tableless_untabled (bundle : ClassBundle) : bundle.untabled.Tableless := by
  intro cls member
  have stripped : cls ∈ (bundle.main :: bundle.nested).map ClassDef.untabled := member
  obtain ⟨source, -, rfl⟩ := List.mem_map.mp stripped
  exact source.tableless_untabled

/-- Without the switch for tables, no method of a generated class has one. -/
theorem ClassDecl.tableless_of_generate
    {decl : ClassDecl} {config : Config} {bundle : ClassBundle}
    (off : config.varDebugInfo = false)
    (success : (decl.generate config).result = .ok bundle) :
    bundle.Tableless := by
  -- The configuration is its own counterpart without tables.
  have own : config.untabled config.debugCode = config := by
    rw [Config.untabled, ← off]
  have stripped := decl.generate_untabled config config.debugCode
  rw [own, success] at stripped
  injection stripped with same
  rw [same]
  exact bundle.tableless_untabled

/--
Two configurations that differ in the switches for debugging only lead to the same
error, or to classes that are the same up to their tables of local variables.  These
tables are empty where the switch for them is off.
-/
theorem ClassDecl.generate_ignores_debugging
    (decl : ClassDecl)
    (first second : Config)
    (switched : second =
      { first with debugCode := second.debugCode, varDebugInfo := second.varDebugInfo }) :
    (∃ error, (decl.generate first).result = .error error ∧
      (decl.generate second).result = .error error) ∨
    ∃ bundle other, (decl.generate first).result = .ok bundle ∧
      (decl.generate second).result = .ok other ∧
      bundle.untabled = other.untabled ∧
      (first.varDebugInfo = false → bundle.Tableless) ∧
      (second.varDebugInfo = false → other.Tableless) := by
  have hidden : second.untabled false = first.untabled false := by
    rw [switched]
    rfl
  have firstStripped := decl.generate_untabled first false
  have secondStripped := decl.generate_untabled second false
  rw [hidden, firstStripped] at secondStripped
  cases generated : (decl.generate first).result with
  | error error =>
    cases generated' : (decl.generate second).result with
    | error other =>
      rw [generated, generated'] at secondStripped
      cases secondStripped
      exact .inl ⟨error, rfl, rfl⟩
    | ok other =>
      rw [generated, generated'] at secondStripped
      cases secondStripped
  | ok bundle =>
    cases generated' : (decl.generate second).result with
    | error other =>
      rw [generated, generated'] at secondStripped
      cases secondStripped
    | ok other =>
      rw [generated, generated'] at secondStripped
      injection secondStripped with same
      exact .inr ⟨bundle, other, rfl, rfl, same,
        fun off => tableless_of_generate off generated,
        fun off => tableless_of_generate off generated'⟩

/-- A class with a method that only has a parameter. -/
def parameterClass : ClassDecl :=
  { name := "A"
    methods :=
      [{ name := "m"
         params := [{ id := ⟨0⟩, name := "x", type := .int }]
         body := some (.ret {} none) }] }

/-- The parameter is in a table under one configuration, and all else is the same without it. -/
theorem ClassDecl.generate_ignores_debugging_parameter :
    ∃ bundle other, (parameterClass.generate {}).result = .ok bundle ∧
      (parameterClass.generate { debugCode := true, varDebugInfo := false }).result = .ok other ∧
      (∃ method ∈ bundle.main.methods, ∃ body ∈ method.body, body.localVars.length = 2) ∧
      bundle.untabled = other.untabled ∧ other.Tableless := by
  have tabled : ((parameterClass.generate {}).result.toOption.any fun bundle =>
      bundle.main.methods.any fun method =>
        method.body.any fun body => body.localVars.length = 2) = true := by decide +kernel
  obtain ⟨error, failed, -⟩ | ⟨bundle, other, generated, success, same, -, tableless⟩ :=
    parameterClass.generate_ignores_debugging {} { debugCode := true, varDebugInfo := false } rfl
  · rw [failed] at tabled
    contradiction
  · rw [generated] at tabled
    obtain ⟨method, member, listed⟩ := List.any_eq_true.mp tabled
    obtain ⟨body, found, two⟩ := (Option.any_eq_true _ _).mp listed
    exact ⟨bundle, other, generated, success, ⟨method, member, body, found, of_decide_eq_true two⟩,
      same, tableless rfl⟩

end StackCode
