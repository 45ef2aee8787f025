import Mathlib.Algebra.Order.BigOperators.Group.List
import Mathlib.Algebra.Order.Group.Nat
import StackCode.Proofs.CapturePlans
import StackCode.Proofs.IteratorLinkage
import StackCode.Proofs.Retention

/-!
# The contexts of a method

A method is lowered in one context for its body and in one for each of its
lambdas.  The context of a lambda is made in the midst of the one around it: after
all lambdas there were planned, the scope object was made, and the lambdas before
it were compiled.  All this is determined by where the lambda stands.
-/

namespace StackCode

open Emit IteratorClass

/-! ## Bodies -/

/-- A body with what is known of it before anything is prepared for it. -/
structure BodySource where
  /-- The body. -/
  body : Stmt
  /-- The parameters that have slots. -/
  params : List LocalDecl
  /-- The locals that the body declares, and all its parameters. -/
  declared : List LocalDecl
  /-- The locals that the body uses and that are declared around it. -/
  free : List LocalId
  /-- The class of the receiver of the body of an iterator. -/
  layout : Option Layout
  /-- How deeply lambdas are nested in the body at most. -/
  depth : Nat
  subset_declared : body.declaredLocals ++ params ⊆ declared

namespace BodySource

/-- The body of a declared method. -/
def ofMethod (method : MethodDecl) (body : Stmt) : BodySource where
  body
  params := method.params
  declared := body.declaredLocals ++ method.params
  free := []
  layout := none
  depth := body.lambdaCount
  subset_declared := List.Subset.refl _

/-- The body of an iterator; its parameters live in the state object. -/
def ofIterator (method : MethodDecl) (body : Stmt) (layout : Layout) : BodySource where
  body
  params := []
  declared := body.declaredLocals ++ method.params
  free := []
  layout := some layout
  depth := body.lambdaCount
  subset_declared := by simp

/-- The body of a lambda. -/
def ofLambda (lambda : Lambda) (depth : Nat) : BodySource where
  body := lambda.body
  params := lambda.params
  declared := lambda.body.declaredLocals ++ lambda.params
  free := lambda.freeLocals
  layout := none
  depth
  subset_declared := List.Subset.refl _

end BodySource

/-! ## Where a lambda begins -/

namespace Emit

section

variable {before after : Emission}

theorem addScopeClass_method {scope : ClosureScope}
    (success : addScopeClass scope before = .ok () after) : after.method = before.method := by
  unfold addScopeClass at success
  cases made : scope.toClass? with
  | none =>
    rw [made] at success
    obtain ⟨-, rfl⟩ := pure_ok.mp success
    rfl
  | some cls =>
    rw [made] at success
    obtain ⟨_, logged, added⟩ := seq_ok.mp success
    obtain rfl := modifyClass_ok.mp logged
    obtain rfl := modifyClass_ok.mp added
    rfl

/-- What is done for a list is done for what comes before one of its members, and then for it. -/
theorem forM_getElem?_ok
    {values : List α} {step : α → Emit PUnit} {index : Nat} {value : α}
    (found : values[index]? = some value)
    (success : values.forM step before = .ok () after) :
    ∃ between next, (values.take index).forM step before = .ok () between ∧
      step value between = .ok () next := by
  induction values generalizing index before with
  | nil => exact nomatch found
  | cons first values ih =>
    obtain ⟨next, stepped, rest⟩ := seq_ok.mp success
    cases index with
    | zero =>
      obtain rfl : first = value := Option.some.inj found
      exact ⟨before, next, rfl, stepped⟩
    | succ index =>
      obtain ⟨between, last, taken, reached⟩ := ih found rest
      exact ⟨between, last, seq_ok.mpr ⟨next, stepped, taken⟩, reached⟩

end

end Emit

/-! ## Contexts -/

/-- The context in which a body is lowered, with all that is prepared for its lambdas. -/
structure BodyContext extends BodySource where
  /-- The state in which the preparation begins. -/
  start : Emission
  /-- The plans for the lambdas of the body. -/
  plans : List LambdaPlan
  /-- The scope that they share. -/
  scope : ClosureScope
  /-- The slot of the scope object. -/
  slot : Option Nat
  /-- The state after the lambdas were planned. -/
  planned : Emission
  /-- The state after the scope object was made. -/
  made : Emission
  /-- The state in which the body is lowered. -/
  entered : Emission
  planning : planLambdas (body.declaredLocals ++ params) body.lambdas
    { outer := start.method.className } start = .ok (plans, scope) planned
  making : makeScope? scope params planned = .ok slot made
  compiling : (do
    plans.forM (compilePlan (prepareWithin (depth - 1)) scope slot)
    addScopeClass scope
    setParents body) made = .ok () entered

namespace BodyContext

variable {index : Nat}

/-- Wherever a body is prepared, there is a context for it. -/
theorem exists_of_preparing
    (source : BodySource) {start entered : Emission}
    (preparing : (do
      prepareWithin source.depth source.body source.params
      setParents source.body) start = .ok () entered) :
    ∃ context : BodyContext, context.toBodySource = source ∧ context.start = start ∧
      context.entered = entered := by
  obtain ⟨prepared, preparing, locating⟩ := seq_ok.mp preparing
  cases deep : source.depth with
  | zero =>
    rw [deep, prepareWithin] at preparing
    split at preparing
    · next unneeded =>
      have empty : source.body.lambdas = [] := List.isEmpty_iff.mp unneeded
      obtain ⟨-, rfl⟩ := pure_ok.mp preparing
      refine ⟨{ source with
        start, entered, plans := [], scope := { outer := start.method.className }, slot := none
        planned := start, made := start, planning := ?_, making := rfl, compiling := locating },
        rfl, rfl, rfl⟩
      rw [empty]
      rfl
    · exact (throw_ok.mp preparing).elim
  | succ depth =>
    rw [deep] at preparing
    have rest := method_bind_eq.mp preparing
    obtain ⟨⟨plans, scope⟩, planned, planning, rest⟩ := bind_ok.mp rest
    obtain ⟨slot, made, making, rest⟩ := bind_ok.mp rest
    obtain ⟨compiled, compiling, adding⟩ := seq_ok.mp rest
    refine ⟨{ source with
      start, plans, scope, slot, planned, made, entered, planning, making, compiling := ?_ },
      rfl, rfl, rfl⟩
    rw [deep]
    exact seq_ok.mpr ⟨compiled, compiling, seq_ok.mpr ⟨prepared, adding, locating⟩⟩

/-- What is prepared for a body is determined by the state in which this begins. -/
theorem eq_of_start {first second : BodyContext} (source : first.toBodySource = second.toBodySource)
    (start : first.start = second.start) : first = second := by
  obtain ⟨firstSource, firstStart, plans, scope, slot, planned, made, entered, planning, making,
    compiling⟩ := first
  obtain ⟨secondSource, secondStart, otherPlans, otherScope, otherSlot, otherPlanned, otherMade,
    otherEntered, otherPlanning, otherMaking, otherCompiling⟩ := second
  obtain rfl : firstSource = secondSource := source
  obtain rfl : firstStart = secondStart := start
  cases planning.symm.trans otherPlanning
  cases making.symm.trans otherMaking
  cases compiling.symm.trans otherCompiling
  rfl

variable (context : BodyContext)

theorem map_plans : context.plans.map LambdaPlan.lambda = context.body.lambdas :=
  planLambdas_ok context.planning

theorem planned_method : context.planned.method = context.start.method :=
  (planLambdas_fits (ClosureScope.serves_start _ _) context.planning).1

/-- The scope serves the locals of the body. -/
theorem serves :
    context.scope.Serves (context.body.declaredLocals ++ context.params) context.start.method :=
  (planLambdas_fits (ClosureScope.serves_start _ _) context.planning).2.1

theorem fits {plan : LambdaPlan} (member : plan ∈ context.plans) :
    plan.Fits context.start.method context.scope :=
  (planLambdas_fits (ClosureScope.serves_start _ _) context.planning).2.2.2 plan member

/-- After the scope object was made, nothing is said of the locals, and no code is added. -/
theorem entered_method :
    ∃ lambdas parents, context.entered.method = { context.made.method with lambdas, parents } := by
  obtain ⟨compiled, compiling, rest⟩ := seq_ok.mp context.compiling
  obtain ⟨added, adding, locating⟩ := seq_ok.mp rest
  obtain ⟨lambdas, only⟩ := onlyLambdas_compilePlans compiling
  refine ⟨lambdas, .ofBody context.body, ?_⟩
  rw [← modifyMethod_ok.mp locating, Emission.method_mapMethod, addScopeClass_method adding, only]

theorem entered_className :
    context.entered.method.className = context.start.method.className := by
  obtain ⟨_, _, only⟩ := context.entered_method
  rw [only, (makeScope?_ok context.serves context.making).1, context.planned_method]

/-- A captured local of the body is in its scope object, or where it was from the start. -/
theorem lookup_entered (id : LocalId) (holder : Holder) (path : List FieldRef) :
    context.entered.method.locals.lookup id = some (.captured holder path) ↔
      (∃ slot field, context.slot = some slot ∧ context.scope.field? id = some field ∧
        holder = .slot slot ∧ path = [field]) ∨
      context.scope.field? id = none ∧
        context.start.method.locals.lookup id = some (.captured holder path) := by
  obtain ⟨_, _, only⟩ := context.entered_method
  rw [only, (makeScope?_ok context.serves context.making).2.1, context.planned_method]

/-- The slot of the scope object holds an object of the class of the scope. -/
theorem stored {slot : Nat} (found : context.slot = some slot) :
    ∃ name, context.scope.name = some name ∧ ∃ position,
      context.entered.code.Holds position (makingObject name slot) := by
  obtain ⟨_, _, only⟩ := context.entered_method
  obtain ⟨name, named, position, held⟩ :=
    (makeScope?_ok context.serves context.making).2.2 slot found
  refine ⟨name, named, position, ?_⟩
  rw [Emission.code, only]
  exact held

/-- A scope with a class has an object. -/
theorem exists_slot {name : String} (named : context.scope.name = some name) :
    ∃ slot, context.slot = some slot := by
  have making := context.making
  unfold makeScope? at making
  rw [named] at making
  obtain ⟨slot, _, -, rest⟩ := bind_ok.mp making
  obtain ⟨made, -⟩ := pure_ok.mp rest
  exact ⟨slot, made.symm⟩

/-! ## The contexts of lambdas -/

/-- The contexts of the lambdas of a body, by their positions. -/
inductive Compiles (outer : BodyContext) (index : Nat) (inner : BodyContext) : Prop where
  | intro {plan : LambdaPlan} {before : Emission} {home : LambdaHome}
      (found : outer.plans[index]? = some plan)
      (earlier :
        (outer.plans.take index).forM
            (compilePlan (prepareWithin (outer.depth - 1)) outer.scope outer.slot) outer.made =
          .ok () before)
      (housed : lambdaHome outer.scope outer.slot plan.host before = .ok home before)
      (starting :
        lambdaStart plan.lambda (capturedAccess home plan.captures)
            (home.path ++ before.method.selfPath) (lambdaOpening home plan before) =
          .ok () inner.start)
      (source : inner.toBodySource = .ofLambda plan.lambda (outer.depth - 1)) :
      Compiles outer index inner

/-- The contexts inside a context, by the positions of the lambdas on the way to them. -/
inductive Within : BodyContext → List Nat → BodyContext → Prop where
  | here (context : BodyContext) : Within context [] context
  | inside {outer inner last : BodyContext} {index : Nat} {address : List Nat}
      (compiles : outer.Compiles index inner)
      (within : Within inner address last) :
      Within outer (index :: address) last

variable {context}

/-- Every lambda of a body is compiled in a context. -/
theorem exists_compiles {lambda : Lambda} (found : context.body.lambdas[index]? = some lambda) :
    ∃ inner, context.Compiles index inner ∧
      inner.toBodySource = .ofLambda lambda (context.depth - 1) := by
  rw [← context.map_plans, List.getElem?_map] at found
  obtain ⟨plan, planned, rfl⟩ := Option.map_eq_some_iff.mp found
  obtain ⟨_, compiling, -⟩ := seq_ok.mp context.compiling
  obtain ⟨before, _, earlier, compiling⟩ := forM_getElem?_ok planned compiling
  obtain ⟨home, _, housed, compiling⟩ := bind_ok.mp compiling
  obtain ⟨rfl, -⟩ := lambdaHome_cases housed
  obtain ⟨_, _, compiling, -⟩ := bind_ok.mp compiling
  obtain ⟨-, start, entered, starting, entering⟩ := compileLambda_ok compiling
  obtain ⟨inner, source, rfl, -⟩ :=
    exists_of_preparing (.ofLambda plan.lambda (context.depth - 1)) entering
  exact ⟨inner, ⟨planned, earlier, housed, starting, source⟩, source⟩

/-- The position of a lambda determines its context. -/
theorem Compiles.unique
    {first second : BodyContext}
    (compiles : context.Compiles index first)
    (others : context.Compiles index second) :
    first = second := by
  obtain ⟨found, earlier, housed, starting, source⟩ := compiles
  obtain ⟨otherFound, otherEarlier, otherHoused, otherStarting, otherSource⟩ := others
  cases found.symm.trans otherFound
  cases earlier.symm.trans otherEarlier
  cases housed.symm.trans otherHoused
  refine eq_of_start (source.trans otherSource.symm) ?_
  exact (EStateM.Result.ok.inj (starting.symm.trans otherStarting)).2

theorem Within.append_singleton
    {outer inner last : BodyContext} {address : List Nat}
    (within : outer.Within address inner)
    (compiles : inner.Compiles index last) :
    outer.Within (address ++ [index]) last := by
  induction within with
  | here context => exact .inside compiles (.here last)
  | inside compilesFirst _ ih =>
    exact .inside compilesFirst (ih compiles)

/-- Every lambda that stands in the body has a context. -/
theorem exists_within {lambda : Lambda} (holds : context.body.Holds lambda) :
    ∃ address inner depth, context.Within address inner ∧
      inner.toBodySource = .ofLambda lambda depth := by
  induction holds with
  | direct member =>
    obtain ⟨index, found⟩ := List.getElem?_of_mem member
    obtain ⟨inner, compiles, source⟩ := exists_compiles found
    exact ⟨[index], inner, _, .inside compiles (.here inner), source⟩
  | @nested around lambda _ member ih =>
    obtain ⟨address, outer, depth, within, outerSource⟩ := ih
    have body : outer.body = around.body := congrArg BodySource.body outerSource
    rw [← body] at member
    obtain ⟨index, found⟩ := List.getElem?_of_mem member
    obtain ⟨inner, compiles, source⟩ := exists_compiles found
    exact ⟨_, inner, _, within.append_singleton compiles, source⟩

end BodyContext

/-! ## The context of the body of a method -/

/-- What comes before the lambdas of an iterator are prepared. -/
def Emit.iteratorStart (layout : Layout) (method : MethodDecl) (body : Stmt) : Emit Unit := do
  let suspension ← moveNextStart layout body
  enterScope
  declareKept layout method.params
  dispatchState suspension

/-- The layout of the class of an iterator, which is made up first. -/
def IteratorClass.newLayout (method : MethodDecl) (element : Ty) (body : Stmt) :
    Generation Layout := do
  let className ← modifyGet ClassContext.newIteratorName
  let cls ← get
  Generation.log .debug ("iterator " ++ cls.name ++ "." ++ method.name ++ " -> " ++ className)
  let layout ← layOut className method element body
  Generation.log .debug
    (className ++ ": " ++ toString layout.promotion.promoted.length ++ " promoted, " ++
      toString layout.promotion.resident.length ++ " lambda-resident locals")
  return layout

/-- A new layout is that of some class. -/
theorem IteratorClass.layOut_of_newLayout
    {method : MethodDecl} {element : Ty} {body : Stmt} {layout : Layout}
    {before after : ClassContext}
    (success : newLayout method element body before = .ok layout after) :
    ∃ className between next, layOut className method element body between = .ok layout next := by
  obtain ⟨className, _, -, rest⟩ := bind_ok.mp success
  obtain ⟨_, _, -, rest⟩ := bind_ok.mp rest
  obtain ⟨_, between, -, rest⟩ := bind_ok.mp rest
  obtain ⟨_, next, layingOut, rest⟩ := bind_ok.mp rest
  obtain ⟨_, _, -, rest⟩ := bind_ok.mp rest
  obtain ⟨rfl, -⟩ := pure_ok.mp rest
  exact ⟨className, between, next, layingOut⟩

/-- The context in which the body of a method of a class is lowered. -/
inductive RootOf (method : MethodDecl) (cls : ClassContext) (root : BodyContext) : Prop where
  | plain {body : Stmt}
      (found : method.body = some body)
      (ordinary : method.element = none)
      (starting :
        declareParams method.params
            { method :=
                .start cls.name method.name method.isStatic method.ret cls.config.varDebugInfo
              cls := cls.write .trace ("lowering " ++ cls.name ++ "." ++ method.name) } =
          .ok () root.start)
      (source : root.toBodySource = .ofMethod method body) :
      RootOf method cls root
  | iterator {body : Stmt} {element : Ty} {layout : Layout} {laidOut : ClassContext}
      (found : method.body = some body)
      (elements : method.element = some element)
      (layingOut : newLayout method element body cls = .ok layout laidOut)
      (starting :
        iteratorStart layout method body
            { method :=
                .start layout.className method.name false .boolean laidOut.config.varDebugInfo
              cls := laidOut } =
          .ok () root.start)
      (source : root.toBodySource = .ofIterator method body layout) :
      RootOf method cls root

namespace RootOf

variable {method : MethodDecl} {cls : ClassContext} {root : BodyContext}

/-- A method that is generated has a context for its body. -/
theorem exists_of_generateBody
    {body : Stmt} {code : Option MethodBody} {after : ClassContext}
    (found : method.body = some body)
    (generated : generateBody method cls = .ok code after) :
    ∃ root, RootOf method cls root := by
  unfold generateBody at generated
  rw [found] at generated
  cases elements : method.element with
  | none =>
    rw [elements] at generated
    have rest := Generation.get_bind_eq.mp generated
    obtain ⟨_, _, logged, rest⟩ := bind_ok.mp rest
    obtain rfl := Generation.modify_ok.mp logged
    obtain ⟨_, _, generated, -⟩ := bind_ok.mp rest
    obtain ⟨_, lowered, -⟩ := Generation.onMethod_ok.mp generated
    rw [plainBody_eq] at lowered
    obtain ⟨entered, entering, -⟩ := seq_ok.mp lowered
    obtain ⟨start, starting, entering⟩ := seq_ok.mp entering
    obtain ⟨root, source, rfl, -⟩ :=
      BodyContext.exists_of_preparing (.ofMethod method body) entering
    exact ⟨root, .plain found elements starting source⟩
  | some element =>
    rw [elements] at generated
    obtain ⟨_, _, generated, -⟩ := bind_ok.mp generated
    obtain ⟨className, _, naming, rest⟩ := bind_ok.mp generated
    replace rest := Generation.get_bind_eq.mp rest
    obtain ⟨_, _, logged, rest⟩ := bind_ok.mp rest
    obtain ⟨layout, _, layingOut, rest⟩ := bind_ok.mp rest
    obtain ⟨_, laidOut, noted, rest⟩ := bind_ok.mp rest
    obtain ⟨_, _, added, -⟩ := bind_ok.mp rest
    obtain ⟨⟨_, _⟩, _, generated, -⟩ := bind_ok.mp added
    have rest := Generation.get_bind_eq.mp generated
    obtain ⟨⟨_, _⟩, _, generated, -⟩ := bind_ok.mp rest
    obtain ⟨_, lowered, -⟩ := Generation.onMethod_ok.mp generated
    have laying : newLayout method element body cls = .ok layout laidOut := by
      refine bind_ok.mpr ⟨_, _, naming, bind_ok.mpr ⟨_, _, rfl, ?_⟩⟩
      refine bind_ok.mpr ⟨_, _, logged, bind_ok.mpr ⟨_, _, layingOut, ?_⟩⟩
      exact bind_ok.mpr ⟨_, _, noted, rfl⟩
    rw [moveNextBody_eq] at lowered
    obtain ⟨suspension, _, beginning, rest⟩ := bind_ok.mp lowered
    obtain ⟨_, opening, rest⟩ := seq_ok.mp rest
    obtain ⟨entered, entering, -⟩ := seq_ok.mp rest
    obtain ⟨_, declaring, entering⟩ := seq_ok.mp entering
    obtain ⟨start, dispatching, entering⟩ := seq_ok.mp entering
    obtain ⟨root, source, rfl, -⟩ :=
      BodyContext.exists_of_preparing (.ofIterator method body layout) entering
    refine ⟨root, .iterator found elements laying ?_ source⟩
    refine bind_ok.mpr ⟨_, _, beginning, seq_ok.mpr ⟨_, opening, ?_⟩⟩
    exact seq_ok.mpr ⟨_, declaring, dispatching⟩

/-- There is no more than one context for the body of a method. -/
theorem unique {other : BodyContext} (first : RootOf method cls root)
    (second : RootOf method cls other) : root = other := by
  cases first with
  | plain found ordinary starting source =>
    cases second with
    | plain otherFound _ otherStarting otherSource =>
      cases found.symm.trans otherFound
      refine BodyContext.eq_of_start (source.trans otherSource.symm) ?_
      exact (EStateM.Result.ok.inj (starting.symm.trans otherStarting)).2
    | iterator _ elements _ _ _ => cases ordinary.symm.trans elements
  | iterator found elements layingOut starting source =>
    cases second with
    | plain _ ordinary _ _ => cases ordinary.symm.trans elements
    | iterator otherFound otherElements otherLayingOut otherStarting otherSource =>
      cases found.symm.trans otherFound
      cases elements.symm.trans otherElements
      cases layingOut.symm.trans otherLayingOut
      refine BodyContext.eq_of_start (source.trans otherSource.symm) ?_
      exact (EStateM.Result.ok.inj (starting.symm.trans otherStarting)).2

end RootOf

/-! ## What contexts declare -/

/-- The locals that a lambda declares, those of the lambdas inside it included. -/
def Lambda.allDeclared (lambda : Lambda) : List LocalDecl :=
  (lambda.visits true).filterMap Visit.decl?

/-- The locals that a body declares, those of the lambdas inside it included. -/
def Stmt.allDeclared (body : Stmt) : List LocalDecl := (body.visits true).filterMap Visit.decl?

/-- The locals that a method declares, those of its lambdas included. -/
def MethodDecl.allDeclared (method : MethodDecl) : List LocalDecl :=
  method.body.toList.flatMap Stmt.allDeclared ++ method.params

theorem Stmt.perm_allDeclared (body : Stmt) :
    body.allDeclared.Perm (body.declaredLocals ++ body.lambdas.flatMap Lambda.allDeclared) := by
  have split := body.perm_visits.filterMap Visit.decl?
  rwa [List.filterMap_append, List.filterMap_flatMap] at split

namespace BodySource

/-- How often a local is declared in a body or in a lambda inside it. -/
def declarations (source : BodySource) (id : LocalId) : Nat :=
  (source.declared ++ source.body.lambdas.flatMap Lambda.allDeclared).countP
    fun decl => decl.id = id

theorem declarations_eq (source : BodySource) (id : LocalId) :
    source.declarations id = source.declared.countP (fun decl => decl.id = id) +
      (source.body.lambdas.map fun lambda =>
        lambda.allDeclared.countP fun decl => decl.id = id).sum := by
  rw [declarations, List.countP_append, List.countP_flatMap]
  rfl

/-- What a lambda declares is declared in it or inside of it. -/
theorem declarations_ofLambda (lambda : Lambda) (depth : Nat) (id : LocalId) :
    (ofLambda lambda depth).declarations id =
      lambda.allDeclared.countP fun decl => decl.id = id := by
  have own : lambda.allDeclared = lambda.params ++ lambda.body.allDeclared := by
    obtain ⟨_, params, _, body, _⟩ := lambda
    rw [Lambda.allDeclared, Lambda.visits, List.filterMap_append, List.filterMap_map]
    congr 1
    exact List.filterMap_some
  refine List.Perm.countP_eq _ ?_
  rw [own]
  refine .trans ?_ ((lambda.body.perm_allDeclared).append_left _).symm
  rw [← List.append_assoc]
  exact List.perm_append_comm.append_right _

/-- A body and its parameters declare what the method declares. -/
theorem declarations_ofMethod
    {method : MethodDecl} {source : BodySource}
    (found : method.body = some source.body)
    (declared : source.declared = source.body.declaredLocals ++ method.params)
    (id : LocalId) :
    source.declarations id = method.allDeclared.countP fun decl => decl.id = id := by
  refine List.Perm.countP_eq _ ?_
  rw [MethodDecl.allDeclared, found, declared, Option.toList_some, List.flatMap_singleton,
    List.append_assoc]
  refine .trans ?_ (source.body.perm_allDeclared.append_right _).symm
  rw [List.append_assoc]
  exact List.perm_append_comm.append_left _

end BodySource

/-- Two members of a list add up to no more than all of them. -/
theorem add_le_sum
    {values : List Nat} {index other first second : Nat}
    (apart : index ≠ other)
    (found : values[index]? = some first)
    (otherFound : values[other]? = some second) :
    first + second ≤ values.sum := by
  induction values generalizing index other with
  | nil => exact nomatch found
  | cons value values ih =>
    rw [List.sum_cons]
    cases index with
    | zero =>
      obtain ⟨other, rfl⟩ := Nat.exists_eq_succ_of_ne_zero apart.symm
      have listed : values[other]? = some second := otherFound
      have member := List.le_sum_of_mem (List.mem_of_getElem? listed)
      obtain rfl : value = first := Option.some.inj found
      omega
    | succ index =>
      have listed : values[index]? = some first := found
      have member := List.le_sum_of_mem (List.mem_of_getElem? listed)
      cases other with
      | zero =>
        obtain rfl : value = second := Option.some.inj otherFound
        omega
      | succ other =>
        have rest := ih (by omega) found otherFound
        omega

namespace BodyContext

variable {outer inner first second : BodyContext} {index other : Nat} {id : LocalId}

/-- How often a lambda declares a local counts for the body around it. -/
theorem Compiles.getElem?_declarations (compiles : outer.Compiles index inner) (id : LocalId) :
    (outer.body.lambdas.map fun lambda =>
      lambda.allDeclared.countP fun decl => decl.id = id)[index]? =
        some (inner.declarations id) := by
  obtain ⟨found, -, -, -, source⟩ := compiles
  rw [source, BodySource.declarations_ofLambda, ← outer.map_plans, List.map_map,
    List.getElem?_map, found]
  rfl

theorem countP_declared_pos {context : BodyContext}
    (declares : id ∈ context.declared.map LocalDecl.id) :
    0 < context.declared.countP fun decl => decl.id = id := by
  obtain ⟨decl, member, rfl⟩ := List.mem_map.mp declares
  exact List.countP_pos_iff.mpr ⟨decl, member, by simp⟩

/-- What an inner body declares is declared in the outer one. -/
theorem Within.declarations_pos {address : List Nat} (within : outer.Within address inner)
    (declares : id ∈ inner.declared.map LocalDecl.id) : 0 < outer.declarations id := by
  induction within with
  | here context =>
    rw [BodySource.declarations_eq]
    exact Nat.add_pos_left (countP_declared_pos declares) _
  | inside compiles _ ih =>
    have member := List.le_sum_of_mem (List.mem_of_getElem? (compiles.getElem?_declarations id))
    have inside := ih declares
    rw [BodySource.declarations_eq]
    omega

/-- A local that is declared once is declared in one context. -/
theorem Within.eq_of_once
    {address otherAddress : List Nat}
    (once : outer.declarations id ≤ 1)
    (within : outer.Within address first)
    (others : outer.Within otherAddress second)
    (declares : id ∈ first.declared.map LocalDecl.id)
    (otherDeclares : id ∈ second.declared.map LocalDecl.id) :
    first = second := by
  induction within generalizing otherAddress with
  | here context =>
    cases others with
    | here _ => rfl
    | inside compiles within =>
      have own := countP_declared_pos declares
      have inside := within.declarations_pos otherDeclares
      have member := List.le_sum_of_mem (List.mem_of_getElem? (compiles.getElem?_declarations id))
      rw [BodySource.declarations_eq] at once
      omega
  | @inside outer inner last index address compiles within ih =>
    have inside := within.declarations_pos declares
    have member := compiles.getElem?_declarations id
    have included := List.le_sum_of_mem (List.mem_of_getElem? member)
    rw [BodySource.declarations_eq] at once
    cases others with
    | here _ =>
      have own := countP_declared_pos otherDeclares
      omega
    | @inside _ otherInner _ other _ otherCompiles otherWithin =>
      by_cases same : index = other
      · subst same
        cases compiles.unique otherCompiles
        exact ih (by omega) otherWithin declares
      · have otherInside := otherWithin.declarations_pos otherDeclares
        have both := add_le_sum same member (otherCompiles.getElem?_declarations id)
        omega

end BodyContext

end StackCode
