import StackCode.Closure.Plan
import StackCode.Lower

/-!
# Lambdas

The lambdas of a body are compiled ahead of it into methods.  If they capture
locals, the body begins by making its scope object; from then on the captured
locals are reached through it.  Lambdas inside lambdas are treated in the same
way, one level of nesting at a time.
-/

namespace StackCode

/-- Where the method of a lambda is put, and how it reaches what it captures. -/
structure LambdaHome where
  /-- The class of the method. -/
  owner : String
  /-- The method has no receiver. -/
  isStatic : Bool
  /-- The slot of the object on which the method is called. -/
  receiver : Option Nat
  /-- The path from the receiver of the method to the receiver of the enclosing body. -/
  path : List FieldRef
  deriving Inhabited

namespace Emit

/-- How the lambdas of a body with its parameters are prepared. -/
abbrev Preparation := Stmt → List LocalDecl → Emit Unit

/-- Copy captured parameters into the scope object. -/
def fillScope (scope : ClosureScope) (slot : Nat) (params : List LocalDecl) : Emit Unit :=
  params.forM fun param => do
    match scope.field? param.id with
    | none => return
    | some field =>
      match ← accessOf param.id {} with
      | .slot source kind =>
        loadRef slot
        load kind source
        putField field
      | .captured _ _ => return

/-- Make the scope object and rebind every captured local to its field. -/
def makeScope
    (scope : ClosureScope)
    (name : String)
    (params : List LocalDecl) :
    Emit Nat := do
  let slot ← newTemp (.ofClass name)
  newObject name
  storeRef slot
  scope.selfField.forM fun field => do
    loadRef slot
    loadRef 0
    putField field
  fillScope scope slot params
  scope.captured.forM fun entry => setAccess entry.1 (.captured (.slot slot) [entry.2])
  return slot

/-- Make the scope object if there is anything to hold. -/
def makeScope? (scope : ClosureScope) (params : List LocalDecl) : Emit (Option Nat) := do
  match scope.name with
  | some name => return some (← makeScope scope name params)
  | none => return none

/-- The home of a lambda. -/
def lambdaHome (scope : ClosureScope) (slot : Option Nat) : LambdaHost → Emit LambdaHome
  | .scope => do
    match scope.name with
    | some owner =>
      return { owner, isStatic := false, receiver := slot, path := scope.selfField.toList }
    | none => defect .missingScope
  | .receiver => do
    return { owner := (← method).className, isStatic := false, receiver := some 0, path := [] }
  | .static => do
    return { owner := (← cls).name, isStatic := true, receiver := none, path := [] }

/-- How the method of a lambda reaches the locals it captures. -/
def capturedAccess (home : LambdaHome) (captures : Captures) : List (LocalId × LocalAccess) :=
  captures.locals.map (fun entry => (entry.1, .captured .self [entry.2])) ++
    captures.outer.map fun entry => (entry.1, .captured .self (home.path ++ entry.2))

/-- The body of the method of a lambda. -/
def lambdaBody
    (prepare : Preparation)
    (lambda : Lambda)
    (access : List (LocalId × LocalAccess))
    (selfPath : List FieldRef) :
    Emit MethodBody := do
  reserveSelf
  lambda.params.forM fun param => discard (declareLocal param)
  access.forM fun entry => setAccess entry.1 entry.2
  setSelfPath selfPath
  prepare lambda.body lambda.params
  lowerBody lambda.body
  finish

/-- The access bits of the method of a lambda. -/
def lambdaFlags (isStatic : Bool) : AccessFlags :=
  if isStatic then AccessFlags.privateAccess ||| AccessFlags.static ||| AccessFlags.synthetic
  else AccessFlags.synthetic

/-- Compile a lambda into a method of its home. -/
def compileLambda
    (prepare : Preparation)
    (home : LambdaHome)
    (plan : LambdaPlan) :
    Emit MethodRef := do
  let lambda := plan.lambda
  let outside ← method
  let name ← takeClass fun cls => cls.newLambdaName outside.methodName
  log .debug
    ("compiling lambda #" ++ toString lambda.id.index ++ " as " ++ home.owner ++ "." ++ name)
  let context :=
    MethodContext.start home.owner outside.methodName home.isStatic lambda.ret
      (← cls).config.varDebugInfo
  let access := capturedAccess home plan.captures
  let selfPath := home.path ++ outside.selfPath
  let body ← aside (onMethod context (lambdaBody prepare lambda access selfPath))
  let params := lambda.params.map fun param => param.type.erasure
  let ret := lambda.ret.erasure
  let compiled : MethodDef :=
    { name, flags := lambdaFlags home.isStatic, params, ret, body := some body }
  modifyClass fun cls => { cls with methods := cls.methods.push (home.owner, compiled) }
  return {
    owner := home.owner
    name
    params := params.map Ty.ofErased
    ret := .ofErased ret
    invoke := if home.isStatic then .static else .virtual }

/-- Compile a lambda and note which method it has become. -/
def compilePlan
    (prepare : Preparation)
    (scope : ClosureScope)
    (slot : Option Nat)
    (plan : LambdaPlan) :
    Emit Unit := do
  let home ← lambdaHome scope slot plan.host
  let target ← compileLambda prepare home plan
  registerLambda plan.lambda.id { method := target, receiver := home.receiver }

/-- Add a scope class to the synthetic classes. -/
def addScopeClass (scope : ClosureScope) : Emit Unit :=
  scope.toClass?.forM fun cls => do
    log .debug
      ("closure scope " ++ cls.name ++ " with " ++ toString cls.fields.length ++ " fields")
    modifyClass fun context => { context with nested := context.nested.push cls }

/-- Prepare the lambdas of a body; `prepare` does so for the lambdas inside them. -/
def prepareWith
    (prepare : Preparation)
    (body : Stmt)
    (params : List LocalDecl) :
    Emit Unit := do
  let outer := (← method).className
  let (plans, scope) ← planLambdas (body.declaredLocals ++ params) body.lambdas { outer }
  let slot ← makeScope? scope params
  plans.forM (compilePlan prepare scope slot)
  addScopeClass scope

/-- Prepare the lambdas of a body that are nested at most so deeply. -/
def prepareWithin : Nat → Preparation
  | 0, body, _ => if body.lambdas.isEmpty then return else defect .nesting
  | depth + 1, body, params => prepareWith (prepareWithin depth) body params

/-- Prepare the lambdas of a body; this comes before the body is lowered. -/
def prepareLambdas : Preparation := fun body params =>
  prepareWithin body.lambdaCount body params

end Emit

end StackCode
