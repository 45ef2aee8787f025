import StackCode.Closure.Scope
import StackCode.Emit
import StackCode.Tree.FreeLocals

/-!
# What lambdas capture

Before a body is lowered, every lambda in it is given a home: the scope class if
it captures locals of the body, the class of the receiver if it only reaches
what the receiver holds, and the enclosing class, as a static method, if it
captures nothing.
-/

namespace StackCode

/-- Where the method of a lambda is put. -/
inductive LambdaHost where
  /-- On the scope class. -/
  | scope
  /-- On the class of the receiver. -/
  | receiver
  /-- On the enclosing class, without a receiver. -/
  | static
  deriving DecidableEq, Repr, Inhabited

/-- The locals that a lambda captures. -/
structure Captures where
  /-- The locals of the body, with their fields in the scope. -/
  locals : List (LocalId × FieldRef) := []
  /-- The locals that the receiver of the body holds, with the paths to them. -/
  outer : List (LocalId × List FieldRef) := []
  deriving Inhabited

/-- A lambda with what it captures and where its method is put. -/
structure LambdaPlan where
  /-- The lambda. -/
  lambda : Lambda
  /-- The place of its method. -/
  host : LambdaHost
  /-- What it captures. -/
  captures : Captures

namespace Emit

/-- Capture one local. -/
def captureLocal
    (decls : List LocalDecl)
    (span : Span)
    (state : Captures × ClosureScope)
    (id : LocalId) :
    Emit (Captures × ClosureScope) := do
  let (captures, scope) := state
  match (← method).locals.lookup id with
  | some (.captured .self path) =>
    return ({ captures with outer := captures.outer ++ [(id, path)] }, scope)
  | _ =>
    match LocalDecl.lookup? decls id with
    | none => throw (.unknownLocal id span)
    | some decl =>
      let (field, scope) ← takeClass (scope.capture decl)
      return ({ captures with locals := captures.locals ++ [(id, field)] }, scope)

/-- Choose the place of the method of a lambda. -/
def chooseHost
    (lambda : Lambda)
    (captures : Captures)
    (scope : ClosureScope) :
    Emit (LambdaHost × ClosureScope) := do
  let needsOuter := lambda.body.usesSelf || !captures.outer.isEmpty
  if !captures.locals.isEmpty then
    if needsOuter then
      let (_, scope) ← takeClass scope.captureSelf
      return (.scope, scope)
    else return (.scope, scope)
  else if needsOuter then
    let method ← method
    if method.isStatic then defect (.staticReceiver lambda.body.span method.methodName)
    else return (.receiver, scope)
  else return (.static, scope)

/-- Plan one lambda. -/
def planLambda
    (decls : List LocalDecl)
    (scope : ClosureScope)
    (lambda : Lambda) :
    Emit (LambdaPlan × ClosureScope) := do
  let (captures, scope) ←
    lambda.freeLocals.foldlM (captureLocal decls lambda.body.span) ({}, scope)
  let (host, scope) ← chooseHost lambda captures scope
  return ({ lambda, host, captures }, scope)

/-- Plan lambdas in sequence; they share one scope. -/
def planLambdas
    (decls : List LocalDecl) :
    List Lambda → ClosureScope → Emit (List LambdaPlan × ClosureScope)
  | [], scope => return ([], scope)
  | lambda :: lambdas, scope => do
    let (plan, scope) ← planLambda decls scope lambda
    let (plans, scope) ← planLambdas decls lambdas scope
    return (plan :: plans, scope)

end Emit

end StackCode
