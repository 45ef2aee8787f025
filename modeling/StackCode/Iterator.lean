import StackCode.Closure
import StackCode.Iterator.Promotion
import StackCode.Iterator.Protocol
import StackCode.Tree.Declaration

/-!
# Iterators

A method that hands out elements is split in two.  Its own body only makes a
state object and copies the receiver and the parameters into it.  The statements
become the method `moveNext` of the class of the state object, which goes to
where it was suspended through a table of points of resumption.
-/

namespace StackCode
namespace IteratorClass

/-- What the class of the state object of an iterator is made of. -/
structure Layout where
  /-- The name of the class. -/
  className : String
  /-- The type of the elements. -/
  element : Ty
  /-- The locals that have a field. -/
  promotion : Promotion
  /-- The fields. -/
  fields : List FieldDef
  /-- The fields of the locals. -/
  localFields : List (LocalId × FieldRef)
  /-- The field that refers back to the receiver of the method. -/
  outerField : Option FieldRef

/-- The fields that keep track of the iteration. -/
def machineFields (element : Ty) (withProtocol : Bool) : List FieldDef :=
  let flags := AccessFlags.synthetic
  [{ name := stateFieldName, type := .prim .int, flags },
    { name := currentFieldName, type := element.erasure, flags }] ++
    if withProtocol then [{ name := hasNextFieldName, type := .prim .int, flags }] else []

/-- The field for the receiver of the method. -/
def outerFieldDef (owner : String) : FieldDef :=
  { name := outerFieldName
    type := .named owner
    flags := AccessFlags.final ||| AccessFlags.synthetic }

/-- Give a local a field. -/
def addLocal (layout : Layout) (decl : LocalDecl) : Layout :=
  let name := FieldDef.nameFor layout.fields decl.name decl.id
  let type := decl.type.erasure
  { layout with
    fields := layout.fields ++ [{ name, type, flags := AccessFlags.synthetic }]
    localFields := layout.localFields ++ [(decl.id, .ofErased layout.className name type)] }

/-- Give every local that needs one a field. -/
def addLocals (decls : List LocalDecl) (span : Span) (layout : Layout) (ids : List LocalId) :
    Generation Layout :=
  ids.foldlM (fun layout id =>
    match LocalDecl.lookup? decls id with
    | some decl => return addLocal layout decl
    | none => throw (.unknownLocal id span)) layout

/-- The layout of the class for an iterator method. -/
def layOut
    (className : String)
    (method : MethodDecl)
    (element : Ty)
    (body : Stmt) :
    Generation Layout := do
  let cls ← get
  let hasOuter := !method.isStatic && body.usesSelf
  let outer := if hasOuter then [outerFieldDef cls.name] else []
  let promotion := body.promotion method.params
  let layout : Layout :=
    { className
      element
      promotion
      fields := machineFields element cls.config.iteratorProtocol ++ outer
      localFields := []
      outerField := outer.head?.map fun field => .ofErased className field.name field.type }
  addLocals (body.declaredLocals ++ method.params) method.span layout
    (promotion.promoted ++ promotion.resident)

/-- The fields of the given locals. -/
def Layout.fieldsOf (layout : Layout) (ids : List LocalId) : List (LocalId × FieldRef) :=
  layout.localFields.filter fun entry => ids.contains entry.1

open Emit in
/-- Go to where the iterator was suspended. -/
def dispatchState (suspension : Suspension) : Emit Unit := do
  loadRef 0
  getField suspension.state
  let last : Int32 := .ofNat (suspension.resume.length - 1)
  emit (.tableSwitch 0 last suspension.exhausted suspension.resume)
  suspension.resume.head?.forM mark
  reloadLive

open Emit in
/-- Declare the parameters that have fields. -/
def declareKept (layout : Layout) (params : List LocalDecl) : Emit Unit :=
  params.forM fun param => do
    if (layout.localFields.lookup param.id).isSome then discard (declareLocal param)

open Emit in
/-- The body of `moveNext`, with the fields for the temporaries it has to keep. -/
def moveNextBody (layout : Layout) (method : MethodDecl) (body : Stmt) :
    Emit (MethodBody × List FieldDef) := do
  reserveSelf
  setSelfPath layout.outerField.toList
  let suspension ← beginSuspension layout.className layout.element body.countYields
    (layout.fieldsOf layout.promotion.promoted)
  (layout.fieldsOf layout.promotion.resident).forM fun entry =>
    setAccess entry.1 (.captured .self [entry.2])
  inScope do
    declareKept layout method.params
    dispatchState suspension
    prepareLambdas body []
    setParents body
    lower body
    mark suspension.exhausted
    finishIteration suspension.state
  let spills := ((← Emit.method).suspension.map Suspension.spills).getD []
  return (← finish, spills)

/-- The method that runs the body, with the fields for the temporaries it has to keep. -/
def moveNextMethod (layout : Layout) (method : MethodDecl) (body : Stmt) :
    Generation (MethodDef × List FieldDef) := do
  let context :=
    MethodContext.start layout.className method.name false .boolean (← get).config.varDebugInfo
  let (body, spills) ← Emit.onMethod context (moveNextBody layout method body)
  return ({ name := moveNextName
            flags := AccessFlags.publicAccess
            ret := .prim .boolean
            body := some body }, spills)

/-- Add the class of the state object to the synthetic classes. -/
def addClass (layout : Layout) (method : MethodDecl) (body : Stmt) : Generation Unit := do
  let (moveNext, spills) ← moveNextMethod layout method body
  let shell := ClassDef.synthetic layout.className (layout.fields ++ spills)
  let withProtocol := (← get).config.iteratorProtocol
  let protocol ← if withProtocol then protocolMethods layout.className layout.element else pure []
  let cls : ClassDef :=
    { shell with
      interfaces := if withProtocol then [Library.iterator, Library.iterable] else []
      methods := shell.methods ++ [moveNext] ++ protocol }
  modify fun context => { context with nested := context.nested.push cls }

open Emit in
/-- The body of the iterator method itself: make the state object and fill it. -/
def entryBody (layout : Layout) (method : MethodDecl) : Emit MethodBody := do
  reserveSelf
  method.params.forM fun param => discard (declareLocal param)
  let state ← newTemp (.ofClass layout.className)
  newObject layout.className
  storeRef state
  layout.outerField.forM fun field => do
    loadRef state
    loadRef 0
    putField field
  method.params.forM fun param =>
    (layout.localFields.lookup param.id).forM fun field => do
      loadRef state
      loadLocal param.id method.span
      putField field
  loadRef state
  returnKind .reference
  finish

/-- Compile an iterator method and return the body of the method itself. -/
def compile (method : MethodDecl) (element : Ty) (body : Stmt) : Generation MethodBody := do
  let className ← modifyGet ClassContext.newIteratorName
  let cls ← get
  Generation.log .debug ("iterator " ++ cls.name ++ "." ++ method.name ++ " -> " ++ className)
  let layout ← layOut className method element body
  Generation.log .debug
    (className ++ ": " ++ toString layout.promotion.promoted.length ++ " promoted, " ++
      toString layout.promotion.resident.length ++ " lambda-resident locals")
  addClass layout method body
  let context :=
    MethodContext.start cls.name method.name method.isStatic method.ret cls.config.varDebugInfo
  Emit.onMethod context (entryBody layout method)

end IteratorClass
end StackCode
