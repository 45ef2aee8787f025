import StackCode.Context.Method

/-!
# Closure scopes

The locals of a body that lambdas capture live in the fields of one scope
object.  Its class is made up when the first field is asked for, and every
lambda that captures a local shares its field.
-/

namespace StackCode

/-- The class of the scope object of a body. -/
structure ClosureScope where
  /-- The class of the receiver of the body. -/
  outer : String
  /-- The name of the scope class, once it has a field. -/
  name : Option String := none
  /-- The fields of the scope class. -/
  fields : List FieldDef := []
  /-- The captured locals, in the order of their first captures. -/
  captured : List (LocalId × FieldRef) := []
  /-- The field that refers back to the receiver of the body. -/
  selfField : Option FieldRef := none
  deriving Inhabited

namespace ClosureScope

/-- The field of a captured local. -/
def field? (scope : ClosureScope) (id : LocalId) : Option FieldRef := scope.captured.lookup id

/-- The name of the scope class, made up if it has none yet. -/
def owner (scope : ClosureScope) (cls : ClassContext) : String × ClassContext :=
  match scope.name with
  | some name => (name, cls)
  | none => cls.newScopeName

/-- Give a local a field of the class of the given name. -/
def addCaptured
    (scope : ClosureScope)
    (owner : String)
    (decl : LocalDecl) :
    FieldRef × ClosureScope :=
  let name := FieldDef.nameFor scope.fields decl.name decl.id
  let type := decl.type.erasure
  let field := FieldRef.ofErased owner name type
  (field,
    { scope with
      name := some owner
      fields := scope.fields ++ [{ name, type, flags := AccessFlags.synthetic }]
      captured := scope.captured ++ [(decl.id, field)] })

/-- The field of a local, which is captured if it was not yet. -/
def capture
    (scope : ClosureScope)
    (decl : LocalDecl)
    (cls : ClassContext) :
    (FieldRef × ClosureScope) × ClassContext :=
  match scope.field? decl.id with
  | some field => ((field, scope), cls)
  | none =>
    let (owner, cls) := scope.owner cls
    (scope.addCaptured owner decl, cls)

/-- A captured local has the field that its capture returned. -/
theorem field?_capture (scope : ClosureScope) (decl : LocalDecl) (cls : ClassContext) :
    (scope.capture decl cls).1.2.field? decl.id = some (scope.capture decl cls).1.1 := by
  cases found : scope.field? decl.id with
  | some field => simp [capture, found]
  | none =>
    have absent : List.lookup decl.id scope.captured = none := found
    simp [capture, addCaptured, field?, List.lookup_append, absent]

/-- Give the receiver of the body a field of the class of the given name. -/
def addSelf (scope : ClosureScope) (owner : String) : FieldRef × ClosureScope :=
  let type : Erased := .named scope.outer
  let field := FieldRef.ofErased owner outerFieldName type
  let flags := AccessFlags.final ||| AccessFlags.synthetic
  (field,
    { scope with
      name := some owner
      fields := scope.fields ++ [{ name := outerFieldName, type, flags }]
      selfField := some field })

/-- The field that refers back to the receiver of the body. -/
def captureSelf
    (scope : ClosureScope)
    (cls : ClassContext) :
    (FieldRef × ClosureScope) × ClassContext :=
  match scope.selfField with
  | some field => ((field, scope), cls)
  | none =>
    let (owner, cls) := scope.owner cls
    (scope.addSelf owner, cls)

/-- The scope class, if there is anything to hold. -/
def toClass? (scope : ClosureScope) : Option ClassDef :=
  scope.name.map fun name => .synthetic name scope.fields

end ClosureScope

end StackCode
