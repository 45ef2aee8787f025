import StackCode.Tree.Basic

/-!
# Declarations

Methods and classes as they are declared, before any code is generated for them.
-/

namespace StackCode

/-- A method that another one overrides, as its own class declares it. -/
structure MethodSignature where
  /-- The internal name of the declaring class. -/
  owner : String
  /-- The method's name. -/
  name : String
  /-- The parameter types, before erasure. -/
  params : List Ty
  /-- The result type, before erasure. -/
  ret : Ty
  deriving Repr, Inhabited

/-- A declared method. -/
structure MethodDecl where
  /-- The method's name. -/
  name : String
  /-- The declared modifiers. -/
  modifiers : List Modifier := [.publicAccess]
  /-- The parameters. -/
  params : List LocalDecl := []
  /-- The result type. -/
  ret : Ty := .void
  /-- The body; abstract and native methods have none. -/
  body : Option Stmt := none
  /-- The last parameter takes any number of arguments. -/
  isVarargs : Bool := false
  /-- The methods that this one overrides. -/
  overrides : List MethodSignature := []
  /-- The type of the elements, if the method is an iterator. -/
  element : Option Ty := none
  /-- The position in the source. -/
  span : Span := {}
  deriving Inhabited

namespace MethodDecl

/-- The method has no receiver. -/
def isStatic (method : MethodDecl) : Bool := method.modifiers.contains .static

/-- The method is visible in its own class only. -/
def isPrivate (method : MethodDecl) : Bool := method.modifiers.contains .privateAccess

/-- The access bits of a method. -/
def flags (method : MethodDecl) : AccessFlags :=
  let flags := AccessFlags.ofModifiers method.modifiers
  if method.isVarargs then flags ||| AccessFlags.varargs else flags

/-- The erased parameter types. -/
def erasedParams (method : MethodDecl) : List Erased :=
  method.params.map fun param => param.type.erasure

end MethodDecl

/-- A declared class. -/
structure ClassDecl where
  /-- The internal name of the class. -/
  name : String
  /-- The internal name of its superclass. -/
  superName : String := objectName
  /-- The internal names of its interfaces. -/
  interfaces : List String := []
  /-- The declared modifiers. -/
  modifiers : List Modifier := [.publicAccess]
  /-- The declared methods. -/
  methods : List MethodDecl := []
  deriving Inhabited

end StackCode
