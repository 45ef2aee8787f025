import StackCode.Code.Buffer

/-!
# Generated classes

What a generation produces: classes with fields and methods whose bodies are
finished.  The classes that the generator makes up stand beside the declared one.
-/

namespace StackCode

/-- A generated field. -/
structure FieldDef where
  /-- The field's name. -/
  name : String
  /-- The field's erased type. -/
  type : Erased
  /-- The access bits. -/
  flags : AccessFlags
  deriving DecidableEq, Repr, Inhabited

/-- A name for the field of a local: its own, or one with its number if that is taken. -/
def FieldDef.nameFor (fields : List FieldDef) (name : String) (id : LocalId) : String :=
  if fields.any fun field => field.name == name then name ++ "$" ++ toString id.index else name

/-- A generated method. -/
structure MethodDef where
  /-- The method's name. -/
  name : String
  /-- The access bits. -/
  flags : AccessFlags
  /-- The erased parameter types. -/
  params : List Erased := []
  /-- The erased result type. -/
  ret : Erased
  /-- The body; abstract and native methods have none. -/
  body : Option MethodBody
  deriving Inhabited

namespace MethodDef

/-- The erased descriptor of the method. -/
def descriptor (method : MethodDef) : String := methodDescriptor method.params method.ret

/-- The method only forwards to another one. -/
def isBridge (method : MethodDef) : Bool := method.flags &&& AccessFlags.bridge != 0

/-- The constructor of a class that has nothing to initialise. -/
def defaultConstructor : MethodDef :=
  { name := Library.constructorName
    flags := AccessFlags.publicAccess
    ret := .prim .void
    body := some <| .straight 1
      [.load .reference 0, .invoke (Library.constructor objectName), .plain .returnVoid] }

end MethodDef

/-- A generated class. -/
structure ClassDef where
  /-- The internal name of the class. -/
  name : String
  /-- The internal name of its superclass. -/
  superName : String := objectName
  /-- The internal names of its interfaces. -/
  interfaces : List String := []
  /-- The access bits. -/
  flags : AccessFlags
  /-- The fields. -/
  fields : List FieldDef := []
  /-- The methods. -/
  methods : List MethodDef := []
  deriving Inhabited

namespace ClassDef

/-- The first method with a name. -/
def method? (cls : ClassDef) (name : String) : Option MethodDef :=
  cls.methods.find? fun method => method.name == name

/-- All methods with a name. -/
def methodsNamed (cls : ClassDef) (name : String) : List MethodDef :=
  cls.methods.filter fun method => method.name == name

/-- The first field with a name. -/
def field? (cls : ClassDef) (name : String) : Option FieldDef :=
  cls.fields.find? fun field => field.name == name

/-- The listings of the methods of a class that have a body. -/
def listings (cls : ClassDef) : List String :=
  cls.methods.filterMap fun method =>
    method.body.map fun body =>
      cls.name ++ "." ++ method.name ++ method.descriptor ++ "\n" ++ body.listing

end ClassDef

/-- A generated class together with the synthetic classes that belong to it. -/
structure ClassBundle where
  /-- The class itself. -/
  main : ClassDef
  /-- The synthetic classes. -/
  nested : List ClassDef := []
  deriving Inhabited

/-- A synthetic class with the constructor it needs. -/
def ClassDef.synthetic (name : String) (fields : List FieldDef) : ClassDef :=
  { name
    flags := AccessFlags.final ||| AccessFlags.super ||| AccessFlags.synthetic
    fields
    methods := [.defaultConstructor] }

/-- The first synthetic class with a name. -/
def ClassBundle.nested? (bundle : ClassBundle) (name : String) : Option ClassDef :=
  bundle.nested.find? fun cls => cls.name == name

end StackCode
