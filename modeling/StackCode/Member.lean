import StackCode.Ty

/-!
# Members and access flags

Resolved references to methods and fields, their descriptors, the declared
modifiers with the access flags they stand for, and the library members that
generated code relies on.
-/

namespace StackCode

/-- The erased descriptor of a method with the given parameter and result types. -/
def methodDescriptor (params : List Erased) (ret : Erased) : String :=
  "(" ++ String.join (params.map Erased.descriptor) ++ ")" ++ ret.descriptor

/-- How a method is dispatched. -/
inductive InvokeKind where
  | static
  | virtual
  | interface
  | special
  deriving DecidableEq, Repr, Inhabited

/-- The mnemonic of the invocation instruction. -/
def InvokeKind.mnemonic : InvokeKind → String
  | static => "invokestatic"
  | virtual => "invokevirtual"
  | interface => "invokeinterface"
  | special => "invokespecial"

/-- A resolved method. -/
structure MethodRef where
  /-- The internal name of the declaring class. -/
  owner : String
  /-- The method's name. -/
  name : String
  /-- The parameter types, before erasure. -/
  params : List Ty
  /-- The result type, before erasure. -/
  ret : Ty
  /-- The dispatch of a call. -/
  invoke : InvokeKind
  deriving Repr, Inhabited

namespace MethodRef

/-- The erased descriptor of the method. -/
def descriptor (method : MethodRef) : String :=
  methodDescriptor (method.params.map Ty.erasure) method.ret.erasure

/-- Owner, name and descriptor in one text. -/
def text (method : MethodRef) : String :=
  method.owner ++ "." ++ method.name ++ method.descriptor

/-- The stack words that the arguments take, the receiver left out. -/
def argWords (method : MethodRef) : Nat :=
  method.params.foldl (fun words type => words + type.kind.width) 0

end MethodRef

/-- A resolved field. -/
structure FieldRef where
  /-- The internal name of the declaring class. -/
  owner : String
  /-- The field's name. -/
  name : String
  /-- The field's type, before erasure. -/
  type : Ty
  /-- The field belongs to the class and not to its instances. -/
  isStatic : Bool
  deriving Repr, Inhabited

namespace FieldRef

/-- Owner, name and descriptor in one text. -/
def text (field : FieldRef) : String :=
  field.owner ++ "." ++ field.name ++ ":" ++ field.type.descriptor

/-- An instance field of an erased type. -/
def ofErased (owner name : String) (type : Erased) : FieldRef :=
  { owner, name, type := Ty.ofErased type, isStatic := false }

end FieldRef

/-- A declared modifier of a class or method. -/
inductive Modifier where
  | publicAccess
  | protectedAccess
  | privateAccess
  | static
  | final
  | abstract
  | native
  | synchronized
  deriving DecidableEq, Repr, Inhabited

/-- A set of access bits. -/
abbrev AccessFlags := UInt16

namespace AccessFlags

/-- Visible everywhere. -/
def publicAccess : AccessFlags := 0x0001

/-- Visible in the declaring class only. -/
def privateAccess : AccessFlags := 0x0002

/-- Visible in subclasses. -/
def protectedAccess : AccessFlags := 0x0004

/-- Belongs to the class. -/
def static : AccessFlags := 0x0008

/-- Cannot be changed or overridden. -/
def final : AccessFlags := 0x0010

/-- Set on every class: superclass calls are dispatched the modern way. -/
def super : AccessFlags := 0x0020

/-- Set on a method that holds its receiver's monitor. -/
def synchronized : AccessFlags := 0x0020

/-- Set on a forwarding method that erasure makes necessary. -/
def bridge : AccessFlags := 0x0040

/-- Takes a variable number of arguments. -/
def varargs : AccessFlags := 0x0080

/-- Implemented outside the machine. -/
def native : AccessFlags := 0x0100

/-- Has no body. -/
def abstract : AccessFlags := 0x0400

/-- Does not appear in the source. -/
def synthetic : AccessFlags := 0x1000

/-- The three bits that decide accessibility. -/
def accessibility : AccessFlags := publicAccess ||| privateAccess ||| protectedAccess

end AccessFlags

/-- The bit of one modifier. -/
def Modifier.flag : Modifier → AccessFlags
  | publicAccess => AccessFlags.publicAccess
  | privateAccess => AccessFlags.privateAccess
  | protectedAccess => AccessFlags.protectedAccess
  | static => AccessFlags.static
  | final => AccessFlags.final
  | abstract => AccessFlags.abstract
  | native => AccessFlags.native
  | synchronized => AccessFlags.synchronized

/-- The union of the bits of a list of modifiers. -/
def AccessFlags.ofModifiers (modifiers : List Modifier) : AccessFlags :=
  modifiers.foldl (fun flags modifier => flags ||| modifier.flag) 0

/-! ## Members of the class library -/

namespace Library

/-- The name of every constructor. -/
def constructorName : String := "<init>"

/-- The class of hash maps. -/
def hashMap : String := "java/util/HashMap"

/-- The wrapper class of integers. -/
def integer : String := "java/lang/Integer"

/-- The interface of iterators. -/
def iterator : String := "java/util/Iterator"

/-- The interface of iterable objects. -/
def iterable : String := "java/lang/Iterable"

/-- Thrown when an exhausted iterator is asked for an element. -/
def noSuchElement : String := "java/util/NoSuchElementException"

/-- The class of everything that can be thrown. -/
def throwable : String := "java/lang/Throwable"

/-- The constructor without arguments of a class. -/
def constructor (owner : String) : MethodRef :=
  { owner, name := constructorName, params := [], ret := .void, invoke := .special }

/-- Equality of strings. -/
def stringEquals : MethodRef :=
  { owner := stringName
    name := "equals"
    params := [.object]
    ret := .boolean
    invoke := .virtual }

/-- Look a key up in a hash map; the answer is null for a key it does not hold. -/
def hashMapGet : MethodRef :=
  { owner := hashMap, name := "get", params := [.object], ret := .object, invoke := .virtual }

/-- Enter a key with its value into a hash map. -/
def hashMapPut : MethodRef :=
  { owner := hashMap
    name := "put"
    params := [.object, .object]
    ret := .object
    invoke := .virtual }

/-- The number inside a boxed integer. -/
def integerValue : MethodRef :=
  { owner := integer, name := "intValue", params := [], ret := .int, invoke := .virtual }

/-- The class whose instances wrap a primitive value; there is none for `void`. -/
def wrapper? : Primitive → Option String
  | .boolean => some "java/lang/Boolean"
  | .byte => some "java/lang/Byte"
  | .short => some "java/lang/Short"
  | .char => some "java/lang/Character"
  | .int => some integer
  | .long => some "java/lang/Long"
  | .float => some "java/lang/Float"
  | .double => some "java/lang/Double"
  | .void => none

/-- The factory method of a wrapper class. -/
def boxInto (wrapper : String) (primitive : Primitive) : MethodRef :=
  { owner := wrapper, name := "valueOf", params := [.prim primitive], ret := .ofClass wrapper,
    invoke := .static }

/-- The method that boxes a primitive value. -/
def box? (primitive : Primitive) : Option MethodRef :=
  (wrapper? primitive).map fun wrapper => boxInto wrapper primitive

/-- The method that boxes an integer. -/
def boxInteger : MethodRef := boxInto integer .int

end Library

end StackCode
