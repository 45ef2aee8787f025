/-!
# Resolved types

The types that the tree attaches to its expressions and locals, and the erased
types that remain in the generated code.  Erasure forgets type arguments and
replaces a type variable by its bound; descriptors are a function of the erased
type alone.
-/

namespace StackCode

/-- The primitive types of the machine, together with `void`. -/
inductive Primitive where
  | boolean
  | byte
  | short
  | char
  | int
  | long
  | float
  | double
  | void
  deriving DecidableEq, Repr, Inhabited

namespace Primitive

/-- The descriptor letter of a primitive type. -/
def letter : Primitive → Char
  | boolean => 'Z'
  | byte => 'B'
  | short => 'S'
  | char => 'C'
  | int => 'I'
  | long => 'J'
  | float => 'F'
  | double => 'D'
  | void => 'V'

/-- The source name of a primitive type. -/
def text : Primitive → String
  | boolean => "boolean"
  | byte => "byte"
  | short => "short"
  | char => "char"
  | int => "int"
  | long => "long"
  | float => "float"
  | double => "double"
  | void => "void"

end Primitive

/-- The kind of a value on the operand stack or in a local slot. -/
inductive ValueKind where
  | int
  | long
  | float
  | double
  | reference
  | void
  deriving DecidableEq, Repr, Inhabited

namespace ValueKind

/-- The number of slots or stack words that a value of the kind occupies. -/
def width : ValueKind → Nat
  | long => 2
  | double => 2
  | void => 0
  | _ => 1

/-- The name of a kind as it stands in error messages. -/
def text : ValueKind → String
  | int => "Int"
  | long => "Long"
  | float => "Float"
  | double => "Double"
  | reference => "Reference"
  | void => "Void"

/-- The letter that selects the typed form of a load or store. -/
def letter : ValueKind → String
  | int => "i"
  | long => "l"
  | float => "f"
  | double => "d"
  | reference => "a"
  | void => "a"

end ValueKind

/-- The kind of value that a primitive type has at run time. -/
def Primitive.kind : Primitive → ValueKind
  | long => .long
  | float => .float
  | double => .double
  | void => .void
  | _ => .int

/-- Names of the two classes that the type system itself refers to. -/
def objectName : String := "java/lang/Object"

@[inherit_doc objectName]
def stringName : String := "java/lang/String"

/-- An erased type: no type variable and no type argument is left. -/
inductive Erased where
  /-- A primitive type is its own erasure. -/
  | prim (primitive : Primitive)
  /-- A class, by its internal name. -/
  | named (name : String)
  /-- An array of erased elements. -/
  | array (element : Erased)
  deriving DecidableEq, Repr, Inhabited

namespace Erased

/-- The erased type of the root class. -/
def object : Erased := .named objectName

/-- The run-time kind of a value of an erased type. -/
def kind : Erased → ValueKind
  | prim primitive => primitive.kind
  | named _ => .reference
  | array _ => .reference

/-- Every erased type but a primitive one is a reference type. -/
def isReference : Erased → Bool
  | prim _ => false
  | named _ => true
  | array _ => true

/-- The field descriptor of an erased type. -/
def descriptor : Erased → String
  | prim primitive => primitive.letter.toString
  | named name => "L" ++ name ++ ";"
  | array element => "[" ++ element.descriptor

/-- The name under which instructions refer to an erased type. -/
def internalName : Erased → String
  | named name => name
  | other => other.descriptor

/-- The source text of an erased type. -/
def text : Erased → String
  | prim primitive => primitive.text
  | named name => name
  | array element => element.text ++ "[]"

end Erased

/-- A resolved type; class names are internal names with slashes. -/
inductive Ty where
  /-- A primitive type. -/
  | prim (primitive : Primitive)
  /-- A class with its type arguments. -/
  | named (name : String) (args : List Ty)
  /-- A type variable with its upper bound, if it has one. -/
  | var (name : String) (bound : Option Ty)
  /-- An array type. -/
  | array (element : Ty)
  deriving Repr, Inhabited

namespace Ty

/-- A class without type arguments. -/
def ofClass (name : String) : Ty := .named name []

/-- The type of integers. -/
def int : Ty := .prim .int

/-- The type of truth values. -/
def boolean : Ty := .prim .boolean

/-- The type of a method that returns nothing. -/
def void : Ty := .prim .void

/-- The root class. -/
def object : Ty := ofClass objectName

/-- The class of strings. -/
def string : Ty := ofClass stringName

/-- An erased type is itself a type. -/
def ofErased : Erased → Ty
  | .prim primitive => .prim primitive
  | .named name => ofClass name
  | .array element => .array (ofErased element)

/-- Forget type arguments, and replace a type variable by the erasure of its bound. -/
def erasure : Ty → Erased
  | prim primitive => .prim primitive
  | named name _ => .named name
  | var _ none => .object
  | var _ (some bound) => bound.erasure
  | array element => .array element.erasure

/-- The field descriptor of the erased type. -/
def descriptor (type : Ty) : String := type.erasure.descriptor

/-- The name under which instructions refer to the erased type. -/
def internalName (type : Ty) : String := type.erasure.internalName

/-- The run-time kind of a value; whatever its bound, a type variable holds references. -/
def kind : Ty → ValueKind
  | prim primitive => primitive.kind
  | named _ _ => .reference
  | var _ _ => .reference
  | array _ => .reference

/-- The type is the type of methods without a result. -/
def isVoid : Ty → Bool
  | prim .void => true
  | _ => false

/-- Every type but a primitive one is a reference type. -/
def isReference : Ty → Bool
  | prim _ => false
  | _ => true

/-- The type is the class of strings, with or without arguments. -/
def isString : Ty → Bool
  | named name _ => name == stringName
  | _ => false

/-- The element type of an array type. -/
def element? : Ty → Option Ty
  | array element => some element
  | _ => none

mutual

/-- The source text of a type. -/
def text : Ty → String
  | prim primitive => primitive.text
  | named name [] => name
  | named name (arg :: args) => name ++ "<" ++ arg.text ++ textTail args ++ ">"
  | var name _ => name
  | array element => element.text ++ "[]"

/-- The source texts of the type arguments that follow a first one. -/
def textTail : List Ty → String
  | [] => ""
  | arg :: args => ", " ++ arg.text ++ textTail args

end

@[simp] theorem erasure_ofErased (type : Erased) : (ofErased type).erasure = type := by
  induction type with
  | prim primitive => rfl
  | named name => rfl
  | array element ih => simp [ofErased, erasure, ih]

end Ty

end StackCode
