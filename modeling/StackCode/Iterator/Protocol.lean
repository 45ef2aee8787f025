import StackCode.Emit

/-!
# The members of an iterator class

Besides `moveNext`, which runs the body up to its next element, an iterator
class can have the members by which a loop draws elements from it.  They run
`moveNext` at most once for an element and remember its answer: 0 while it is
not known, 1 if there is an element and -1 if the iterator is exhausted.
-/

namespace StackCode
namespace IteratorClass

/-- The name of the method that tells whether there is an element. -/
def hasNextName : String := "hasNext"

/-- The name of the method that takes an element. -/
def nextName : String := "next"

/-- The name of the method that makes an iterator iterable. -/
def iteratorName : String := "iterator"

/-- The field that remembers the last answer of `moveNext`. -/
def hasNextField (className : String) : FieldRef :=
  .ofErased className hasNextFieldName (.prim .int)

/-- The field that holds the current element. -/
def currentField (className : String) (element : Ty) : FieldRef :=
  .ofErased className currentFieldName element.erasure

/-- A method of an iterator class without parameters. -/
def member (className name : String) (ret : Ty) : MethodRef :=
  { owner := className, name, params := [], ret, invoke := .virtual }

/-- The method that runs the body up to its next element. -/
def moveNext (className : String) : MethodRef := member className moveNextName .boolean

/-- The method that tells whether there is an element. -/
def hasNext (className : String) : MethodRef := member className hasNextName .boolean

/-- The method that takes an element. -/
def next (className : String) (element : Ty) : MethodRef :=
  member className nextName (.ofErased element.erasure)

open Emit in
/-- Tell whether there is an element. -/
def hasNextCode (className : String) : Emit Unit := do
  let answer := hasNextField className
  let known ← newLabel
  let done ← newLabel
  let remember ← newLabel
  let exhausted ← newLabel
  loadRef 0
  getField answer
  jump .ifne known
  loadRef 0
  loadRef 0
  invoke (moveNext className)
  jump .ifeq done
  op .iconst1
  goto remember
  mark done
  pushInt (-1)
  mark remember
  putField answer
  mark known
  loadRef 0
  getField answer
  jump .ifle exhausted
  op .iconst1
  returnKind .int
  mark exhausted
  op .iconst0
  returnKind .int

open Emit in
/-- Take an element, or throw if there is none. -/
def nextCode (className : String) (element : Ty) : Emit Unit := do
  let ready ← newLabel
  loadRef 0
  invoke (hasNext className)
  jump .ifne ready
  newObject Library.noSuchElement
  op .athrow
  mark ready
  loadRef 0
  op .iconst0
  putField (hasNextField className)
  loadRef 0
  getField (currentField className element)
  returnKind element.erasure.kind

/-- A public method of an iterator class with the given code. -/
def publicMethod
    (className name : String)
    (ret : Erased)
    (code : Emit Unit) :
    Generation MethodDef := do
  let context := MethodContext.start className name false (.ofErased ret) false
  let body ← Emit.onMethod context do
    Emit.reserveSelf
    code
    Emit.finish
  return { name, flags := AccessFlags.publicAccess, ret, body := some body }

/-- Tell whether there is an element. -/
def hasNextMethod (className : String) : Generation MethodDef :=
  publicMethod className hasNextName (.prim .boolean) (hasNextCode className)

/-- Take an element. -/
def nextMethod (className : String) (element : Ty) : Generation MethodDef :=
  publicMethod className nextName element.erasure (nextCode className element)

/-- How an element is turned into an object. -/
def boxElement (className : String) : Erased → Generation (List Instruction)
  | .prim primitive =>
    match Library.box? primitive with
    | some box => return [.invoke box]
    | none => throw (.internal (.voidElement className))
  | _ => return []

/-- Take an element as an object, if its own type is another one. -/
def nextBridge? (className : String) (element : Ty) : Generation (Option MethodDef) := do
  let type := element.erasure
  if type = .object then return none
  let box ← boxElement className type
  let body : MethodBody :=
    .straight 1 ([.load .reference 0, .invoke (next className element)] ++ box ++ [.plain .areturn])
  Generation.log .trace (className ++ ": next bridge for " ++ type.text)
  return some {
    name := nextName
    flags := AccessFlags.publicAccess ||| AccessFlags.bridge ||| AccessFlags.synthetic
    ret := .object
    body := some body }

/-- An iterator is its own iterator. -/
def iteratorMethod : MethodDef :=
  { name := iteratorName
    flags := AccessFlags.publicAccess
    ret := .named Library.iterator
    body := some (.straight 1 [.load .reference 0, .plain .areturn]) }

/-- The methods by which a loop draws elements. -/
def protocolMethods (className : String) (element : Ty) : Generation (List MethodDef) := do
  let hasNext ← hasNextMethod className
  let next ← nextMethod className element
  let bridge ← nextBridge? className element
  return [hasNext, next] ++ bridge.toList ++ [iteratorMethod]

end IteratorClass
end StackCode
