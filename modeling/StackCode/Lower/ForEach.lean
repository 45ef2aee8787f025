import StackCode.Lower.Cleanup

/-!
# Loops over collections

An array is walked by index; any other collection hands out an iterator.  An
iterator with a disposal method is disposed of however the loop is left.
-/

namespace StackCode
namespace Emit

/-- The operation that reads an element of an array. -/
def elementLoad : Ty → Opcode
  | .prim .boolean => .baload
  | .prim .byte => .baload
  | .prim .char => .caload
  | .prim .short => .saload
  | other =>
    match other.kind with
    | .int => .iaload
    | .long => .laload
    | .float => .faload
    | .double => .daload
    | _ => .aaload

/-- Declare the loop variable and pop the element into it. -/
def bindElement (decl : LocalDecl) (span : Span) : Emit Unit := do
  let _ ← declareLocal decl
  storeLocal decl.id decl.type span

/-- A loop over the elements of an array. -/
def lowerArrayLoop
    (lower : Lowering)
    (tag : StmtTag)
    (spans : Bool)
    (labels : StmtLabels)
    (decl : LocalDecl)
    (collection : Expr)
    (body : Stmt) :
    Emit Unit := do
  match collection.type.element? with
  | none => defect (.nonArray collection.type)
  | some element =>
    pushValue collection
    let array ← newSpillTemp collection.type spans
    storeRef array
    let index ← newSpillTemp .int spans
    pushInt 0
    store .int index
    let test ← newLabel
    pushFrame tag.id .loop
    goto test
    mark labels.start
    inScope do
      loadRef array
      load .int index
      op (elementLoad element)
      bindElement decl tag.span
      lower body
    mark labels.next
    emit (.increment index 1)
    mark test
    load .int index
    loadRef array
    op .arraylength
    jump .ifIcmplt labels.start
    popFrame
    mark labels.stop

/-- The rounds of a loop over the elements that the iterator in a slot hands out. -/
def lowerIteratorRounds
    (lower : Lowering)
    (tag : StmtTag)
    (labels : StmtLabels)
    (decl : LocalDecl)
    (slot : Nat)
    (hasNext next : MethodRef)
    (body : Stmt) :
    Emit Unit := do
  pushFrame tag.id .loop
  goto labels.next
  mark labels.start
  inScope do
    loadRef slot
    invoke next
    let erased := decl.type.erasure
    if erased ≠ next.ret.erasure then checkCast erased
    bindElement decl tag.span
    lower body
  mark labels.next
  loadRef slot
  invoke hasNext
  jump .ifne labels.start
  popFrame
  mark labels.stop

/-- Rounds after which, however they are left, the iterator in a slot is disposed of. -/
def lowerDisposing
    (id : StmtId)
    (slot : Nat)
    (dispose : MethodRef)
    (rounds : Emit Unit) :
    Emit Unit := do
  let region ← openRegion
  pushFrame id (.iterator slot dispose region)
  rounds
  popFrame
  let segments ← closeRegion region
  let after ← newLabel
  disposeIterator slot dispose
  goto after
  protect segments (← here) none
  rethrowAfter (disposeIterator slot dispose)
  mark after

/-- A loop over the elements that an iterator hands out. -/
def lowerIteratorLoop
    (lower : Lowering)
    (tag : StmtTag)
    (spans : Bool)
    (labels : StmtLabels)
    (decl : LocalDecl)
    (collection : Expr)
    (iterator hasNext next : MethodRef)
    (dispose : Option MethodRef)
    (body : Stmt) :
    Emit Unit := do
  if !decl.type.isReference then throw (.unsupported (.primitiveElement decl.name) tag.span)
  pushValue collection
  invoke iterator
  let slot ← newSpillTemp iterator.ret spans
  storeRef slot
  let rounds := lowerIteratorRounds lower tag labels decl slot hasNext next body
  match dispose with
  | some dispose => lowerDisposing tag.id slot dispose rounds
  | none => rounds

/-- A loop over a collection. -/
def lowerForEach
    (lower : Lowering)
    (tag : StmtTag)
    (spans : Bool)
    (decl : LocalDecl)
    (collection : Expr)
    (source : ElementSource)
    (body : Stmt) :
    Emit Unit :=
  inScope do
    let labels ← labelsOf tag.id
    match source with
    | .array => lowerArrayLoop lower tag spans labels decl collection body
    | .iterator iterator hasNext next dispose =>
      lowerIteratorLoop lower tag spans labels decl collection iterator hasNext next dispose body

end Emit
end StackCode
