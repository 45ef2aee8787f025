import StackCode.Context.Method

/-!
# Emission

Lowering is a computation on the state of a generation that may fail.  This
module has the steps it is made of: emitting instructions, labels, scopes,
protected regions, frames, and the storage of locals.
-/

namespace StackCode

/-- The state of a generation: the method at hand and the class around it. -/
structure Emission where
  /-- The method that is being lowered. -/
  method : MethodContext
  /-- The class that is being generated. -/
  cls : ClassContext
  deriving Inhabited

/-- A step of a generation; a step that fails leaves the state in which it failed. -/
abbrev Emit := EStateM Error Emission

/-- A step of a generation outside of every method. -/
abbrev Generation := EStateM Error ClassContext

/-- Leave a message in the log. -/
def Generation.log (level : LogLevel) (text : String) : Generation Unit :=
  modify fun cls => cls.write level text

namespace Emit

/-- Run a step on a method. -/
def onMethod (context : MethodContext) (step : Emit α) : Generation α := fun cls =>
  match step { method := context, cls } with
  | .ok value state => .ok value state.cls
  | .error error state => .error error state.cls

/-- Run a step that leaves the method at hand alone. -/
def aside (step : Generation α) : Emit α := fun state =>
  match step state.cls with
  | .ok value cls => .ok value { state with cls }
  | .error error cls => .error error { state with cls }

/-! ## Access to the state -/

/-- The state of the method at hand. -/
def method : Emit MethodContext := return (← get).method

/-- Change the state of the method at hand. -/
def modifyMethod (change : MethodContext → MethodContext) : Emit Unit :=
  modify fun state => { state with method := change state.method }

/-- The state of the class. -/
def cls : Emit ClassContext := return (← get).cls

/-- Change the state of the class. -/
def modifyClass (change : ClassContext → ClassContext) : Emit Unit :=
  modify fun state => { state with cls := change state.cls }

/-- Take something out of the state of the class. -/
def takeClass (take : ClassContext → α × ClassContext) : Emit α :=
  modifyGet fun state =>
    let (value, cls) := take state.cls
    (value, { state with cls })

/-- Change the code. -/
def modifyCode (change : Code → Code) : Emit Unit :=
  modifyMethod fun method => { method with code := change method.code }

/-- Take something out of the code. -/
def takeCode (take : Code → α × Code) : Emit α :=
  modifyGet fun state =>
    let (value, code) := take state.method.code
    (value, { state with method := { state.method with code } })

/-- Change the code in a way that may fail. -/
def tryCode (change : Code → Except Error Code) : Emit Unit := do
  match change (← method).code with
  | .ok code => modifyCode fun _ => code
  | .error error => throw error

/-- The finished body of the method at hand. -/
def finish : Emit MethodBody := do
  match (← method).code.finish with
  | .ok body => return body
  | .error error => throw error

/-- Stop because the tree or the generator breaks a rule. -/
def defect (cause : Defect) : Emit α := throw (.internal cause)

/-- Leave a message in the log. -/
def log (level : LogLevel) (text : String) : Emit Unit :=
  modifyClass fun cls => cls.write level text

/-! ## Instructions -/

/-- Append an instruction. -/
def emit (instruction : Instruction) : Emit Unit := modifyCode fun code => code.emit instruction

/-- Append an operation without an operand. -/
def op (op : Opcode) : Emit Unit := emit (.plain op)

/-- Push a constant. -/
def push (value : Const) : Emit Unit := emit (.push value)

/-- Push an integer. -/
def pushInt (value : Int32) : Emit Unit := push (.int value)

/-- Push the content of a slot. -/
def load (kind : ValueKind) (slot : Nat) : Emit Unit := emit (.load kind slot)

/-- Push the reference in a slot. -/
def loadRef (slot : Nat) : Emit Unit := load .reference slot

/-- Pop a value into a slot. -/
def store (kind : ValueKind) (slot : Nat) : Emit Unit := emit (.store kind slot)

/-- Pop a reference into a slot. -/
def storeRef (slot : Nat) : Emit Unit := store .reference slot

/-- Branch to a label. -/
def jump (op : Opcode) (target : Label) : Emit Unit := emit (.jump op target)

/-- Jump to a label. -/
def goto (target : Label) : Emit Unit := jump .goto target

/-- Call a method. -/
def invoke (method : MethodRef) : Emit Unit := emit (.invoke method)

/-- Push the content of a field. -/
def getField (field : FieldRef) : Emit Unit := emit (.getField field)

/-- Pop a value into a field. -/
def putField (field : FieldRef) : Emit Unit := emit (.putField field)

/-- Check the class of the reference on the stack. -/
def checkCast (type : Erased) : Emit Unit := emit (.checkCast type.internalName)

/-- Push a new object made by the constructor without arguments. -/
def newObject (className : String) : Emit Unit := do
  emit (.new className)
  op .dup
  invoke (Library.constructor className)

/-- Leave the method with a value of the kind. -/
def returnKind (kind : ValueKind) : Emit Unit := op (.ofReturn kind)

/-- Drop a value of the kind from the stack. -/
def dropKind (kind : ValueKind) : Emit Unit :=
  match kind.width with
  | 0 => return
  | 1 => op .pop
  | _ => op .pop2

/-- Push the zero of a kind. -/
def pushZero : ValueKind → Emit Unit
  | .long => push (.long 0)
  | .float => push (.float 0)
  | .double => push (.double 0)
  | .reference => op .aconstNull
  | .int => op .iconst0
  | .void => op .iconst0

/-! ## Labels -/

/-- Hand out a label. -/
def newLabel : Emit Label := takeCode Code.newLabel

/-- Bind a label to the current position. -/
def mark (label : Label) : Emit Unit := tryCode fun code => code.mark label

/-- Hand out a label for the current position. -/
def here : Emit Label := takeCode Code.here

/-- The labels of a statement in the current emission. -/
def labelsOf (id : StmtId) : Emit StmtLabels := do
  let (labels, table) ← (← method).labels.getOrAllocate newLabel id
  modifyMethod fun method => { method with labels := table }
  return labels

/-- Begin a copy of a statement. -/
def pushLabelLayer (stmt : Stmt) : Emit Unit :=
  modifyMethod fun method => { method with labels := method.labels.pushLayer stmt.ids }

/-- End a copy. -/
def popLabelLayer : Emit Unit :=
  modifyMethod fun method => { method with labels := method.labels.popLayer }

/-! ## Scopes and slots -/

/-- Open a scope. -/
def enterScope : Emit Unit := do
  modifyCode Code.enterScope
  modifyMethod fun method =>
    { method with
      suspension := method.suspension.map fun suspension =>
        { suspension with scopeMarks := suspension.live.length :: suspension.scopeMarks } }

/-- Close the innermost scope; its slots are no longer saved at a suspension. -/
def exitScope : Emit Unit := do
  tryCode Code.exitScope
  match (← method).suspension with
  | none => return
  | some suspension =>
    match suspension.scopeMarks with
    | [] => throw .scopeUnderflow
    | mark :: outer =>
      modifyMethod fun method =>
        { method with
          suspension :=
            some { suspension with live := suspension.live.take mark, scopeMarks := outer } }

/-- Run a step in a scope of its own. -/
def inScope (step : Emit Unit) : Emit Unit := do
  enterScope
  step
  exitScope

/-- Reserve a temporary. -/
def newTemp (type : Ty) : Emit Nat := takeCode fun code => code.allocate none type

/-- Save a slot at every suspension of its scope. -/
def saveSlot (saved : SavedSlot) : Emit Unit :=
  modifyMethod fun method =>
    { method with
      suspension := method.suspension.map fun suspension =>
        { suspension with live := suspension.live ++ [saved] } }

/-- Reserve a temporary; if it `spans` a suspension it gets a field that keeps it. -/
def newSpillTemp (type : Ty) (spans : Bool) : Emit Nat := do
  let slot ← newTemp type
  match (← method).suspension, spans with
  | some suspension, true =>
    let name := "$tmp$" ++ toString suspension.spills.length
    let flags := AccessFlags.privateAccess ||| AccessFlags.synthetic
    let spills := suspension.spills ++ [{ name, type := type.erasure, flags }]
    modifyMethod fun method => { method with suspension := some { suspension with spills } }
    saveSlot
      { slot, kind := type.kind, field := .ofErased suspension.className name type.erasure }
    return slot
  | _, _ => return slot

/-- Reserve the slot of the receiver, if the method has one. -/
def reserveSelf : Emit Unit := do
  let method ← method
  if !method.isStatic then
    let _ ← takeCode fun code => code.allocate (some "this") (.ofClass method.className)

/-! ## Frames -/

/-- Begin a construct. -/
def pushFrame (stmt : StmtId) (kind : FrameKind) : Emit Unit :=
  modifyMethod fun method => { method with frames := { stmt, kind } :: method.frames }

/-- End the innermost construct. -/
def popFrame : Emit Unit :=
  modifyMethod fun method => { method with frames := method.frames.tail }

/-- Detach all frames but the given number of outer ones. -/
def detachFrames (depth : Nat) : Emit (List Frame) :=
  modifyGet fun state =>
    let frames := state.method.frames
    let inner := frames.length - depth
    (frames.take inner, { state with method := { state.method with frames := frames.drop inner } })

/-- Put detached frames back. -/
def restoreFrames (detached : List Frame) : Emit Unit :=
  modifyMethod fun method => { method with frames := detached ++ method.frames }

/-- Leaving the method here takes cleanup code. -/
def hasPendingCleanup : Emit Bool := return (← method).frames.any Frame.needsCleanup

/-- The current point holds a monitor. -/
def holdsMonitor : Emit Bool := return (← method).frames.any Frame.isMonitor

/-- A finally body begins. -/
def enterFinally : Emit Unit :=
  modifyMethod fun method => { method with finallyDepth := method.finallyDepth + 1 }

/-- A finally body ends. -/
def exitFinally : Emit Unit :=
  modifyMethod fun method => { method with finallyDepth := method.finallyDepth - 1 }

/-- The current point is in a finally body. -/
def inFinally : Emit Bool := return 0 < (← method).finallyDepth

/-- A catch body begins whose exception is in the slot. -/
def pushCatch (slot : Nat) : Emit Unit :=
  modifyMethod fun method => { method with catchSlots := slot :: method.catchSlots }

/-- A catch body ends. -/
def popCatch : Emit Unit :=
  modifyMethod fun method => { method with catchSlots := method.catchSlots.tail }

/-- The slot of the innermost caught exception. -/
def catchSlot? : Emit (Option Nat) := return (← method).catchSlots.head?

/-- The sections of a switch begin. -/
def pushSwitch (id : StmtId) (cases : CaseMap) : Emit Unit :=
  modifyMethod fun method => { method with switches := (id, cases) :: method.switches }

/-- The sections of a switch end. -/
def popSwitch : Emit Unit :=
  modifyMethod fun method => { method with switches := method.switches.tail }

/-- The label of a section of a switch that is open. -/
def caseLabel? (id : StmtId) (key : CaseKey) : Emit (Option Label) :=
  return ((← method).switches.lookup id).bind fun cases => cases.lookup key

/-- Learn the ancestry of the statements of a body. -/
def setParents (body : Stmt) : Emit Unit :=
  modifyMethod fun method => { method with parents := .ofBody body }

/-! ## Protected regions -/

/-- Open a region here. -/
def openRegion : Emit RegionId := do
  let start ← here
  let region := (← method).regions.size
  modifyMethod fun method =>
    { method with regions := method.regions.push { current := some start } }
  return region

/-- Change a region that was opened. -/
def modifyRegion (region : RegionId) (change : OpenRegion → OpenRegion) : Emit Unit := do
  match (← method).regions[region]? with
  | some found =>
    modifyMethod fun method =>
      { method with regions := method.regions.setIfInBounds region (change found) }
  | none => defect (.unknownRegion region)

/-- Cut a region: what follows is not protected by it. -/
def suspendRegion (region : RegionId) : Emit Unit := do
  let stop ← here
  modifyRegion region fun found => found.suspend stop

/-- Go on with a region that was cut. -/
def resumeRegion (region : RegionId) : Emit Unit := do
  let start ← here
  modifyRegion region fun found => found.resume start

/-- Close a region and return its segments. -/
def closeRegion (region : RegionId) : Emit (List (Label × Label)) := do
  suspendRegion region
  let segments := ((← method).regions[region]?.getD {}).segments
  modifyRegion region fun found => { found with segments := [] }
  return segments

/-- Protect segments by a handler. -/
def protect
    (segments : List (Label × Label))
    (handler : Label)
    (catchType : Option Ty) :
    Emit Unit :=
  segments.forM fun segment =>
    modifyCode fun code =>
      code.addRegion
        { start := segment.1
          stop := segment.2
          handler
          catchType := catchType.map Ty.internalName }

/-! ## Storage of locals -/

/-- Say where a local lives. -/
def setAccess (id : LocalId) (access : LocalAccess) : Emit Unit :=
  modifyMethod fun method => { method with locals := (id, access) :: method.locals }

/-- Where a local lives. -/
def accessOf (id : LocalId) (span : Span) : Emit LocalAccess := do
  match (← method).locals.lookup id with
  | some access => return access
  | none => throw (.unknownLocal id span)

/-- The field that keeps a local while the method is suspended. -/
def promotedField? (id : LocalId) : Emit (Option FieldRef) :=
  return (← method).suspension.bind fun suspension => suspension.promoted.lookup id

/-- The local is kept in a field while the method is suspended. -/
def isPromoted (id : LocalId) : Emit Bool := return (← promotedField? id).isSome

/-- Give a declared local a slot in the innermost scope. -/
def declareSlot (decl : LocalDecl) : Emit LocalAccess := do
  let slot ← takeCode fun code => code.allocate (some decl.name) decl.type
  let kind := decl.type.kind
  match ← promotedField? decl.id with
  | some field => saveSlot { slot, kind, field }
  | none => pure ()
  setAccess decl.id (.slot slot kind)
  return .slot slot kind

/-- Give a declared local its storage; a captured local keeps its field. -/
def declareLocal (decl : LocalDecl) : Emit LocalAccess := do
  match (← method).locals.lookup decl.id with
  | some (.captured holder path) => return .captured holder path
  | _ => declareSlot decl

/-- Push an object and follow a path of fields from it. -/
def loadPath (holder : Holder) (path : List FieldRef) : Emit Unit := do
  match holder with
  | .self => loadRef 0
  | .slot slot => loadRef slot
  path.forM getField

/-- Push the value of a local. -/
def loadLocal (id : LocalId) (span : Span) : Emit Unit := do
  match ← accessOf id span with
  | .slot slot kind => load kind slot
  | .captured holder path => loadPath holder path

/-- Pop a value of the type into a field of the object at the end of a path. -/
def storeThrough
    (holder : Holder)
    (path : List FieldRef)
    (field : FieldRef)
    (type : Ty) :
    Emit Unit := do
  if type.kind.width = 1 then
    loadPath holder path
    op .swap
  else
    let temp ← newTemp type
    store type.kind temp
    loadPath holder path
    load type.kind temp
  putField field

/-- Pop a value of the type into a local. -/
def storeLocal (id : LocalId) (type : Ty) (span : Span) : Emit Unit := do
  match ← accessOf id span with
  | .slot slot kind => store kind slot
  | .captured holder path =>
    match path.getLast? with
    | some field => storeThrough holder path.dropLast field type
    | none => defect (.emptyPath id)

/-- Pop a reference into a declared local and return a slot that holds it. -/
def storeDeclared (decl : LocalDecl) (span : Span) : Emit Nat := do
  match ← declareLocal decl with
  | .slot slot kind =>
    store kind slot
    return slot
  | .captured _ _ =>
    op .dup
    let temp ← newTemp decl.type
    storeRef temp
    storeLocal decl.id decl.type span
    return temp

/-- Push the receiver of the source. -/
def loadSelf : Emit Unit := do
  loadPath .self (← method).selfPath

/-- Say how the receiver of the source is reached. -/
def setSelfPath (path : List FieldRef) : Emit Unit :=
  modifyMethod fun method => { method with selfPath := path }

/-! ## Lambdas -/

/-- Say which method a lambda was compiled into. -/
def registerLambda (id : LambdaId) (target : LambdaTarget) : Emit Unit :=
  modifyMethod fun method => { method with lambdas := (id, target) :: method.lambdas }

/-- The method that a lambda was compiled into. -/
def lambdaTarget? (id : LambdaId) : Emit (Option LambdaTarget) :=
  return (← method).lambdas.lookup id

/-! ## Suspension -/

/-- Hand out a number of labels. -/
def newLabels : Nat → Emit (List Label)
  | 0 => return []
  | count + 1 => return (← newLabel) :: (← newLabels count)

/-- Make the method at hand one that can suspend itself at the given number of points. -/
def beginSuspension
    (className : String)
    (element : Ty)
    (count : Nat)
    (promoted : List (LocalId × FieldRef)) :
    Emit Suspension := do
  let resume ← newLabels (count + 1)
  let exhausted ← newLabel
  let suspension := Suspension.ofClass className element resume exhausted promoted
  modifyMethod fun method => { method with suspension := some suspension }
  return suspension

/-- The number and the label of the next point of resumption. -/
def nextYield? : Emit (Option (Nat × Label)) := do
  match (← method).suspension with
  | none => return none
  | some suspension =>
    let state := (← method).yieldCount + 1
    modifyMethod fun method => { method with yieldCount := state }
    return suspension.resume[state]?.map fun label => (state, label)

/-- Save every live slot to its field. -/
def saveLive : Emit Unit := do
  let live := ((← method).suspension.map Suspension.live).getD []
  live.forM fun saved => do
    loadRef 0
    load saved.kind saved.slot
    putField saved.field

/-- Load every live slot from its field. -/
def reloadLive : Emit Unit := do
  let live := ((← method).suspension.map Suspension.live).getD []
  live.forM fun saved => do
    loadRef 0
    getField saved.field
    store saved.kind saved.slot

end Emit

end StackCode
