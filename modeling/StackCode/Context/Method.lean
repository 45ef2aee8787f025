import StackCode.ClassDef
import StackCode.Config
import StackCode.Context.Frame
import StackCode.LabelTable

/-!
# The state of a generation

One method is lowered at a time.  Its context owns the code under construction
and everything that lowering keeps track of on the way; a nested body gets a
context of its own.  What is shared by all methods of a class is the class
context.
-/

namespace StackCode

/-- The object through which a captured local is reached. -/
inductive Holder where
  /-- The receiver of the method that is lowered. -/
  | self
  /-- An object in a slot. -/
  | slot (slot : Nat)
  deriving DecidableEq, Repr, Inhabited

/-- Where a local lives. -/
inductive LocalAccess where
  /-- In a slot. -/
  | slot (slot : Nat) (kind : ValueKind)
  /-- In the last of a path of fields. -/
  | captured (holder : Holder) (path : List FieldRef)
  deriving Inhabited

/-- The method into which a lambda was compiled. -/
structure LambdaTarget where
  /-- The method. -/
  method : MethodRef
  /-- The slot of the object on which it is called; a static method needs none. -/
  receiver : Option Nat
  deriving Inhabited

/-- A slot whose content is kept in a field while the method is suspended. -/
structure SavedSlot where
  /-- The slot. -/
  slot : Nat
  /-- The kind of its content. -/
  kind : ValueKind
  /-- The field that keeps it. -/
  field : FieldRef
  deriving Inhabited

/-- Names of the members of an iterator class. -/
def stateFieldName : String := "state"

@[inherit_doc stateFieldName]
def currentFieldName : String := "current"

@[inherit_doc stateFieldName]
def hasNextFieldName : String := "hasNext"

@[inherit_doc stateFieldName]
def moveNextName : String := "moveNext"

/-- The field that refers back to the receiver of the enclosing method. -/
def outerFieldName : String := "this$0"

/-- What a method that can suspend itself keeps track of. -/
structure Suspension where
  /-- The class whose instances hold the state. -/
  className : String
  /-- The field that says where to resume. -/
  state : FieldRef
  /-- The field that holds the current element. -/
  current : FieldRef
  /-- The points of resumption; the first one is the start. -/
  resume : List Label
  /-- Where a finished iteration goes. -/
  exhausted : Label
  /-- The slots that are saved at a suspension, in the order of their declaration. -/
  live : List SavedSlot := []
  /-- The numbers of saved slots at the scopes that are open, the innermost one first. -/
  scopeMarks : List Nat := []
  /-- The locals that have a field. -/
  promoted : List (LocalId × FieldRef) := []
  /-- The fields made up for temporaries. -/
  spills : List FieldDef := []
  deriving Inhabited

/-- A method of a class that suspends at the given points. -/
def Suspension.ofClass
    (className : String)
    (element : Ty)
    (resume : List Label)
    (exhausted : Label)
    (promoted : List (LocalId × FieldRef)) :
    Suspension :=
  { className
    state := FieldRef.ofErased className stateFieldName (.prim .int)
    current := FieldRef.ofErased className currentFieldName element.erasure
    resume
    exhausted
    promoted }

/-- The labels of the sections of a switch; the newest entry counts. -/
abbrev CaseMap := List (CaseKey × Label)

/-- The state of the method that is being lowered. -/
structure MethodContext where
  /-- The class that the method is compiled into. -/
  className : String
  /-- The name of the method in the source. -/
  methodName : String
  /-- The method has no receiver. -/
  isStatic : Bool
  /-- The result type. -/
  returnType : Ty
  /-- The code so far. -/
  code : Code
  /-- The constructs around the current point, the innermost one first. -/
  frames : List Frame := []
  /-- The slots of the caught exceptions around the current point, the innermost one first. -/
  catchSlots : List Nat := []
  /-- The switches around the current point with their sections, the innermost one first. -/
  switches : List (StmtId × CaseMap) := []
  /-- The labels of statements. -/
  labels : LabelTable := {}
  /-- Where locals live; the newest entry counts. -/
  locals : List (LocalId × LocalAccess) := []
  /-- The fields that lead from the receiver to the receiver of the source. -/
  selfPath : List FieldRef := []
  /-- The statements around each statement of the body. -/
  parents : ParentMap := []
  /-- The methods of the lambdas of the body; the newest entry counts. -/
  lambdas : List (LambdaId × LambdaTarget) := []
  /-- Suspension, for a method that can suspend itself. -/
  suspension : Option Suspension := none
  /-- The number of finally bodies around the current point. -/
  finallyDepth : Nat := 0
  /-- The number of suspension points so far. -/
  yieldCount : Nat := 0
  /-- The protected regions that were opened. -/
  regions : Array OpenRegion := #[]
  deriving Inhabited

/-- The state before a method is lowered. -/
def MethodContext.start
    (className methodName : String)
    (isStatic : Bool)
    (returnType : Ty)
    (debugInfo : Bool) :
    MethodContext :=
  { className, methodName, isStatic, returnType, code := { debugInfo } }

/-- The state that the methods of a class share. -/
structure ClassContext where
  /-- The class. -/
  name : String
  /-- The configuration. -/
  config : Config := {}
  /-- The synthetic fields of the class. -/
  fields : Array FieldDef := #[]
  /-- The synthetic methods, with the classes they belong to. -/
  methods : Array (String × MethodDef) := #[]
  /-- The synthetic classes. -/
  nested : Array ClassDef := #[]
  /-- The number of maps for string switches. -/
  switchMapCount : Nat := 0
  /-- The number of iterator classes. -/
  iteratorCount : Nat := 0
  /-- The number of scope classes. -/
  scopeCount : Nat := 0
  /-- The number of compiled lambdas. -/
  lambdaCount : Nat := 0
  /-- The log. -/
  log : Array LogEntry := #[]
  deriving Inhabited

namespace ClassContext

/-- Make up a static field for the map of a string switch. -/
def newSwitchMap (context : ClassContext) : FieldRef × ClassContext :=
  let name := "$switch$map$" ++ toString context.switchMapCount
  let flags := AccessFlags.privateAccess ||| AccessFlags.static ||| AccessFlags.synthetic
  ({ owner := context.name, name, type := .ofClass Library.hashMap, isStatic := true },
    { context with
      switchMapCount := context.switchMapCount + 1
      fields := context.fields.push { name, type := .named Library.hashMap, flags } })

/-- Make up the name of an iterator class. -/
def newIteratorName (context : ClassContext) : String × ClassContext :=
  (context.name ++ "$Iterator$" ++ toString context.iteratorCount,
    { context with iteratorCount := context.iteratorCount + 1 })

/-- Make up the name of a scope class. -/
def newScopeName (context : ClassContext) : String × ClassContext :=
  (context.name ++ "$Scope$" ++ toString context.scopeCount,
    { context with scopeCount := context.scopeCount + 1 })

/-- Make up the name of the method of a lambda. -/
def newLambdaName (context : ClassContext) (methodName : String) : String × ClassContext :=
  ("lambda$" ++ methodName ++ "$" ++ toString context.lambdaCount,
    { context with lambdaCount := context.lambdaCount + 1 })

/-- Leave a message in the log. -/
def write (context : ClassContext) (level : LogLevel) (text : String) : ClassContext :=
  { context with log := context.log.push { level, text } }

end ClassContext

end StackCode
