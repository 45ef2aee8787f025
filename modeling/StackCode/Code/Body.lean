import StackCode.Instruction

/-!
# Finished method bodies

A body is a list of instructions together with the position of every label, the
exception table and the table of local variables.  Positions are instruction
indices.
-/

namespace StackCode

/-- A protected range with its handler; without a type it catches everything. -/
structure ExceptionEntry where
  /-- The first protected position. -/
  start : Nat
  /-- The position after the last protected one. -/
  stop : Nat
  /-- The position of the handler. -/
  handler : Nat
  /-- The class of the exceptions that are caught. -/
  catchType : Option String
  deriving DecidableEq, Repr, Inhabited

/-- Where a named local lives. -/
structure LocalVarEntry where
  /-- The position at which the local comes into being. -/
  start : Nat
  /-- The number of positions for which it lives. -/
  length : Nat
  /-- The name of the local. -/
  name : String
  /-- The descriptor of its type. -/
  descriptor : String
  /-- Its first slot. -/
  slot : Nat
  deriving DecidableEq, Repr, Inhabited

/-- A finished method body. -/
structure MethodBody where
  /-- The instructions. -/
  instructions : Array Instruction
  /-- The exception table, in the order in which handlers are looked up. -/
  exceptions : List ExceptionEntry
  /-- The table of named locals. -/
  localVars : List LocalVarEntry
  /-- The number of slots that the body needs. -/
  maxLocals : Nat
  /-- The position of every label. -/
  labels : Array Nat
  deriving Inhabited

namespace MethodBody

/-- A body without labels. -/
def straight (maxLocals : Nat) (instructions : List Instruction) : MethodBody :=
  { instructions := instructions.toArray
    exceptions := []
    localVars := []
    maxLocals
    labels := #[] }

/-- The position of a label. -/
def position (body : MethodBody) (label : Label) : Nat := body.labels[label.index]?.getD 0

/-- The positions to which an instruction of the body may transfer control. -/
def targetPositions (body : MethodBody) (instruction : Instruction) : List Nat :=
  instruction.targets.map body.position

/-- The number of conditional branches. -/
def branchCount (body : MethodBody) : Nat :=
  body.instructions.countP Instruction.isConditionalJump

/-- A number, filled up with blanks to four places. -/
def padFour (number : Nat) : String :=
  let digits := toString number
  String.ofList (List.replicate (4 - digits.length) ' ') ++ digits

/-- The line of one instruction, with the positions of its targets. -/
def instructionLine (body : MethodBody) (index : Nat) (instruction : Instruction) : String :=
  let line := padFour index ++ ": " ++ instruction.text
  match instruction.targets with
  | [] => line ++ "\n"
  | targets =>
    let resolved := targets.map fun label => label.text ++ "=" ++ toString (body.position label)
    line ++ "    // " ++ " ".intercalate resolved ++ "\n"

/-- The line of one entry of the exception table. -/
def exceptionLine (entry : ExceptionEntry) : String :=
  "  [" ++ toString entry.start ++ ", " ++ toString entry.stop ++ ") -> " ++
    toString entry.handler ++ " " ++ entry.catchType.getD "any" ++ "\n"

/-- The listing of a body: its instructions, then its exception table. -/
def listing (body : MethodBody) : String :=
  let lines := body.instructions.toList.zipIdx.map fun entry =>
    body.instructionLine entry.2 entry.1
  String.join lines ++ String.join (body.exceptions.map exceptionLine)

end MethodBody

end StackCode
