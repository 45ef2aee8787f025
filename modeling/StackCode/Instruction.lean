import StackCode.Const
import StackCode.Member
import StackCode.Opcode
import StackCode.Span

/-!
# Symbolic instructions

An instruction of a method body.  Jumps name labels; where a label stands is
known to the body that holds the instruction, and not to the instruction.
-/

namespace StackCode

/-- A symbolic instruction. -/
inductive Instruction where
  /-- An operation without an operand. -/
  | plain (op : Opcode)
  /-- Push a constant. -/
  | push (value : Const)
  /-- Push the content of a slot. -/
  | load (kind : ValueKind) (slot : Nat)
  /-- Pop a value into a slot. -/
  | store (kind : ValueKind) (slot : Nat)
  /-- Add to the integer in a slot. -/
  | increment (slot : Nat) (delta : Int)
  /-- Branch to a label, always or on a condition. -/
  | jump (op : Opcode) (target : Label)
  /-- Branch through a table of labels for the keys from `low` to `high`. -/
  | tableSwitch (low high : Int32) (default : Label) (targets : List Label)
  /-- Branch to the label that is paired with the key. -/
  | lookupSwitch (default : Label) (pairs : List (Int32 × Label))
  /-- Call a method. -/
  | invoke (method : MethodRef)
  /-- Push the content of a field. -/
  | getField (field : FieldRef)
  /-- Pop a value into a field. -/
  | putField (field : FieldRef)
  /-- Push a fresh instance of a class. -/
  | new (className : String)
  /-- Check the class of the reference on the stack. -/
  | checkCast (className : String)
  /-- Replace a reference by whether it has a class. -/
  | instanceOf (className : String)
  /-- Push a function object that implements `interface` by calling `target`. -/
  | closure (target interface : MethodRef)
  deriving Inhabited

namespace Instruction

/-- The labels to which an instruction may transfer control, the default of a switch first. -/
def targets : Instruction → List Label
  | jump _ target => [target]
  | tableSwitch _ _ default targets => default :: targets
  | lookupSwitch default pairs => default :: pairs.map Prod.snd
  | _ => []

/-- The instruction is a branch on a condition. -/
def isConditionalJump : Instruction → Bool
  | jump op _ => op.isConditionalBranch
  | _ => false

/-- The text of a field access. -/
def fieldText (verb : String) (field : FieldRef) : String :=
  verb ++ (if field.isStatic then "static " else "field ") ++ field.text

/-- The text of an instruction in a listing. -/
def text : Instruction → String
  | plain op => op.mnemonic
  | push value => "ldc " ++ value.text
  | load kind slot => kind.letter ++ "load " ++ toString slot
  | store kind slot => kind.letter ++ "store " ++ toString slot
  | increment slot delta => "iinc " ++ toString slot ++ " " ++ toString delta
  | jump op target => op.mnemonic ++ " " ++ target.text
  | tableSwitch low high default targets =>
    "tableswitch " ++ toString low.toInt ++ ".." ++ toString high.toInt ++ " [" ++
      ", ".intercalate (targets.map Label.text) ++ "] default " ++ default.text
  | lookupSwitch default pairs =>
    let entries := pairs.map fun pair => toString pair.1.toInt ++ ": " ++ pair.2.text
    "lookupswitch [" ++ ", ".intercalate entries ++ "] default " ++ default.text
  | invoke method => method.invoke.mnemonic ++ " " ++ method.text
  | getField field => fieldText "get" field
  | putField field => fieldText "put" field
  | new className => "new " ++ className
  | checkCast className => "checkcast " ++ className
  | instanceOf className => "instanceof " ++ className
  | closure target interface =>
    "invokedynamic " ++ interface.owner ++ "." ++ interface.name ++ " -> " ++ target.text

end Instruction

end StackCode
