import StackCode.Const
import StackCode.Operator
import StackCode.Span

/-!
# Reasons for failure

Everything that can stop the generation of a class.  Each constructor is a
cause; the wording stands in `Error.message` alone.
-/

namespace StackCode

/-- The parts of a method in which an iterator cannot suspend itself. -/
inductive NoYieldRegion where
  | synchronizedBody
  | catchBody
  | finallyBody
  deriving DecidableEq, Repr, Inhabited

/-- The name of such a part in messages. -/
def NoYieldRegion.text : NoYieldRegion → String
  | synchronizedBody => "synchronized"
  | catchBody => "catch"
  | finallyBody => "finally"

/-- What a tree may say and the generator has no code for. -/
inductive Unsupported where
  /-- A concatenation of strings that is not a constant. -/
  | concatenation
  /-- An operator on operands of a kind it has no operation for. -/
  | operator (op : BinaryOp) (kind : ValueKind)
  /-- A loop over an iterable that binds a primitive variable. -/
  | primitiveElement (name : String)
  deriving DecidableEq, Repr, Inhabited

/-- The wording of an unsupported construct. -/
def Unsupported.text : Unsupported → String
  | concatenation => "non-constant string concatenation"
  | operator op kind => "operator " ++ op.text ++ " on " ++ kind.text
  | primitiveElement name =>
    "primitive loop variable \x60" ++ name ++ "\x60 over an iterable"

/-- What can only be wrong if the tree or the generator is. -/
inductive Defect where
  /-- A label is marked that the method never handed out. -/
  | foreignLabel (label : Label)
  /-- A protected region is named that was never opened. -/
  | unknownRegion (region : Nat)
  /-- A captured local has no field to go through. -/
  | emptyPath (id : LocalId)
  /-- Control reaches the end of a method that has to return a value. -/
  | missingReturn (className methodName : String)
  /-- A loop over an array ranges over something else. -/
  | nonArray (type : Ty)
  /-- A comparison has selected something that is not a conditional branch. -/
  | unbranched
  /-- A lambda is used that has no method. -/
  | uncompiledLambda (id : LambdaId)
  /-- A lambda captures locals and there is no scope to hold them. -/
  | missingScope
  /-- A lambda needs the receiver of a method that has none. -/
  | staticReceiver (span : Span) (methodName : String)
  /-- A method has more suspension points than its dispatch has states. -/
  | uncountedYield (span : Span)
  /-- An iterator has no elements to return. -/
  | voidElement (className : String)
  /-- A synthetic method belongs to a class that does not exist. -/
  | homelessMethod (methodName owner : String)
  /-- A method overrides one with another number of parameters. -/
  | arity (className methodName overriddenOwner overriddenName : String)
  /-- A bridge would have to turn an argument into a primitive value. -/
  | primitiveBridge (className methodName : String) (source target : Erased)
  /-- Statements or lambdas are nested more deeply than the given bound. -/
  | nesting
  deriving Inhabited

/-- The wording of a defect. -/
def Defect.text : Defect → String
  | foreignLabel label => "label " ++ label.text ++ " was not allocated by this method"
  | unknownRegion region => "unknown protected region " ++ toString region
  | emptyPath id => "empty capture path for local #" ++ toString id.index
  | missingReturn className methodName =>
    "end of non-void method " ++ className ++ "." ++ methodName ++ " is reachable"
  | nonArray type => "foreach over non-array type " ++ type.text
  | unbranched => "comparison without a branch opcode"
  | uncompiledLambda id => "lambda #" ++ toString id.index ++ " was not compiled"
  | missingScope => "scope-hosted lambda without a scope"
  | staticReceiver span methodName =>
    "lambda at " ++ span.text ++ " reaches an enclosing instance from static " ++ methodName
  | uncountedYield span => "more yields than counted at " ++ span.text
  | voidElement className => className ++ " yields no value"
  | homelessMethod methodName owner =>
    "synthetic method " ++ methodName ++ " has no host class " ++ owner
  | arity className methodName overriddenOwner overriddenName =>
    className ++ "." ++ methodName ++ " overrides " ++ overriddenOwner ++ "." ++ overriddenName ++
      " with a different arity"
  | primitiveBridge className methodName source target =>
    "bridge for " ++ className ++ "." ++ methodName ++ " would convert " ++ source.text ++
      " to primitive " ++ target.text
  | nesting => "nesting exceeds its bound"

/-- A reason why no class can be generated. -/
inductive Error where
  /-- A label is bound to a second position. -/
  | labelMarkedTwice (label : Label) (first second : Nat)
  /-- A label is used and never bound. -/
  | unmarkedLabel (label : Label)
  /-- A bare rethrow stands outside of every catch body. -/
  | rethrowOutsideCatch (span : Span)
  /-- A jump has no statement to go to. -/
  | unresolvedTarget (construct : String) (span : Span)
  /-- A jump names a case that its switch does not have. -/
  | missingCaseLabel (key : CaseKey) (span : Span)
  /-- A scope is left that was never entered. -/
  | scopeUnderflow
  /-- A local is used that has no storage. -/
  | unknownLocal (id : LocalId) (span : Span)
  /-- A method suspends itself that is not an iterator. -/
  | yieldOutsideIterator (span : Span)
  /-- An iterator suspends itself where it cannot be resumed. -/
  | yieldInsideRegion (region : NoYieldRegion) (span : Span)
  /-- A case label has no constant value that can be switched on. -/
  | nonConstantCaseLabel (span : Span)
  /-- The tree uses a construct that has no code. -/
  | unsupported (construct : Unsupported) (span : Span)
  /-- The tree or the generator breaks one of its own rules. -/
  | internal (defect : Defect)
  deriving Inhabited

/-- The wording of a failure. -/
def Error.message : Error → String
  | labelMarkedTwice label first second =>
    "label " ++ label.text ++ " marked twice (first at " ++ toString first ++ ", again at " ++
      toString second ++ ")"
  | unmarkedLabel label => "label " ++ label.text ++ " is referenced but never marked"
  | rethrowOutsideCatch span =>
    "rethrow at " ++ span.text ++ " has no enclosing bound catch variable"
  | unresolvedTarget construct span =>
    construct ++ " at " ++ span.text ++ " has no resolved jump target"
  | missingCaseLabel key span =>
    "goto case at " ++ span.text ++ ": no case label " ++ key.text ++ " in the target switch"
  | scopeUnderflow => "local scope underflow: exit without matching enter"
  | unknownLocal id span =>
    "local #" ++ toString id.index ++ " used at " ++ span.text ++ " was never declared"
  | yieldOutsideIterator span => "yield at " ++ span.text ++ " outside an iterator method"
  | yieldInsideRegion region span =>
    "yield at " ++ span.text ++ " cannot suspend inside " ++ region.text
  | nonConstantCaseLabel span =>
    "switch label at " ++ span.text ++ " is not an integral or string constant"
  | unsupported construct span => "unsupported " ++ construct.text ++ " at " ++ span.text
  | internal defect => "Internal compiler error: " ++ defect.text

end StackCode
