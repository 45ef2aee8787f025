import StackCode.Const
import StackCode.Member
import StackCode.Operator
import StackCode.Span

/-!
# The annotated tree

Expressions, statements and declarations of a class.  Every expression carries
its type, its constant value if it has one, and the conversion applied to its
value; every statement carries its identifier and, if it can be reached, the
facts that lowering relies on.
-/

namespace StackCode

/-- A local variable or parameter. -/
structure LocalDecl where
  /-- The identifier by which expressions refer to the local. -/
  id : LocalId
  /-- The name in the source. -/
  name : String
  /-- The declared type. -/
  type : Ty
  deriving Repr, Inhabited

/-- A change of representation that is applied to a value after it is pushed. -/
inductive Conversion where
  /-- Wrap a primitive value by calling a method. -/
  | box (method : MethodRef)
  /-- Unwrap a primitive value by calling a method. -/
  | unbox (method : MethodRef)
  /-- Convert to another type. -/
  | cast (type : Ty)
  deriving Repr, Inhabited

/-- What is known of an expression. -/
structure ExprInfo where
  /-- The type before the conversion. -/
  type : Ty
  /-- The value, if it is known at compile time. -/
  constant : Option Const := none
  /-- The conversion of the value. -/
  conversion : Option Conversion := none
  /-- The position in the source. -/
  span : Span := {}
  deriving Inhabited

/-- What is known of a statement that control can reach. -/
structure StmtInfo where
  /-- The statement to which a jump goes. -/
  target : Option StmtId := none
  /-- Control can reach the end of the statement. -/
  completes : Bool := false
  /-- Some jump goes to the statement. -/
  targeted : Bool := false
  /-- The number of suspension points inside the statement. -/
  yieldCount : Nat := 0
  deriving DecidableEq, Repr, Inhabited

/-- What every statement carries; a statement without `info` is unreachable. -/
structure StmtTag where
  /-- The identifier of the statement. -/
  id : StmtId := ⟨0⟩
  /-- The position in the source. -/
  span : Span := {}
  /-- The facts about a reachable statement. -/
  info : Option StmtInfo := none
  deriving DecidableEq, Repr, Inhabited

/-- Where a loop over a collection takes its elements from. -/
inductive ElementSource where
  /-- The elements of an array, by index. -/
  | array
  /-- The elements that an iterator hands out; the iterator may have to be disposed of. -/
  | iterator (iterator hasNext next : MethodRef) (dispose : Option MethodRef)
  deriving Repr, Inhabited

/-- What the selector of a switch is. -/
inductive SelectorKind where
  /-- An integral value. -/
  | integral
  /-- A member of an enumeration, switched on by its ordinal. -/
  | enumeration (ordinal : MethodRef)
  /-- A string. -/
  | string
  deriving Repr, Inhabited

mutual

/-- An expression. -/
inductive Expr where
  /-- A literal value. -/
  | literal (info : ExprInfo) (value : Const)
  /-- The value of a local. -/
  | localVar (info : ExprInfo) (id : LocalId)
  /-- The receiver of the method in the source. -/
  | self (info : ExprInfo)
  /-- Assign to a local; the value is that of the right-hand side. -/
  | assign (info : ExprInfo) (target : LocalId) (value : Expr)
  /-- Apply a unary operator. -/
  | unary (info : ExprInfo) (op : UnaryOp) (operand : Expr)
  /-- Apply a binary operator. -/
  | binary (info : ExprInfo) (op : BinaryOp) (left right : Expr)
  /-- Call a method. -/
  | call (info : ExprInfo) (receiver : Option Expr) (method : MethodRef) (args : List Expr)
  /-- Read a field. -/
  | field (info : ExprInfo) (receiver : Option Expr) (field : FieldRef)
  /-- Create an object. -/
  | new (info : ExprInfo) (constructor : MethodRef) (args : List Expr)
  /-- Create a function object. -/
  | lambda (info : ExprInfo) (lambda : Lambda)

/-- The function inside a lambda expression. -/
structure Lambda where
  /-- The identifier of the lambda. -/
  id : LambdaId
  /-- The parameters. -/
  params : List LocalDecl
  /-- The result type. -/
  ret : Ty
  /-- The body. -/
  body : Stmt
  /-- The interface method that the function object implements. -/
  interface : MethodRef

/-- A local with its initial value. -/
structure Declarator where
  /-- The declared local. -/
  decl : LocalDecl
  /-- The initial value. -/
  init : Option Expr

/-- A section of a switch; a label without an expression is the default. -/
structure Section where
  /-- The labels in front of the section. -/
  labels : List (Option Expr)
  /-- The statements of the section. -/
  body : List Stmt

/-- A handler of a try statement; without a type it catches everything. -/
structure CatchClause where
  /-- The type of the exceptions that are caught. -/
  type : Option Ty
  /-- The local that holds the exception. -/
  decl : Option LocalDecl
  /-- The body of the handler. -/
  body : Stmt

/-- A resource that is disposed of when its statement is left. -/
structure Resource where
  /-- The local that holds the resource. -/
  decl : Option LocalDecl
  /-- The expression that acquires it. -/
  init : Expr
  /-- The method that disposes of it. -/
  dispose : MethodRef

/-- A statement. -/
inductive Stmt where
  /-- Statements in sequence, with a scope of their own. -/
  | block (tag : StmtTag) (body : List Stmt)
  /-- A conditional statement. -/
  | cond (tag : StmtTag) (condition : Expr) (thenBranch : Stmt) (elseBranch : Option Stmt)
  /-- A loop that tests its condition first. -/
  | whileLoop (tag : StmtTag) (condition : Expr) (body : Stmt)
  /-- A loop that tests its condition last. -/
  | doLoop (tag : StmtTag) (body : Stmt) (condition : Expr)
  /-- A loop with initialisation and update; without a condition it does not end by itself. -/
  | forLoop (tag : StmtTag) (init : List Stmt) (condition : Option Expr) (update : List Expr)
      (body : Stmt)
  /-- A loop over a collection. -/
  | forEach (tag : StmtTag) (decl : LocalDecl) (collection : Expr) (source : ElementSource)
      (body : Stmt)
  /-- A switch. -/
  | switch (tag : StmtTag) (selector : Expr) (kind : SelectorKind) (sections : List Section)
  /-- A try statement. -/
  | guard (tag : StmtTag) (body : Stmt) (catches : List CatchClause) (finalizer : Option Stmt)
  /-- Acquire resources and dispose of them in the end. -/
  | acquire (tag : StmtTag) (resources : List Resource) (body : Stmt)
  /-- Run a statement while holding a monitor. -/
  | synchronized (tag : StmtTag) (lock : Expr) (body : Stmt)
  /-- A statement with a label. -/
  | labeled (tag : StmtTag) (label : String) (body : Stmt)
  /-- Jump to a labeled statement. -/
  | goto (tag : StmtTag) (label : String)
  /-- Jump to a section of the enclosing switch; without a key, to its default. -/
  | gotoCase (tag : StmtTag) (key : Option Expr)
  /-- Leave an enclosing statement. -/
  | breakJump (tag : StmtTag) (label : Option String)
  /-- Begin the next round of an enclosing loop. -/
  | continueJump (tag : StmtTag) (label : Option String)
  /-- Leave the method. -/
  | ret (tag : StmtTag) (value : Option Expr)
  /-- Throw an exception; without an expression, throw the caught one again. -/
  | throw (tag : StmtTag) (exception : Option Expr)
  /-- Hand out an element and suspend; without a value, end the iteration. -/
  | yield (tag : StmtTag) (value : Option Expr)
  /-- Evaluate an expression for its effect. -/
  | eval (tag : StmtTag) (expr : Expr)
  /-- Do nothing. -/
  | empty (tag : StmtTag)
  /-- Declare locals. -/
  | declare (tag : StmtTag) (declarators : List Declarator)

end

instance : Inhabited Expr := ⟨.self default⟩

instance : Inhabited Stmt := ⟨.empty {}⟩

/-! ## Expressions -/

namespace Expr

/-- What is known of an expression. -/
def info : Expr → ExprInfo
  | literal info _ => info
  | localVar info _ => info
  | self info => info
  | assign info _ _ => info
  | unary info _ _ => info
  | binary info _ _ _ => info
  | call info _ _ _ => info
  | field info _ _ => info
  | new info _ _ => info
  | lambda info _ => info

/-- The same expression with other facts about it. -/
def withInfo (expr : Expr) (info : ExprInfo) : Expr :=
  match expr with
  | literal _ value => literal info value
  | localVar _ id => localVar info id
  | self _ => self info
  | assign _ target value => assign info target value
  | unary _ op operand => unary info op operand
  | binary _ op left right => binary info op left right
  | call _ receiver method args => call info receiver method args
  | field _ receiver fieldRef => field info receiver fieldRef
  | new _ constructor args => new info constructor args
  | lambda _ function => lambda info function

/-- The type of an expression before its conversion. -/
def type (expr : Expr) : Ty := expr.info.type

/-- The value of an expression, if it is known at compile time. -/
def constant? (expr : Expr) : Option Const := expr.info.constant

/-- The truth value of a condition, if it is known at compile time. -/
def constantBool? (expr : Expr) : Option Bool := expr.constant?.bind Const.bool?

/-- The position of an expression in the source. -/
def span (expr : Expr) : Span := expr.info.span

/-- The type of the value that an expression leaves, its conversion applied. -/
def resultType (expr : Expr) : Ty :=
  match expr.info.conversion with
  | some (.cast type) => type
  | some (.box method) => method.ret
  | some (.unbox method) => method.ret
  | none => expr.type

/-- The direct subexpressions in the order of their evaluation, lambda bodies left out. -/
def operands : Expr → List Expr
  | assign _ _ value => [value]
  | unary _ _ operand => [operand]
  | binary _ _ left right => [left, right]
  | call _ receiver _ args => receiver.toList ++ args
  | field _ receiver _ => receiver.toList
  | new _ _ args => args
  | _ => []

/-- A literal with the type of its value. -/
def ofConst (value : Const) : Expr :=
  literal { type := value.type, constant := some value } value

end Expr

/-- One of the labels of the section is the default. -/
def Section.isDefault (switchSection : Section) : Bool := switchSection.labels.any Option.isNone

/-! ## Statements -/

namespace Stmt

/-- What a statement carries besides its parts. -/
def tag : Stmt → StmtTag
  | block tag _ => tag
  | cond tag _ _ _ => tag
  | whileLoop tag _ _ => tag
  | doLoop tag _ _ => tag
  | forLoop tag _ _ _ _ => tag
  | forEach tag _ _ _ _ => tag
  | switch tag _ _ _ => tag
  | guard tag _ _ _ => tag
  | acquire tag _ _ => tag
  | synchronized tag _ _ => tag
  | labeled tag _ _ => tag
  | goto tag _ => tag
  | gotoCase tag _ => tag
  | breakJump tag _ => tag
  | continueJump tag _ => tag
  | ret tag _ => tag
  | throw tag _ => tag
  | yield tag _ => tag
  | eval tag _ => tag
  | empty tag => tag
  | declare tag _ => tag

/-- The identifier of a statement. -/
def id (stmt : Stmt) : StmtId := stmt.tag.id

/-- The position of a statement in the source. -/
def span (stmt : Stmt) : Span := stmt.tag.span

/-- The facts about a statement, if it is reachable. -/
def info? (stmt : Stmt) : Option StmtInfo := stmt.tag.info

/-- Control can reach the statement. -/
def isReachable (stmt : Stmt) : Bool := stmt.info?.isSome

/-- Control can reach the end of the statement. -/
def completes (stmt : Stmt) : Bool := stmt.info?.any StmtInfo.completes

/-- The statement to which a jump goes. -/
def target? (stmt : Stmt) : Option StmtId := stmt.info?.bind StmtInfo.target

/-- The statement has a suspension point inside it. -/
def yields (stmt : Stmt) : Bool := stmt.info?.any fun info => 0 < info.yieldCount

/-- The name of a kind of statement in messages. -/
def kindName : Stmt → String
  | block _ _ => "block"
  | cond _ _ _ _ => "if"
  | whileLoop _ _ _ => "while"
  | doLoop _ _ _ => "do"
  | forLoop _ _ _ _ _ => "for"
  | forEach _ _ _ _ _ => "foreach"
  | switch _ _ _ _ => "switch"
  | guard _ _ _ _ => "try"
  | acquire _ _ _ => "using"
  | synchronized _ _ _ => "synchronized"
  | labeled _ _ _ => "labeled statement"
  | goto _ _ => "goto"
  | gotoCase _ _ => "goto case"
  | breakJump _ _ => "break"
  | continueJump _ _ => "continue"
  | ret _ _ => "return"
  | throw _ _ => "throw"
  | yield _ _ => "yield"
  | eval _ _ => "expression statement"
  | empty _ => "empty statement"
  | declare _ _ => "local declaration"

/-- The statement is a loop. -/
def isLoop : Stmt → Bool
  | whileLoop _ _ _ => true
  | doLoop _ _ _ => true
  | forLoop _ _ _ _ _ => true
  | forEach _ _ _ _ _ => true
  | _ => false

/-- The statements directly inside a statement, in source order. -/
def children : Stmt → List Stmt
  | block _ body => body
  | cond _ _ thenBranch elseBranch => thenBranch :: elseBranch.toList
  | whileLoop _ _ body => [body]
  | doLoop _ body _ => [body]
  | forLoop _ init _ _ body => init ++ [body]
  | forEach _ _ _ _ body => [body]
  | switch _ _ _ sections => sections.flatMap Section.body
  | guard _ body catches finalizer => body :: catches.map CatchClause.body ++ finalizer.toList
  | acquire _ _ body => [body]
  | synchronized _ _ body => [body]
  | labeled _ _ body => [body]
  | _ => []

/-- The expressions that a statement evaluates itself, in source order. -/
def expressions : Stmt → List Expr
  | cond _ condition _ _ => [condition]
  | whileLoop _ condition _ => [condition]
  | doLoop _ _ condition => [condition]
  | forLoop _ _ condition update _ => condition.toList ++ update
  | forEach _ _ collection _ _ => [collection]
  | switch _ selector _ sections =>
    selector ::
      sections.flatMap fun switchSection => switchSection.labels.filterMap fun label => label
  | acquire _ resources _ => resources.map Resource.init
  | synchronized _ lock _ => [lock]
  | gotoCase _ key => key.toList
  | ret _ value => value.toList
  | throw _ exception => exception.toList
  | yield _ value => value.toList
  | eval _ expr => [expr]
  | declare _ declarators => declarators.filterMap Declarator.init
  | _ => []

end Stmt

end StackCode
