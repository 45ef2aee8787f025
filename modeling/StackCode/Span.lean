/-!
# Positions and identifiers

Source positions, and the identifiers of statements, locals, lambdas and labels.
-/

namespace StackCode

/-- A position in the source; what has no source stands at line and column zero. -/
structure Span where
  /-- The line. -/
  line : Nat := 0
  /-- The column. -/
  column : Nat := 0
  deriving DecidableEq, Repr, Inhabited

/-- Line and column with a colon between them. -/
def Span.text (span : Span) : String := toString span.line ++ ":" ++ toString span.column

/-- The identifier of a statement within one method body. -/
structure StmtId where
  /-- The number of the statement. -/
  index : Nat
  deriving DecidableEq, Repr, Inhabited

/-- The written form of a statement identifier. -/
def StmtId.text (id : StmtId) : String := "s" ++ toString id.index

/-- The identifier of a local variable or parameter within one method. -/
structure LocalId where
  /-- The number of the local. -/
  index : Nat
  deriving DecidableEq, Repr, Inhabited

/-- The identifier of a lambda within one class. -/
structure LambdaId where
  /-- The number of the lambda. -/
  index : Nat
  deriving DecidableEq, Repr, Inhabited

/-- A jump target, bound to an instruction position at most once. -/
structure Label where
  /-- The number of the label within its method. -/
  index : Nat
  deriving DecidableEq, Repr, Inhabited

/-- The written form of a label. -/
def Label.text (label : Label) : String := "L" ++ toString label.index

end StackCode
