import StackCode.Annotate.Folding
import StackCode.Annotate.Numbering
import StackCode.Annotate.Reachability
import StackCode.Tree.Declaration

/-!
# Annotating a body

Number the statements of a body, fold its constants, and mark what control can
reach.
-/

namespace StackCode

/-- Mark a body with its own jump targets. -/
def Stmt.marked (body : Stmt) : Stmt := (body.reach (Targets.ofBody body) true).1

/-- Fill in all facts that lowering relies on. -/
def Stmt.annotate (body : Stmt) : Stmt := body.numbered.fold.marked

/-- Annotate the body of a method, if it has one. -/
def MethodDecl.annotate (method : MethodDecl) : MethodDecl :=
  { method with body := method.body.map Stmt.annotate }

/-- Annotate every method of a class. -/
def ClassDecl.annotate (decl : ClassDecl) : ClassDecl :=
  { decl with methods := decl.methods.map MethodDecl.annotate }

end StackCode
