import Mathlib.Data.List.Basic
import StackCode.Annotate
import StackCode.Generate

/-!
# The outline of a statement

Reading a statement enters it, reads what is directly inside it, and leaves it.
What is read of expressions and declarations in between does not matter to
analyses of control flow; without it, the visits of a statement are made of those
of the statements directly inside it in the same way for every kind of statement.
-/

namespace StackCode

/-- The visit enters or leaves a statement. -/
def Visit.isStmt : Visit → Bool
  | enter _ => true
  | leave _ => true
  | _ => false

@[simp] theorem Visit.isStmt_enter (stmt : Stmt) : (enter stmt).isStmt := rfl

@[simp] theorem Visit.isStmt_leave (stmt : Stmt) : (leave stmt).isStmt := rfl

@[simp] theorem Visit.isStmt_declare (decl : LocalDecl) : (declare decl).isStmt = false := rfl

/-- The statement that a visit enters. -/
def Visit.entered? : Visit → Option Stmt
  | enter stmt => some stmt
  | _ => none

@[simp] theorem LocalDecl.filter_declare (decls : List LocalDecl) :
    (decls.map Visit.declare).filter Visit.isStmt = [] := by
  induction decls with
  | nil => rfl
  | cons decl decls ih => exact ih

namespace Stmt

/-- The visits that enter or leave a statement or one inside it, lambdas left out. -/
def outline (stmt : Stmt) : List Visit := (stmt.visits false).filter Visit.isStmt

/-- A reading that ignores what is not a statement depends on the outline alone. -/
theorem foldl_outline
    {step : α → Visit → α}
    (ignores : ∀ state visit, visit.isStmt = false → step state visit = state)
    (stmt : Stmt)
    (state : α) :
    stmt.outline.foldl step state = (stmt.visits false).foldl step state := by
  rw [outline, List.foldl_filter]
  congr
  funext state visit
  cases kind : visit.isStmt with
  | true => rfl
  | false => exact (ignores state visit kind).symm

/-- The outline of statements in sequence. -/
def listOutline (stmts : List Stmt) : List Visit := stmts.flatMap outline

@[simp] theorem listOutline_nil : listOutline [] = [] := rfl

@[simp] theorem listOutline_cons (stmt : Stmt) (stmts : List Stmt) :
    listOutline (stmt :: stmts) = stmt.outline ++ listOutline stmts := rfl

@[simp] theorem listOutline_append (first second : List Stmt) :
    listOutline (first ++ second) = listOutline first ++ listOutline second :=
  List.flatMap_append

/-- Reading an expression enters no statement, and what holds statements is outlined by them. -/
theorem filter_parts :
    (∀ expr : Expr, (expr.visits false).filter Visit.isStmt = []) ∧
    (∀ _ : Lambda, True) ∧
    (∀ _ : Stmt, True) ∧
    (∀ declarators, (Declarator.listVisits false declarators).filter Visit.isStmt = []) ∧
    (∀ expr, (Expr.optionVisits false expr).filter Visit.isStmt = []) ∧
    (∀ resources, (Resource.listVisits false resources).filter Visit.isStmt = []) ∧
    (∀ catches, (CatchClause.listVisits false catches).filter Visit.isStmt =
      listOutline (catches.map CatchClause.body)) ∧
    (∀ sections, (Section.listVisits false sections).filter Visit.isStmt =
      listOutline (sections.flatMap Section.body)) ∧
    (∀ stmts, (listVisits false stmts).filter Visit.isStmt = listOutline stmts) ∧
    (∀ labels, (Expr.labelVisits false labels).filter Visit.isStmt = []) ∧
    (∀ exprs, (Expr.listVisits false exprs).filter Visit.isStmt = []) ∧
    (∀ stmt, (optionVisits false stmt).filter Visit.isStmt = listOutline stmt.toList) := by
  -- The induction is that of the visits; nothing is to be shown of statements themselves.
  apply Expr.visits.mutual_induct
  all_goals
    intros
    simp_all [outline, Visit.isStmt, Expr.visits, Declarator.listVisits, Expr.optionVisits,
      Resource.listVisits, CatchClause.listVisits, Section.listVisits, listVisits,
      Expr.labelVisits, Expr.listVisits, optionVisits, -List.filter_eq_nil_iff]

/-- The outline of a statement is made of those of the statements directly inside it. -/
theorem outline_eq (stmt : Stmt) :
    stmt.outline = .enter stmt :: listOutline stmt.children ++ [.leave stmt] := by
  obtain ⟨exprs, -, -, declarators, options, resources, catches, sections, stmts, -, lists,
    parts⟩ := filter_parts
  cases stmt <;>
    simp [outline, visits, children, exprs, declarators, options, resources, catches, sections,
      stmts, lists, parts, List.filter_cons]

/-! ## Parts of a statement -/

/-- The identifiers of statements in sequence and of all statements inside them. -/
def listIds (stmts : List Stmt) : List StmtId := stmts.flatMap ids

@[simp] theorem listIds_nil : listIds [] = [] := rfl

@[simp] theorem listIds_cons (stmt : Stmt) (stmts : List Stmt) :
    listIds (stmt :: stmts) = stmt.ids ++ listIds stmts := rfl

@[simp] theorem listIds_append (first second : List Stmt) :
    listIds (first ++ second) = listIds first ++ listIds second :=
  List.flatMap_append

/-- The identifiers of a statement can be read off its outline. -/
theorem filterMap_outline (stmt : Stmt) : stmt.outline.filterMap Visit.stmtId? = stmt.ids := by
  have same :
      (fun visit => if Visit.isStmt visit then visit.stmtId? else none) = Visit.stmtId? := by
    funext visit
    cases visit <;> rfl
  rw [outline, List.filterMap_filter, same]
  rfl

theorem filterMap_listOutline (stmts : List Stmt) :
    (listOutline stmts).filterMap Visit.stmtId? = listIds stmts := by
  induction stmts with
  | nil => rfl
  | cons stmt stmts ih =>
    rw [listOutline_cons, List.filterMap_append, filterMap_outline, ih]
    rfl

/-- A statement comes before the statements directly inside it. -/
theorem ids_eq (stmt : Stmt) : stmt.ids = stmt.id :: listIds stmt.children := by
  rw [← filterMap_outline, outline_eq, ← filterMap_listOutline]
  simp [Visit.stmtId?, List.filterMap_cons]

theorem id_mem_ids (stmt : Stmt) : stmt.id ∈ stmt.ids := by
  simp [ids_eq stmt]

/-- A statement directly inside another one is smaller. -/
theorem size_lt_of_mem_children {stmt child : Stmt} (member : child ∈ stmt.children) :
    child.size < stmt.size := by
  obtain ⟨first, second, split⟩ := List.append_of_mem member
  have ids := congrArg List.length (ids_eq stmt)
  simp only [split, listIds_append, listIds_cons, List.length_cons, List.length_append] at ids
  unfold size
  omega

/-- What holds of a statement if it holds of the statements directly inside it holds of all. -/
theorem induction_on_children
    {motive : Stmt → Prop}
    (inductionStep : ∀ stmt, (∀ child ∈ stmt.children, motive child) → motive stmt)
    (stmt : Stmt) :
    motive stmt :=
  inductionStep stmt fun child _ => induction_on_children inductionStep child
termination_by stmt.size
decreasing_by exact size_lt_of_mem_children ‹_›

end Stmt

end StackCode
