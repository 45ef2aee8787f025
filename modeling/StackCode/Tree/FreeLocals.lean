import StackCode.Tree.Lambdas
import StackCode.Tree.Visit

/-!
# Free locals

A lambda captures the locals that it uses and does not declare.  Sets of locals
are lists of distinct identifiers in ascending order.
-/

namespace StackCode

namespace LocalId

/-- Add an identifier to an ascending list that may have it already. -/
def insert (id : LocalId) : List LocalId → List LocalId
  | [] => [id]
  | first :: ids =>
    if id.index < first.index then id :: first :: ids
    else if id = first then first :: ids
    else first :: insert id ids

/-- The distinct identifiers of a list in ascending order. -/
def ascending (ids : List LocalId) : List LocalId := ids.foldr insert []

@[simp] theorem mem_insert {id other : LocalId} {ids : List LocalId} :
    other ∈ insert id ids ↔ other = id ∨ other ∈ ids := by
  induction ids with
  | nil => simp [insert]
  | cons first ids ih =>
    unfold insert
    grind

@[simp] theorem mem_ascending (ids : List LocalId) (id : LocalId) :
    id ∈ ascending ids ↔ id ∈ ids := by
  induction ids with
  | nil => simp [ascending]
  | cons first ids ih => simpa [ascending] using or_congr_right ih

/-- An identifier is added at its place. -/
theorem pairwise_insert (id : LocalId) {ids : List LocalId}
    (ascends : ids.Pairwise fun first second => first.index < second.index) :
    (insert id ids).Pairwise fun first second => first.index < second.index := by
  induction ids with
  | nil => simp [insert]
  | cons first ids ih =>
    have differs : id ≠ first → id.index ≠ first.index := by
      cases id
      cases first
      simp
    unfold insert
    grind [List.pairwise_cons, mem_insert]

/-- An ascending list is in the order of the numbers, and no number comes twice. -/
theorem pairwise_ascending (ids : List LocalId) :
    (ascending ids).Pairwise fun first second => first.index < second.index := by
  induction ids with
  | nil => exact .nil
  | cons id ids ih => exact pairwise_insert id ih

end LocalId

/-- The locals that a lambda, or one inside it, uses and that none of them declares. -/
def Lambda.freeLocals (lambda : Lambda) : List LocalId :=
  let visits := lambda.visits true
  let declared := visits.filterMap Visit.decl?
  LocalId.ascending <| (visits.filterMap Visit.use?).filter fun id =>
    !declared.any fun decl => decl.id == id

/-- A free local is used somewhere inside and declared nowhere inside. -/
theorem Lambda.mem_freeLocals (lambda : Lambda) (id : LocalId) :
    id ∈ lambda.freeLocals ↔
      id ∈ (lambda.visits true).filterMap Visit.use? ∧
        ∀ decl ∈ (lambda.visits true).filterMap Visit.decl?, decl.id ≠ id := by
  rw [freeLocals, LocalId.mem_ascending, List.mem_filter]
  simp only [Bool.not_eq_true', List.any_eq_false, beq_iff_eq, ne_eq]

/-- The locals that the lambdas of a body capture. -/
def Stmt.captured (body : Stmt) : List LocalId :=
  LocalId.ascending (body.lambdas.flatMap Lambda.freeLocals)

/-- The declaration of a local; of several the last one counts. -/
def LocalDecl.lookup? (decls : List LocalDecl) (id : LocalId) : Option LocalDecl :=
  decls.reverse.find? fun decl => decl.id == id

end StackCode
