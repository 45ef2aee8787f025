import StackCode.Proofs.Ancestry
import StackCode.Proofs.Distinctness

/-!
# Traversals of annotated bodies

The statements of a body are reached from it through the statements directly inside
others and through lambdas.  Numbering, the visits of a tree and the map of parents all
go through these same statements.
-/

namespace StackCode

namespace Stmt

/-- A statement and those inside it, each before the statements directly inside it. -/
def preorder (stmt : Stmt) : List Stmt :=
  stmt :: stmt.children.attach.flatMap fun child => child.1.preorder
termination_by stmt.size
decreasing_by exact size_lt_of_mem_children child.2

/-- A statement and those inside it, then the statements of its lambdas. -/
def closure (stmt : Stmt) : List Stmt :=
  stmt.preorder ++ stmt.lambdas.attach.flatMap fun lambda => lambda.1.body.closure
termination_by (Visit.entered (stmt.visits true)).length
decreasing_by exact length_entered_lt lambda.2

theorem preorder_eq_statements (stmt : Stmt) : stmt.preorder = stmt.statements := by
  induction stmt using induction_on_children with
  | inductionStep stmt ih =>
    rw [preorder, statements_eq, List.flatMap_congr fun child _ => ih child.1 child.2]
    simp

/-- The visits enter the statements in a body and in its lambdas. -/
theorem perm_closure (stmt : Stmt) :
    stmt.closure.Perm ((stmt.visits true).filterMap Visit.entered?) := by
  have lambdas : (stmt.lambdas.attach.flatMap fun lambda => lambda.1.body.closure).Perm
      (stmt.lambdas.flatMap fun lambda => (lambda.body.visits true).filterMap Visit.entered?) := by
    refine .trans (.flatMap_left _ fun lambda _ => lambda.1.body.perm_closure) (.of_eq ?_)
    simp
  have split := stmt.perm_filterMap_visits Visit.entered? fun _ => rfl
  rw [← statements_eq_filterMap, ← preorder_eq_statements] at split
  rw [closure]
  exact (lambdas.append_left _).trans split.symm
termination_by (Visit.entered (stmt.visits true)).length
decreasing_by exact length_entered_lt lambda.2

theorem perm_map_id_closure (stmt : Stmt) :
    (stmt.closure.map Stmt.id).Perm (Visit.entered (stmt.visits true)) :=
  Visit.map_id_filterMap _ ▸ stmt.perm_closure.map Stmt.id

/--
The statements of an annotated body and of its lambdas have the numbers from one on, and
each has a smaller one than everything inside it.  The identifiers of a statement are
those of the statements reached from it through direct insides alone, each once, and the
map of parents finds exactly the statements around a statement.
-/
theorem closure_annotate (body : Stmt) :
    (∃ count, (body.annotate.closure.map Stmt.id).Perm ((List.range' 1 count).map StmtId.mk)) ∧
    ∀ stmt ∈ body.annotate.closure,
      (∀ inner ∈ stmt.closure.tail, stmt.id.index < inner.id.index) ∧
      stmt.ids = stmt.preorder.map Stmt.id ∧ stmt.ids.Nodup ∧
      ∀ inner ∈ stmt.preorder, ∀ id,
        id ∈ (ParentMap.ofBody stmt).ancestors inner.id ↔
          ∃ outer ∈ stmt.preorder, inner ∈ outer.preorder ∧ outer.id = id := by
  obtain ⟨⟨count, numbers⟩, leads⟩ := body.reports_annotate
  refine ⟨⟨_, (perm_map_id_closure _).trans (Multiset.coe_eq_coe.mp numbers)⟩,
    fun stmt reached => ?_⟩
  obtain ⟨nodup, smaller⟩ := leads (stmt.id, (Visit.entered (stmt.visits true)).tail)
    (List.mem_map_of_mem ((perm_closure _).mem_iff.mp reached))
  have first : Visit.entered (stmt.visits true) =
      stmt.id :: (Visit.entered (stmt.visits true)).tail := by
    cases stmt <;> rfl
  have distinct : stmt.ids.Nodup := by
    rw [← first] at nodup
    exact (List.nodup_append.mp (stmt.perm_entered.nodup_iff.mp nodup)).1
  refine ⟨fun inner inside => smaller _ ?_, by rw [preorder_eq_statements, map_id_statements],
    distinct, fun inner inside id => ?_⟩
  · have inner := stmt.perm_map_id_closure
    rw [first, closure, preorder] at inner
    rw [closure, preorder] at inside
    exact ((List.perm_cons _).mp inner).mem_iff.mp (List.mem_map_of_mem inside)
  · simp only [preorder_eq_statements] at inside ⊢
    constructor
    · obtain ⟨around, constructs, lies⟩ := Lies.exists_of_mem_statements inside
      rw [ParentMap.ancestors_ofBody distinct lies, List.mem_reverse, List.mem_cons]
      rintro (rfl | found)
      · exact ⟨inner, inside, inner.mem_statements_self, rfl⟩
      · obtain ⟨outer, member, same, holds⟩ := lies.exists_of_mem found
        exact ⟨outer, member, holds, same⟩
    · rintro ⟨outer, member, holds, rfl⟩
      rw [ParentMap.mem_ancestors_iff distinct (mem_ids_iff.mpr ⟨outer, member, rfl⟩), encloses_iff]
      exact ⟨outer, member, rfl, mem_ids_iff.mpr ⟨inner, holds, rfl⟩⟩

end Stmt

end StackCode
