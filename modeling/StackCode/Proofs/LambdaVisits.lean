import Mathlib.Data.Multiset.Bind
import Mathlib.Tactic.Abel
import StackCode.Tree.FreeLocals

/-!
# Lambdas and visits

What is met inside the lambdas of a tree is met when the tree is read with its
lambdas: the deep visits of a tree are its shallow ones together with the deep
visits of the lambdas that stand in it.
-/

namespace StackCode

namespace Visit

/-- The lambdas that are met. -/
def met (visits : List Visit) : Multiset Lambda := Multiset.ofList (visits.filterMap lambda?)

/-- Visits with the deep visits of each lambda right after it is met. -/
def deepened (visits : List Visit) : List Visit :=
  visits.flatMap fun visit => visit :: visit.lambda?.toList.flatMap (Lambda.visits true)

@[simp] theorem met_nil : met [] = 0 := rfl

@[simp] theorem met_append (first second : List Visit) :
    met (first ++ second) = met first + met second := by
  simp [met, List.filterMap_append, ← Multiset.coe_add]

@[simp] theorem met_cons (visit : Visit) (visits : List Visit) :
    met (visit :: visits) = Multiset.ofList visit.lambda?.toList + met visits := by
  cases visit <;> rfl

@[simp] theorem met_map_declare (decls : List LocalDecl) : met (decls.map declare) = 0 := by
  induction decls with
  | nil => rfl
  | cons decl decls ih => simpa [lambda?] using ih

@[simp] theorem deepened_nil : deepened [] = [] := rfl

@[simp] theorem deepened_append (first second : List Visit) :
    deepened (first ++ second) = deepened first ++ deepened second :=
  List.flatMap_append

/-- The deep visits of a lambda come right after it. -/
@[simp] theorem deepened_cons (visit : Visit) (visits : List Visit) :
    deepened (visit :: visits) =
      visit :: (visit.lambda?.toList.flatMap (Lambda.visits true) ++ deepened visits) := rfl

@[simp] theorem deepened_map_declare (decls : List LocalDecl) :
    deepened (decls.map declare) = decls.map declare := by
  induction decls with
  | nil => rfl
  | cons decl decls ih => simpa [lambda?] using ih

theorem perm_deepened (visits : List Visit) :
    (deepened visits).Perm
      (visits ++ (visits.filterMap lambda?).flatMap fun lambda => lambda.visits true) := by
  have both := List.flatMap_append_perm visits (fun visit => [visit])
    fun visit => visit.lambda?.toList.flatMap (Lambda.visits true)
  rw [List.flatMap_singleton', ← List.flatMap_assoc,
    ← List.filterMap_eq_flatMap_toList] at both
  exact both.symm

end Visit

/-! ## Lambdas that are met and deep visits -/

theorem Expr.coe_listLambdas_append (first second : List Expr) :
    Multiset.ofList (Expr.listLambdas (first ++ second)) =
      Multiset.ofList (Expr.listLambdas first) + Multiset.ofList (Expr.listLambdas second) := by
  induction first with
  | nil => rfl
  | cons expr first ih =>
    simp only [List.cons_append, Expr.listLambdas, ← Multiset.coe_add, ih,
      add_assoc]

/-- The lambdas of an expression that may be missing come before those of the others. -/
theorem Expr.listLambdas_filterMap_cons (part? : α → Option Expr) (value : α) (values : List α) :
    Expr.listLambdas ((value :: values).filterMap part?) =
      Expr.optionLambdas (part? value) ++ Expr.listLambdas (values.filterMap part?) := by
  rw [List.filterMap_cons]
  cases part? value <;> rfl

namespace Stmt

attribute [local simp] Expr.visits Expr.optionVisits Expr.listVisits Expr.labelVisits visits
  optionVisits listVisits Section.listVisits CatchClause.listVisits Resource.listVisits
  Declarator.listVisits Visit.lambda?

section

attribute [local simp] Expr.lambdas Expr.optionLambdas Expr.listLambdas lambdas optionLambdas
  listLambdas Section.listLambdas CatchClause.listLambdas

/-- The lambdas that are met in a statement are those that stand in it. -/
theorem met_visits (stmt : Stmt) :
    Visit.met (stmt.visits false) = Multiset.ofList stmt.lambdas := by
  apply Stmt.visits.induct
    (fun expr => Visit.met (expr.visits false) = Multiset.ofList expr.lambdas)
    (fun _ => True)
    (fun stmt => Visit.met (stmt.visits false) = Multiset.ofList stmt.lambdas)
    (fun declarators => Visit.met (Declarator.listVisits false declarators) =
      Multiset.ofList (Expr.listLambdas (declarators.filterMap Declarator.init)))
    (fun expr => Visit.met (Expr.optionVisits false expr) =
      Multiset.ofList (Expr.optionLambdas expr))
    (fun resources => Visit.met (Resource.listVisits false resources) =
      Multiset.ofList (Expr.listLambdas (resources.map Resource.init)))
    (fun catches => Visit.met (CatchClause.listVisits false catches) =
      Multiset.ofList (CatchClause.listLambdas catches))
    (fun sections => Visit.met (Section.listVisits false sections) =
      Multiset.ofList (Expr.listLambdas (sections.flatMap fun switchSection =>
        switchSection.labels.filterMap fun label => label)) +
        Multiset.ofList (Section.listLambdas sections))
    (fun stmts => Visit.met (listVisits false stmts) = Multiset.ofList (listLambdas stmts))
    (fun labels => Visit.met (Expr.labelVisits false labels) =
      Multiset.ofList (Expr.listLambdas (labels.filterMap fun label => label)))
    (fun exprs => Visit.met (Expr.listVisits false exprs) =
      Multiset.ofList (Expr.listLambdas exprs))
    (fun stmt => Visit.met (optionVisits false stmt) = Multiset.ofList (optionLambdas stmt))
  all_goals intros
  all_goals
    simp_all [Expr.coe_listLambdas_append, Expr.listLambdas_filterMap_cons, ← Multiset.coe_add]
  -- The lambdas of loops and of switches are listed in another order.
  all_goals abel

end

/-- Reading a statement with its lambdas is reading it, and then the lambdas that are met. -/
theorem deepened_visits (stmt : Stmt) : Visit.deepened (stmt.visits false) = stmt.visits true := by
  apply Stmt.visits.induct
    (fun expr => Visit.deepened (expr.visits false) = expr.visits true)
    (fun _ => True)
    (fun stmt => Visit.deepened (stmt.visits false) = stmt.visits true)
    (fun declarators => Visit.deepened (Declarator.listVisits false declarators) =
      Declarator.listVisits true declarators)
    (fun expr => Visit.deepened (Expr.optionVisits false expr) = Expr.optionVisits true expr)
    (fun resources => Visit.deepened (Resource.listVisits false resources) =
      Resource.listVisits true resources)
    (fun catches => Visit.deepened (CatchClause.listVisits false catches) =
      CatchClause.listVisits true catches)
    (fun sections => Visit.deepened (Section.listVisits false sections) =
      Section.listVisits true sections)
    (fun stmts => Visit.deepened (listVisits false stmts) = listVisits true stmts)
    (fun labels => Visit.deepened (Expr.labelVisits false labels) = Expr.labelVisits true labels)
    (fun exprs => Visit.deepened (Expr.listVisits false exprs) = Expr.listVisits true exprs)
    (fun stmt => Visit.deepened (optionVisits false stmt) = optionVisits true stmt)
  all_goals intros
  all_goals simp_all

/-- The lambdas of a statement, those inside other lambdas included. -/
def allLambdas (stmt : Stmt) : List Lambda := (stmt.visits true).filterMap Visit.lambda?

theorem perm_visits (stmt : Stmt) :
    (stmt.visits true).Perm
      (stmt.visits false ++ stmt.lambdas.flatMap fun lambda => lambda.visits true) := by
  rw [← stmt.deepened_visits]
  refine (Visit.perm_deepened _).trans (.append_left _ (.flatMap_right _ ?_))
  exact Multiset.coe_eq_coe.mp stmt.met_visits

/-- What is seen outside of declarations is seen in the statement or in one of its lambdas. -/
theorem perm_filterMap_visits (stmt : Stmt) (see : Visit → Option α)
    (blind : ∀ decl, see (.declare decl) = none) :
    ((stmt.visits true).filterMap see).Perm ((stmt.visits false).filterMap see ++
      stmt.lambdas.flatMap fun lambda => (lambda.body.visits true).filterMap see) := by
  have inner : ∀ lambda : Lambda,
      (lambda.visits true).filterMap see = (lambda.body.visits true).filterMap see := by
    rintro ⟨_, params, _, body, _⟩
    simp [Lambda.visits, blind]
  have split := stmt.perm_visits.filterMap see
  rw [List.filterMap_append, List.filterMap_flatMap] at split
  simpa only [inner] using split

/-- A lambda that is met in a statement stands in it. -/
theorem mem_lambdas_of_mem_visits {stmt : Stmt} {lambda : Lambda}
    (met : .lambda lambda ∈ stmt.visits false) : lambda ∈ stmt.lambdas := by
  have member : lambda ∈ Visit.met (stmt.visits false) :=
    List.mem_filterMap.mpr ⟨_, met, rfl⟩
  rwa [stmt.met_visits] at member

theorem visits_subset_of_mem_lambdas {stmt : Stmt} {lambda : Lambda}
    (member : lambda ∈ stmt.lambdas) : lambda.visits true ⊆ stmt.visits true := by
  intro visit met
  refine stmt.perm_visits.mem_iff.mpr (List.mem_append_right _ ?_)
  exact List.mem_flatMap.mpr ⟨lambda, member, met⟩

theorem visits_subset (stmt : Stmt) : stmt.visits false ⊆ stmt.visits true :=
  fun _ met => stmt.perm_visits.mem_iff.mpr (List.mem_append_left _ met)

/-- Every lambda stands in the statement itself or inside another one. -/
theorem perm_allLambdas (stmt : Stmt) :
    stmt.allLambdas.Perm (stmt.lambdas.flatMap fun lambda => lambda :: lambda.body.allLambdas) := by
  have shallow : ((stmt.visits false).filterMap Visit.lambda?).Perm stmt.lambdas :=
    Multiset.coe_eq_coe.mp stmt.met_visits
  have split := stmt.perm_filterMap_visits Visit.lambda? fun _ => rfl
  refine split.trans ((shallow.append_right _).trans ?_)
  have both := List.flatMap_append_perm stmt.lambdas (fun lambda => [lambda])
    fun lambda => lambda.body.allLambdas
  rwa [List.flatMap_singleton'] at both

end Stmt

end StackCode
