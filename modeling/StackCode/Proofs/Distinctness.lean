import StackCode.Proofs.Identifiers

/-!
# Distinct identifiers

Lambdas are bodies of their own, with statements of their own.  In an annotated
body no two statements share an identifier, neither in the body nor in any of the
lambdas inside it: numbering sees to that, and what follows leaves identifiers
alone.
-/

namespace StackCode

/-- No two statements share an identifier, neither in a body nor in a lambda inside it. -/
inductive Stmt.Distinct : Stmt → Prop where
  | intro {body : Stmt}
      (ids : body.ids.Nodup)
      (lambdas : ∀ lambda ∈ body.lambdas, Distinct lambda.body) :
      Distinct body

theorem Stmt.Distinct.nodup {body : Stmt} (distinct : body.Distinct) : body.ids.Nodup := by
  obtain ⟨ids, -⟩ := distinct
  exact ids

/-- The bodies of lambdas have distinct identifiers. -/
def Lambda.AllDistinct (lambdas : List Lambda) : Prop := ∀ lambda ∈ lambdas, lambda.body.Distinct

theorem Stmt.Distinct.allDistinct {body : Stmt} (distinct : body.Distinct) :
    Lambda.AllDistinct body.lambdas := by
  obtain ⟨-, lambdas⟩ := distinct
  exact lambdas

/-! ## Folding and marking -/

/-- The visits enter statements with the same identifiers, also inside each other. -/
def Visit.Alike (deep : Bool) (first second : List Visit) : Prop :=
  reports deep first = reports deep second

/-- Statements are alike if their identifiers and their insides are. -/
theorem Stmt.alike {deep : Bool} {first second : Stmt} (id : first.id = second.id)
    (inside : Visit.Alike deep (first.visits deep).tail (second.visits deep).tail) :
    Visit.Alike deep (first.visits deep) (second.visits deep) := by
  rw [Visit.Alike, reports_visits, reports_visits, id, inside]

section

attribute [local simp] Visit.Alike Expr.visits Expr.optionVisits Expr.listVisits Expr.labelVisits
  Stmt.visits Stmt.optionVisits Stmt.listVisits Section.listVisits CatchClause.listVisits
  Resource.listVisits Declarator.listVisits

section

attribute [local simp] Expr.fold Expr.optionFold Expr.listFold Expr.labelFold Lambda.fold Stmt.fold
  Stmt.optionFold Stmt.listFold Section.listFold CatchClause.listFold Resource.listFold
  Declarator.listFold

/-- Folding constants leaves the identifiers alone. -/
theorem Stmt.alike_fold (deep : Bool) (stmt : Stmt) :
    Visit.Alike deep (stmt.fold.visits deep) (stmt.visits deep) := by
  apply Stmt.fold.induct
    (fun inside expr => Visit.Alike deep ((expr.fold inside).visits deep) (expr.visits deep))
    (fun inside lambda => Visit.Alike deep ((lambda.fold inside).visits deep) (lambda.visits deep))
    (fun stmt => Visit.Alike deep (stmt.fold.visits deep) (stmt.visits deep))
    (fun declarators => Visit.Alike deep
      (Declarator.listVisits deep (Declarator.listFold declarators))
      (Declarator.listVisits deep declarators))
    (fun inside expr => Visit.Alike deep (Expr.optionVisits deep (Expr.optionFold inside expr))
      (Expr.optionVisits deep expr))
    (fun resources => Visit.Alike deep (Resource.listVisits deep (Resource.listFold resources))
      (Resource.listVisits deep resources))
    (fun catches => Visit.Alike deep (CatchClause.listVisits deep (CatchClause.listFold catches))
      (CatchClause.listVisits deep catches))
    (fun sections => Visit.Alike deep (Section.listVisits deep (Section.listFold sections))
      (Section.listVisits deep sections))
    (fun stmts => Visit.Alike deep (listVisits deep (listFold stmts)) (listVisits deep stmts))
    (fun labels => Visit.Alike deep (Expr.labelVisits deep (Expr.labelFold labels))
      (Expr.labelVisits deep labels))
    (fun inside exprs => Visit.Alike deep (Expr.listVisits deep (Expr.listFold inside exprs))
      (Expr.listVisits deep exprs))
    (fun stmt => Visit.Alike deep (optionVisits deep (optionFold stmt)) (optionVisits deep stmt))
  all_goals intros
  -- The body of a lambda is visited only if `deep` holds, and folded only if `inside` does.
  all_goals
    first
    | exact alike rfl (by simp_all)
    | cases deep <;> simp_all [apply_ite]

end

attribute [local simp] Expr.reach Expr.optionReach Expr.listReach Lambda.reach Stmt.reach
  Stmt.optionReach Stmt.listReach Section.listReach CatchClause.listReach Resource.listReach
  Declarator.listReach

/-- Marking leaves the identifiers alone. -/
theorem Stmt.alike_reach (deep : Bool) (targets : Targets) (reached : Bool) (stmt : Stmt) :
    Visit.Alike deep ((stmt.reach targets reached).1.visits deep) (stmt.visits deep) := by
  apply Stmt.reach.induct
    (fun expr => Visit.Alike deep (expr.reach.visits deep) (expr.visits deep))
    (fun lambda => Visit.Alike deep (lambda.reach.visits deep) (lambda.visits deep))
    (fun targets reached stmt =>
      Visit.Alike deep ((stmt.reach targets reached).1.visits deep) (stmt.visits deep))
    (fun declarators => Visit.Alike deep
      (Declarator.listVisits deep (Declarator.listReach declarators))
      (Declarator.listVisits deep declarators))
    (fun expr => Visit.Alike deep (Expr.optionVisits deep (Expr.optionReach expr))
      (Expr.optionVisits deep expr))
    (fun resources => Visit.Alike deep (Resource.listVisits deep (Resource.listReach resources))
      (Resource.listVisits deep resources))
    (fun targets entered catches => Visit.Alike deep
      (CatchClause.listVisits deep (CatchClause.listReach targets entered catches).1)
      (CatchClause.listVisits deep catches))
    (fun targets entered ends sections => Visit.Alike deep
      (Section.listVisits deep (Section.listReach targets entered ends sections).1)
      (Section.listVisits deep sections))
    (fun targets flows reached stmts => Visit.Alike deep
      (listVisits deep (listReach targets flows reached stmts).1) (listVisits deep stmts))
    (fun exprs => Visit.Alike deep (Expr.listVisits deep (Expr.listReach exprs))
      (Expr.listVisits deep exprs))
    (fun targets reached stmt => Visit.Alike deep
      (optionVisits deep (optionReach targets reached stmt).1) (optionVisits deep stmt))
  all_goals intros
  all_goals
    first
    | exact alike rfl (by simp_all +zetaDelta)
    | cases deep <;> simp_all

end

/-! ## Annotated bodies -/

/-- The statements of a body are its own and those in its lambdas. -/
theorem Stmt.perm_entered (body : Stmt) :
    (Visit.entered (body.visits true)).Perm
      (body.ids ++ body.lambdas.flatMap fun lambda => Visit.entered (lambda.body.visits true)) :=
  body.perm_filterMap_visits Visit.stmtId? fun _ => rfl

/-- A lambda of a statement has fewer statements inside. -/
theorem Stmt.length_entered_lt {body : Stmt} {lambda : Lambda} (member : lambda ∈ body.lambdas) :
    (Visit.entered (lambda.body.visits true)).length <
      (Visit.entered (body.visits true)).length := by
  obtain ⟨first, second, lambdas⟩ := List.append_of_mem member
  have positive := body.size_pos
  simp only [body.perm_entered.length_eq, lambdas, List.length_append, List.flatMap_append,
    List.flatMap_cons, Stmt.size] at positive ⊢
  omega

/-- If no two of all statements share an identifier, neither do those of one body. -/
theorem Stmt.distinct_of_nodup (body : Stmt)
    (nodup : (Visit.entered (body.visits true)).Nodup) : body.Distinct := by
  have split := body.perm_entered
  obtain ⟨own, inLambdas, -⟩ := List.nodup_append.mp (split.nodup_iff.mp nodup)
  refine ⟨own, fun lambda member => ?_⟩
  exact lambda.body.distinct_of_nodup ((List.nodup_flatMap.mp inLambdas).1 lambda member)
termination_by (Visit.entered (body.visits true)).length
decreasing_by exact length_entered_lt member

/-- Numbering gives a body and its lambdas the numbers from one on. -/
theorem Stmt.reports_annotate (body : Stmt) :
    (∃ count, Multiset.ofList (Visit.entered (body.annotate.visits true)) =
      StmtId.between 1 count) ∧
      ∀ report ∈ Visit.reports true (body.annotate.visits true), StmtId.Leads report := by
  obtain ⟨new, same, ids, leads⟩ := (body.numbers 0).fresh 1
  rw [zero_add, zero_add] at same
  have alike : Visit.reports true (body.annotate.visits true) =
      Visit.reports true (body.numbered.visits true) :=
    (Stmt.alike_reach true _ true _).trans (Stmt.alike_fold true _)
  rw [← Visit.map_fst_reports, alike]
  subst same
  exact ⟨⟨_, ids⟩, leads⟩

/-- In an annotated body no two statements share an identifier. -/
theorem Stmt.distinct_annotate (body : Stmt) : body.annotate.Distinct := by
  obtain ⟨⟨count, ids⟩, -⟩ := body.reports_annotate
  exact body.annotate.distinct_of_nodup (Multiset.coe_nodup.mp (ids ▸ StmtId.nodup_between _ _))

end StackCode
