import StackCode.Proofs.LambdaVisits
import StackCode.Proofs.Outline

/-!
# The identifiers of statements

Numbering hands out every number once, so no two statements of a body share an
identifier, those in lambdas included.
-/

namespace StackCode

namespace Visit

/-- The identifiers of the statements that are entered. -/
def entered (visits : List Visit) : List StmtId := visits.filterMap stmtId?

/-- The identifiers of the statements that are entered, each with those of the statements inside. -/
def reports (deep : Bool) (visits : List Visit) : List (StmtId × List StmtId) :=
  (visits.filterMap entered?).map fun stmt => (stmt.id, (entered (stmt.visits deep)).tail)

variable {deep : Bool}

theorem map_id_filterMap (visits : List Visit) :
    (visits.filterMap entered?).map Stmt.id = entered visits := by
  rw [List.map_filterMap, entered]
  refine List.filterMap_congr fun visit _ => ?_
  cases visit <;> rfl

@[simp] theorem map_fst_reports (visits : List Visit) :
    (reports deep visits).map Prod.fst = entered visits := by
  rw [reports, List.map_map]
  exact map_id_filterMap visits

@[simp] theorem reports_nil : reports deep [] = [] := rfl

@[simp] theorem reports_append (first second : List Visit) :
    reports deep (first ++ second) = reports deep first ++ reports deep second := by
  simp [reports]

@[simp] theorem reports_leave (stmt : Stmt) (visits : List Visit) :
    reports deep (.leave stmt :: visits) = reports deep visits := rfl

@[simp] theorem reports_expr (expr : Expr) (visits : List Visit) :
    reports deep (.expr expr :: visits) = reports deep visits := rfl

@[simp] theorem reports_lambda (function : Lambda) (visits : List Visit) :
    reports deep (.lambda function :: visits) = reports deep visits := rfl

@[simp] theorem reports_declare (decl : LocalDecl) (visits : List Visit) :
    reports deep (.declare decl :: visits) = reports deep visits := rfl

@[simp] theorem reports_map_declare (decls : List LocalDecl) :
    reports deep (decls.map declare) = [] := by
  simp [reports, List.filterMap_eq_nil_iff, entered?]

end Visit

@[simp] theorem Lambda.reports_visits (deep : Bool) (lambda : Lambda) :
    Visit.reports deep (lambda.visits deep) = Visit.reports deep (lambda.body.visits deep) := by
  obtain ⟨_, params, _, body, _⟩ := lambda
  simp [Lambda.visits]

/-- A statement is entered first. -/
theorem Stmt.reports_visits (deep : Bool) (stmt : Stmt) :
    Visit.reports deep (stmt.visits deep) =
      (stmt.id, (Visit.reports deep (stmt.visits deep).tail).map Prod.fst) ::
        Visit.reports deep (stmt.visits deep).tail := by
  rw [Visit.map_fst_reports]
  cases stmt <;> rfl

/-! ## Numbering -/

/-- The identifiers with the numbers from `low` on and below `high`. -/
def StmtId.between (low high : Nat) : Multiset StmtId :=
  Multiset.ofList ((List.range' low (high - low)).map StmtId.mk)

theorem StmtId.nodup_between (low high : Nat) : (StmtId.between low high).Nodup :=
  Multiset.coe_nodup.mpr ((List.nodup_range' 1).map fun _ _ same => StmtId.mk.inj same)

theorem StmtId.between_add_between {low middle high : Nat} (first : low ≤ middle)
    (second : middle ≤ high) :
    StmtId.between low middle + StmtId.between middle high = StmtId.between low high := by
  obtain ⟨length, rfl⟩ := Nat.exists_eq_add_of_le first
  obtain ⟨rest, rfl⟩ := Nat.exists_eq_add_of_le second
  rw [between, between, between, Multiset.coe_add, ← List.map_append, Nat.add_sub_cancel_left,
    Nat.add_sub_cancel_left, List.range'_append_1, Nat.add_assoc, Nat.add_sub_cancel_left]

theorem StmtId.mem_between {low high : Nat} {id : StmtId} (member : id ∈ between low high) :
    low ≤ id.index := by
  obtain ⟨index, inside, rfl⟩ := List.mem_map.mp (Multiset.mem_coe.mp member)
  exact (List.mem_range'_1.mp inside).1

/-- A statement has a smaller number than those inside it, and those have distinct ones. -/
def StmtId.Leads (report : StmtId × List StmtId) : Prop :=
  (report.1 :: report.2).Nodup ∧ ∀ id ∈ report.2, report.1.index < id.index

/--
A step of the numbering whose result has, beside the statements seen before, some to
which the step hands out its numbers.
-/
structure Numbers
    (seen : Multiset (StmtId × List StmtId))
    (step : Numbering α)
    (reports : α → Multiset (StmtId × List StmtId)) :
    Prop where
  /-- The statements of the result are those seen before and new ones. -/
  fresh : ∀ number, ∃ new, reports (step number).1 = seen + new ∧
    new.map Prod.fst = StmtId.between number (step number).2 ∧ ∀ report ∈ new, StmtId.Leads report
  /-- Numbers are never handed out twice. -/
  grows : ∀ number, number ≤ (step number).2

namespace Numbers

variable {seen : Multiset (StmtId × List StmtId)}

theorem pure
    {value : α} {reports : α → Multiset (StmtId × List StmtId)}
    (same : reports value = seen) :
    Numbers seen (pure value) reports where
  fresh := by
    intro number
    have none : StmtId.between number number = 0 := by simp [StmtId.between]
    exact ⟨0, same.trans (add_zero seen).symm, none.symm, by simp⟩
  grows := Nat.le_refl

/-- Steps one after the other number what each of them does. -/
theorem bind
    {first : Numbering α} {next : α → Numbering β} {between : α → Multiset (StmtId × List StmtId)}
    {reports : β → Multiset (StmtId × List StmtId)}
    (firstNumbers : Numbers seen first between)
    (nextNumbers : ∀ number,
      Numbers (between (first number).1) (next (first number).1) reports) :
    Numbers seen (first >>= next) reports where
  fresh := by
    intro number
    have grows := firstNumbers.grows number
    have nextGrows := (nextNumbers number).grows (first number).2
    obtain ⟨new, same, ids, leads⟩ := firstNumbers.fresh number
    obtain ⟨more, nextSame, nextIds, nextLeads⟩ := (nextNumbers number).fresh (first number).2
    refine ⟨new + more, ?_, ?_, ?_⟩
    · rw [← add_assoc, ← same]
      exact nextSame
    · rw [Multiset.map_add, ids, nextIds, StmtId.between_add_between grows nextGrows]
      rfl
    · exact fun report member => (Multiset.mem_add.mp member).elim (leads report) (nextLeads report)
  grows := fun number => Nat.le_trans (firstNumbers.grows number) ((nextNumbers number).grows _)

/-- A statement gets a number before everything inside it. -/
theorem node
    {tag : StmtTag} {inside : StmtTag → Numbering Stmt}
    (numbers : ∀ tag, Numbers 0 (inside tag) fun stmt =>
      Multiset.ofList (Visit.reports true (stmt.visits true).tail))
    (kept : ∀ tag number, (inside tag number).1.id = tag.id := by exact fun _ _ => rfl) :
    Numbers seen (tag.number >>= inside) fun stmt =>
      seen + Multiset.ofList (Visit.reports true (stmt.visits true)) where
  fresh := by
    intro number
    have grows := (numbers { tag with id := ⟨number⟩ }).grows (number + 1)
    obtain ⟨new, same, ids, leads⟩ := (numbers { tag with id := ⟨number⟩ }).fresh (number + 1)
    have id := kept { tag with id := ⟨number⟩ } (number + 1)
    change ∃ new, seen + Multiset.ofList (Visit.reports true
      ((inside { tag with id := ⟨number⟩ } (number + 1)).1.visits true)) = _ ∧
        _ = StmtId.between number (inside { tag with id := ⟨number⟩ } (number + 1)).2 ∧ _
    generalize inside { tag with id := ⟨number⟩ } (number + 1) = result at same ids id grows ⊢
    rw [zero_add] at same
    rw [← same, Multiset.map_coe] at ids
    refine ⟨_, rfl, ?_, ?_⟩
    · have next : StmtId.between number (number + 1) = {⟨number⟩} := by simp [StmtId.between]
      rw [Stmt.reports_visits, ← StmtId.between_add_between (Nat.le_succ number) grows,
        next, ← ids, id]
      rfl
    · rw [Stmt.reports_visits, ← Multiset.cons_coe, Multiset.forall_mem_cons, same, id]
      have smaller : ∀ id ∈ (Visit.reports true (result.1.visits true).tail).map Prod.fst,
          number < id.index :=
        fun id member => StmtId.mem_between (ids ▸ Multiset.mem_coe.mpr member)
      refine ⟨⟨List.nodup_cons.mpr ⟨fun member => Nat.lt_irrefl _ (smaller _ member), ?_⟩, smaller⟩,
        leads⟩
      exact Multiset.coe_nodup.mp (ids ▸ StmtId.nodup_between _ _)
  grows := fun number => Nat.le_trans (Nat.le_succ number) ((numbers _).grows _)

end Numbers

theorem Section.length_numberLabels (sections : List Section) (number other : Nat) :
    (numberLabels sections number).1.length = (numberBodies sections other).1.length := by
  induction sections generalizing number other with
  | nil => rfl
  | cons first sections ih =>
    obtain ⟨labels, body⟩ := first
    exact congrArg (· + 1) (ih _ _)

/-- Sections that are put together from labels and bodies enter what stands in those. -/
theorem Section.reports_zipWith {labels : List (List (Option Expr))} {bodies : List (List Stmt)}
    (lengths : labels.length = bodies.length) :
    Multiset.ofList (Visit.reports true (listVisits true (List.zipWith Section.mk labels bodies))) =
      Multiset.ofList (Visit.reports true (labels.flatMap (Expr.labelVisits true))) +
        Multiset.ofList (Visit.reports true (bodies.flatMap (Stmt.listVisits true))) := by
  induction labels generalizing bodies with
  | nil =>
    rw [List.length_eq_zero_iff.mp lengths.symm]
    rfl
  | cons first labels ih =>
    cases bodies with
    | nil => contradiction
    | cons body bodies =>
      simp only [List.zipWith_cons_cons, listVisits, List.flatMap_cons, Visit.reports_append,
        ← Multiset.coe_add, ih (Nat.succ.inj lengths)]
      abel

/-- The statements in the visits of a result get new identifiers. -/
def Numbers.Anew (step : Numbering α) (visits : α → List Visit) : Prop :=
  ∀ seen, Numbers seen step fun value => seen + Multiset.ofList (Visit.reports true (visits value))

/-- Numbering gives a statement and those inside it, lambdas included, new identifiers. -/
theorem Stmt.numbers (stmt : Stmt) : Numbers.Anew stmt.number (visits true) := by
  apply Stmt.number.induct
    (fun expr => Numbers.Anew expr.number (Expr.visits true))
    (fun lambda => Numbers.Anew lambda.number (Lambda.visits true))
    (fun stmt => Numbers.Anew stmt.number (visits true))
    (fun declarators =>
      Numbers.Anew (Declarator.listNumber declarators) (Declarator.listVisits true))
    (fun expr => Numbers.Anew (Expr.optionNumber expr) (Expr.optionVisits true))
    (fun resources => Numbers.Anew (Resource.listNumber resources) (Resource.listVisits true))
    (fun catches => Numbers.Anew (CatchClause.listNumber catches) (CatchClause.listVisits true))
    (fun sections =>
      Numbers.Anew (Section.numberBodies sections) (List.flatMap (listVisits true)))
    (fun stmts => Numbers.Anew (listNumber stmts) (listVisits true))
    (fun sections =>
      Numbers.Anew (Section.numberLabels sections) (List.flatMap (Expr.labelVisits true)))
    (fun labels => Numbers.Anew (Expr.labelNumber labels) (Expr.labelVisits true))
    (fun exprs => Numbers.Anew (Expr.listNumber exprs) (Expr.listVisits true))
    (fun stmt => Numbers.Anew (optionNumber stmt) (optionVisits true))
  all_goals intros
  all_goals intro seen
  -- The parts are numbered one after the other, a statement before its parts.
  all_goals repeat'
    first
    | refine .node fun _ => ?_
    | refine .bind (by apply_assumption) fun _ => ?_
  all_goals refine .pure ?_
  all_goals
    simp [Expr.visits, Expr.optionVisits, Expr.listVisits, Expr.labelVisits, Stmt.visits,
      Stmt.optionVisits, Stmt.listVisits, CatchClause.listVisits, Resource.listVisits,
      Declarator.listVisits, Section.reports_zipWith (Section.length_numberLabels _ _ _),
      ← Multiset.coe_add, add_assoc, add_left_comm, add_comm]

end StackCode
