import StackCode.Proofs.Ancestry
import StackCode.Proofs.Distinctness

/-!
# Where jumps go

The targets of the jumps of a body are found in one reading of it that keeps track of
the open statements.  They depend on nothing but the statements around a jump: those
that are open where it is read are the ones that have it inside.  Marking what control
reaches leaves these alone, so every reachable jump of an annotated body carries the
target that its place in the body gives it.
-/

namespace StackCode

namespace Stmt

/-! ## The way to a statement -/

/-- The statements around a statement of a body, from the inside out. -/
inductive Path (body : Stmt) : Stmt → List Stmt → Prop where
  /-- Nothing is around the body itself. -/
  | whole : Path body body []
  /-- A statement is around those directly inside it. -/
  | child {stmt inner : Stmt} {around : List Stmt}
      (outside : Path body stmt around)
      (member : inner ∈ stmt.children) :
      Path body inner (stmt :: around)

namespace Path

variable {body stmt inner other : Stmt} {path otherPath : List Stmt}

theorem lies (way : body.Path stmt path) : ∃ around, body.Lies stmt (path.map Stmt.id) around := by
  induction way with
  | whole => exact ⟨[], .whole⟩
  | child _ member ih =>
    obtain ⟨around, lies⟩ := ih
    rw [← map_fst_parts] at member
    obtain ⟨⟨part, protects⟩, partMember, rfl⟩ := List.mem_map.mp member
    exact ⟨_, .part lies partMember⟩

theorem mem_statements (way : body.Path stmt path) : stmt ∈ body.statements := by
  obtain ⟨around, lies⟩ := way.lies
  exact lies.mem_statements

/-- A way from a statement on can be prolonged by the way to it. -/
theorem append (outside : body.Path stmt path) (inside : stmt.Path inner otherPath) :
    body.Path inner (otherPath ++ path) := by
  induction inside with
  | whole => exact outside
  | child _ member ih => exact .child ih member

/-- The way to a statement inside another one leads through a statement directly inside it. -/
theorem cases_outside (way : stmt.Path inner path) :
    inner = stmt ∧ path = [] ∨
      ∃ child ∈ stmt.children, ∃ rest, child.Path inner rest ∧ path = rest ++ [stmt] := by
  induction way with
  | whole => exact .inl ⟨rfl, rfl⟩
  | child _ member ih =>
    obtain ⟨rfl, rfl⟩ | ⟨first, firstMember, rest, way, rfl⟩ := ih
    · exact .inr ⟨_, member, [], .whole, rfl⟩
    · exact .inr ⟨first, firstMember, _, .child way member, rfl⟩

/-- There is a way to every statement inside a body. -/
theorem exists_of_mem (member : stmt ∈ body.statements) : ∃ path, body.Path stmt path := by
  induction body using induction_on_children with
  | inductionStep body ih =>
    obtain rfl | ⟨child, childMember, found⟩ := mem_statements_iff.mp member
    · exact ⟨[], .whole⟩
    · obtain ⟨path, way⟩ := ih child childMember found
      exact ⟨path ++ [body], append (.child .whole childMember) way⟩

/-- The way to a statement is determined. -/
theorem unique (distinct : body.ids.Nodup) (first : body.Path stmt path)
    (second : body.Path stmt otherPath) : path = otherPath := by
  induction first generalizing otherPath with
  | whole =>
    obtain ⟨_, lies⟩ := second.lies
    exact (List.map_eq_nil_iff.mp (ParentMap.outer_unique distinct .whole lies rfl).symm).symm
  | child outside member ih =>
    obtain ⟨_, firstLies⟩ := (Path.child outside member).lies
    obtain ⟨_, secondLies⟩ := second.lies
    have same := ParentMap.outer_unique distinct firstLies secondLies rfl
    cases second with
    | whole => cases same
    | child otherOutside otherMember =>
      obtain ⟨idSame, -⟩ := List.cons.inj same
      obtain rfl := eq_of_id_eq distinct outside.mem_statements otherOutside.mem_statements idSame
      rw [ih otherOutside]

end Path

/-! ## Open statements -/

/-- What a statement opens for the jumps inside it. -/
def enclosing? : Stmt → Option Enclosing
  | .whileLoop tag _ _ => some (.loop tag.id)
  | .doLoop tag _ _ => some (.loop tag.id)
  | .forLoop tag _ _ _ _ => some (.loop tag.id)
  | .forEach tag _ _ _ _ => some (.loop tag.id)
  | .switch tag _ _ _ => some (.switch tag.id)
  | .labeled tag label inner => some (.labeled label tag.id inner.id)
  | _ => none

/-- Where a jump in a body goes that has the given statements open around it. -/
def jumpTarget? (body : Stmt) (enclosing : List Enclosing) : Stmt → Option StmtId
  | .breakJump _ none => enclosing.findSome? Enclosing.breakable?
  | .breakJump _ (some label) => (enclosing.findSome? (Enclosing.labeled? label)).map Prod.fst
  | .continueJump _ none => enclosing.findSome? Enclosing.loop?
  | .continueJump _ (some label) => (enclosing.findSome? (Enclosing.labeled? label)).map Prod.snd
  | .goto _ label => Targets.labeled? body label
  | .gotoCase _ _ => enclosing.findSome? Enclosing.switch?
  | _ => none

end Stmt

namespace Targets

variable {body stmt : Stmt} {enclosing : List Enclosing} {targets : Targets}

/-- Entering a statement opens it, and records where it goes if it is a jump. -/
theorem step_enter (body stmt : Stmt) (enclosing : List Enclosing) (targets : Targets) :
    ∃ bound : Targets, step body (enclosing, targets) (.enter stmt) =
        (stmt.enclosing?.toList ++ enclosing, bound) ∧
      bound.ofJump = ((body.jumpTarget? enclosing stmt).toList.map fun target =>
        (stmt.id, target)) ++ targets.ofJump := by
  cases stmt with
  | breakJump tag label => cases label <;> exact ⟨_, rfl, rfl⟩
  | continueJump tag label => cases label <;> exact ⟨_, rfl, rfl⟩
  | _ => exact ⟨_, rfl, rfl⟩

/-- Leaving a statement closes it. -/
theorem step_leave (body stmt : Stmt) (enclosing : List Enclosing) (targets : Targets) :
    step body (stmt.enclosing?.toList ++ enclosing, targets) (.leave stmt) =
      (enclosing, targets) := by
  cases stmt <;> rfl

/--
The targets of the jumps in statements, of which those in the list are open around all:
nothing is recorded for other statements, and for each jump what its place gives it.
-/
structure Resolves
    (body : Stmt)
    (enclosing : List Enclosing)
    (stmts : List Stmt)
    (links : List (StmtId × StmtId)) :
    Prop where
  within : ∀ id ∈ links.map Prod.fst, id ∈ Stmt.listIds stmts
  lookup : ∀ stmt ∈ stmts, ∀ {inner path}, stmt.Path inner path →
    links.lookup inner.id = body.jumpTarget? (path.filterMap Stmt.enclosing? ++ enclosing) inner

/-- What is recorded for a statement comes before what is recorded for those before it. -/
theorem Resolves.cons
    {stmts : List Stmt} {links others : List (StmtId × StmtId)}
    (distinct : (Stmt.listIds (stmt :: stmts)).Nodup)
    (first : Resolves body enclosing [stmt] links)
    (rest : Resolves body enclosing stmts others) :
    Resolves body enclosing (stmt :: stmts) (others ++ links) := by
  rw [Stmt.listIds_cons, List.nodup_append] at distinct
  have elsewhere : ∀ id ∈ stmt.ids, others.lookup id = none := fun id member =>
    lookup_eq_none fun found => distinct.2.2 id member id (rest.within id found) rfl
  have firstWithin : ∀ id ∈ links.map Prod.fst, id ∈ stmt.ids := by
    intro id member
    simpa using first.within id member
  refine ⟨?_, ?_⟩
  · intro id member
    rw [List.map_append] at member
    rw [Stmt.listIds_cons]
    obtain member | member := List.mem_append.mp member
    · exact List.mem_append_right _ (rest.within id member)
    · exact List.mem_append_left _ (firstWithin id member)
  · intro other member inner path way
    rw [List.lookup_append]
    obtain rfl | member := List.mem_cons.mp member
    · have inside := Stmt.mem_ids_iff.mpr ⟨inner, way.mem_statements, rfl⟩
      rw [elsewhere inner.id inside, Option.none_or]
      exact first.lookup other List.mem_cons_self way
    · have absent : links.lookup inner.id = none := by
        refine lookup_eq_none fun found => ?_
        have inside := Stmt.mem_ids_iff.mpr ⟨inner, way.mem_statements, rfl⟩
        exact distinct.2.2 _ (firstWithin _ found) _
          (List.mem_flatMap.mpr ⟨other, member, inside⟩) rfl
      rw [absent, Option.or_none]
      exact rest.lookup other member way

/-- What is recorded for the statements inside a statement comes before its own target. -/
theorem Resolves.around
    {links : List (StmtId × StmtId)}
    (distinct : stmt.ids.Nodup)
    (inside : Resolves body (stmt.enclosing?.toList ++ enclosing) stmt.children links) :
    Resolves body enclosing [stmt]
      (links ++ (body.jumpTarget? enclosing stmt).toList.map fun target => (stmt.id, target)) := by
  have ids := stmt.ids_eq
  rw [ids, List.nodup_cons] at distinct
  refine ⟨?_, ?_⟩
  · intro id member
    rw [Stmt.listIds_cons, Stmt.listIds_nil, List.append_nil, ids]
    rw [List.map_append] at member
    obtain member | member := List.mem_append.mp member
    · exact List.mem_cons_of_mem _ (inside.within id member)
    · obtain ⟨_, found, rfl⟩ := List.mem_map.mp member
      obtain ⟨_, -, rfl⟩ := List.mem_map.mp found
      exact List.mem_cons_self
  · intro other member inner path way
    obtain rfl := List.mem_singleton.mp member
    rw [List.lookup_append]
    obtain ⟨rfl, rfl⟩ | ⟨child, childMember, rest, childWay, rfl⟩ := way.cases_outside
    · rw [lookup_eq_none fun found => distinct.1 (inside.within _ found), Option.none_or]
      rw [List.filterMap_nil, List.nil_append]
      cases body.jumpTarget? enclosing inner with
      | none => rfl
      | some target => exact List.lookup_cons_self
    · have found := inside.lookup child childMember childWay
      have absent : ((body.jumpTarget? enclosing other).toList.map fun target =>
          (other.id, target)).lookup inner.id = none := by
        refine lookup_eq_none fun found => distinct.1 ?_
        obtain ⟨_, found, same⟩ := List.mem_map.mp found
        obtain ⟨_, -, rfl⟩ := List.mem_map.mp found
        have same : other.id = inner.id := same
        rw [same]
        have innerInside := Stmt.mem_ids_iff.mpr ⟨inner, childWay.mem_statements, rfl⟩
        exact List.mem_flatMap.mpr ⟨child, childMember, innerInside⟩
      rw [absent, Option.or_none, found, List.filterMap_append, List.append_assoc]
      cases opened : other.enclosing? <;> simp [opened]

/-- Reading statements in sequence resolves the jumps in each. -/
theorem foldl_step_list
    {stmts : List Stmt}
    (each : ∀ stmt ∈ stmts, stmt.ids.Nodup → ∀ enclosing targets, ∃ links bound,
      stmt.outline.foldl (step body) (enclosing, targets) = (enclosing, bound) ∧
        bound.ofJump = links ++ targets.ofJump ∧ Resolves body enclosing [stmt] links)
    (distinct : (Stmt.listIds stmts).Nodup)
    (enclosing : List Enclosing) (targets : Targets) :
    ∃ links bound, (Stmt.listOutline stmts).foldl (step body) (enclosing, targets) =
        (enclosing, bound) ∧
      bound.ofJump = links ++ targets.ofJump ∧ Resolves body enclosing stmts links := by
  induction stmts generalizing targets with
  | nil => exact ⟨[], targets, rfl, rfl, nofun, nofun⟩
  | cons stmt stmts ih =>
    have both := distinct
    rw [Stmt.listIds_cons, List.nodup_append] at both
    obtain ⟨links, bound, read, recorded, resolves⟩ :=
      each stmt List.mem_cons_self both.1 enclosing targets
    obtain ⟨others, final, othersRead, othersRecorded, othersResolve⟩ :=
      ih (fun other member => each other (List.mem_cons_of_mem _ member)) both.2.1
        bound
    refine ⟨others ++ links, final, ?_, ?_, resolves.cons distinct othersResolve⟩
    · rw [Stmt.listOutline_cons, List.foldl_append, read, othersRead]
    · rw [othersRecorded, recorded, List.append_assoc]

/-- Reading a statement resolves the jumps in it, and leaves nothing open. -/
theorem foldl_step_outline
    (distinct : stmt.ids.Nodup)
    (enclosing : List Enclosing) (targets : Targets) :
    ∃ links bound, stmt.outline.foldl (step body) (enclosing, targets) = (enclosing, bound) ∧
      bound.ofJump = links ++ targets.ofJump ∧ Resolves body enclosing [stmt] links := by
  induction stmt using Stmt.induction_on_children generalizing enclosing targets with
  | inductionStep stmt ih =>
    obtain ⟨entered, enters, own⟩ := step_enter body stmt enclosing targets
    have inner := distinct
    rw [stmt.ids_eq, List.nodup_cons] at inner
    obtain ⟨links, bound, read, recorded, resolves⟩ := foldl_step_list ih inner.2
      (stmt.enclosing?.toList ++ enclosing) entered
    refine ⟨_, bound, ?_, ?_, .around distinct resolves⟩
    · rw [stmt.outline_eq, List.cons_append, List.foldl_cons, enters, List.foldl_append, read,
        List.foldl_cons, step_leave, List.foldl_nil]
    · rw [recorded, own, List.append_assoc]

/-- The target of a statement of a body is the one that its place gives it. -/
theorem target?_ofBody
    (distinct : body.ids.Nodup)
    {path : List Stmt}
    (way : body.Path stmt path) :
    (ofBody body).target? stmt.id = body.jumpTarget? (path.filterMap Stmt.enclosing?) stmt := by
  obtain ⟨links, bound, (read : body.outline.foldl (step body) _ = _), recorded, resolves⟩ :=
    foldl_step_outline distinct [] {}
  have whole : ofBody body = bound := by
    rw [ofBody, ← body.foldl_outline]
    · exact congrArg Prod.snd read
    · intro state visit other
      cases visit <;> first | rfl | contradiction
  have found := resolves.lookup body List.mem_cons_self way
  rw [target?, whole, recorded]
  simpa using found

end Targets

/-! ## Marking -/

namespace Stmt

variable {stmt body : Stmt} {path : List Stmt}

/-- A statement with the facts about it filled in. -/
def Marks (targets : Targets) (source marked : Stmt) : Prop :=
  ∃ reached, marked = (source.reach targets reached).1

theorem marks_listReach (targets : Targets) (flows reached : Bool) (stmts : List Stmt) :
    List.Forall₂ (Marks targets) stmts (listReach targets flows reached stmts).1 := by
  induction stmts generalizing reached with
  | nil => exact .nil
  | cons stmt stmts ih => exact .cons ⟨_, rfl⟩ (ih _)

theorem marks_optionReach (targets : Targets) (reached : Bool) (stmt : Option Stmt) :
    List.Forall₂ (Marks targets) stmt.toList (optionReach targets reached stmt).1.toList := by
  cases stmt with
  | none => exact .nil
  | some stmt => exact .cons ⟨_, rfl⟩ .nil

theorem marks_sections (targets : Targets) (entered lastEnds : Bool) (sections : List Section) :
    List.Forall₂ (Marks targets) (sections.flatMap Section.body)
      ((Section.listReach targets entered lastEnds sections).1.flatMap Section.body) := by
  induction sections generalizing lastEnds with
  | nil => exact .nil
  | cons switchSection sections ih =>
    obtain ⟨labels, body⟩ := switchSection
    exact List.rel_append (marks_listReach _ _ _ body) (ih _)

theorem marks_catches (targets : Targets) (entered : Bool) (catches : List CatchClause) :
    List.Forall₂ (Marks targets) (catches.map CatchClause.body)
      ((CatchClause.listReach targets entered catches).1.map CatchClause.body) := by
  induction catches with
  | nil => exact .nil
  | cons clause catches ih =>
    obtain ⟨type, decl, body⟩ := clause
    exact .cons ⟨_, rfl⟩ ih

/-- The statements directly inside a marked one are marked. -/
theorem marks_children (targets : Targets) (reached : Bool) (stmt : Stmt) :
    List.Forall₂ (Marks targets) stmt.children (stmt.reach targets reached).1.children := by
  have one : ∀ {inner : Stmt} {within : Bool},
      List.Forall₂ (Marks targets) [inner] [(inner.reach targets within).1] := .cons ⟨_, rfl⟩ .nil
  cases stmt with
  | block tag body => exact marks_listReach _ _ _ body
  | cond tag condition thenBranch elseBranch =>
    exact .cons ⟨_, rfl⟩ (marks_optionReach _ _ elseBranch)
  | whileLoop tag condition body => exact one
  | doLoop tag body condition => exact one
  | forLoop tag init condition update body => exact List.rel_append (marks_listReach _ _ _ init) one
  | forEach tag decl collection source body => exact one
  | switch tag selector kind sections => exact marks_sections _ _ _ sections
  | guard tag body catches finalizer =>
    exact List.rel_append (.cons ⟨_, rfl⟩ (marks_catches _ _ catches))
      (marks_optionReach _ _ finalizer)
  | acquire tag resources body => exact one
  | synchronized tag lock body => exact one
  | labeled tag label body => exact one
  | _ => exact .nil

namespace Marks

variable {targets : Targets} {source marked : Stmt}

theorem id_eq (marks : Marks targets source marked) : marked.id = source.id := by
  obtain ⟨reached, rfl⟩ := marks
  cases source <;> rfl

/-- Marking leaves alone what a statement opens. -/
theorem enclosing?_eq (marks : Marks targets source marked) :
    marked.enclosing? = source.enclosing? := by
  obtain ⟨reached, rfl⟩ := marks
  cases source with
  | labeled tag label inner =>
    have marks :
        Marks targets inner (inner.reach targets (targets.enters tag reached)).1 := ⟨_, rfl⟩
    exact congrArg (fun id => some (Enclosing.labeled label tag.id id)) marks.id_eq
  | _ => rfl

/-- Marking leaves alone where a jump goes from its place. -/
theorem jumpTarget?_eq (marks : Marks targets source marked) (body : Stmt)
    (enclosing : List Enclosing) :
    body.jumpTarget? enclosing marked = body.jumpTarget? enclosing source := by
  obtain ⟨reached, rfl⟩ := marks
  cases source with
  | breakJump tag label => cases label <;> rfl
  | continueJump tag label => cases label <;> rfl
  | _ => rfl

/-- A statement that is reached has the target that was found for it. -/
theorem target?_eq (marks : Marks targets source marked) (reachable : marked.isReachable) :
    marked.target? = targets.target? source.id := by
  obtain ⟨reached, rfl⟩ := marks
  have tag : ∃ entered completes count, (source.reach targets reached).1.tag =
      targets.mark source.tag entered completes count := by
    cases source <;> exact ⟨_, _, _, rfl⟩
  obtain ⟨entered, completes, count, tag⟩ := tag
  rw [isReachable, info?, tag] at reachable
  rw [target?, info?, tag]
  cases entered with
  | false => contradiction
  | true => rfl

end Marks

/-- The way to a statement of a marked body is the way to the statement it was made from. -/
theorem Path.of_marks
    {targets : Targets} {source : Stmt}
    (marks : Marks targets source body)
    (way : body.Path stmt path) :
    ∃ original sourcePath, source.Path original sourcePath ∧ Marks targets original stmt ∧
      List.Forall₂ (Marks targets) sourcePath path := by
  induction way with
  | whole => exact ⟨source, [], .whole, marks, .nil⟩
  | child _ member ih =>
    obtain ⟨original, sourcePath, sourceWay, ⟨reached, rfl⟩, around⟩ := ih
    obtain ⟨child, childMember, childMarks⟩ :=
      exists_of_mem_right (marks_children targets reached original) member
    exact ⟨child, _, .child sourceWay childMember, childMarks, .cons ⟨reached, rfl⟩ around⟩

/-- Marking leaves alone what is open around a statement. -/
theorem filterMap_enclosing?_of_marks
    {targets : Targets} {sourcePath : List Stmt}
    (marks : List.Forall₂ (Marks targets) sourcePath path) :
    path.filterMap enclosing? = sourcePath.filterMap enclosing? := by
  induction marks with
  | nil => rfl
  | cons first _ ih =>
    rw [List.filterMap_cons, List.filterMap_cons, first.enclosing?_eq, ih]

/-- Every reachable statement of a marked body has the target that its place gives it. -/
theorem target?_marked
    {source : Stmt}
    (distinct : source.ids.Nodup)
    (way : source.marked.Path stmt path)
    (reachable : stmt.isReachable) :
    stmt.target? = source.jumpTarget? (path.filterMap enclosing?) stmt := by
  obtain ⟨original, sourcePath, sourceWay, marks, around⟩ := way.of_marks ⟨true, rfl⟩
  rw [marks.target?_eq reachable, Targets.target?_ofBody distinct sourceWay,
    filterMap_enclosing?_of_marks around, marks.jumpTarget?_eq]

/-! ## Lambdas in marked bodies -/

/-- The lambdas in the labels of a statement itself. -/
def labelLambdas : Stmt → List Lambda
  | .switch _ _ _ sections =>
    Expr.listLambdas (sections.flatMap fun switchSection =>
      switchSection.labels.filterMap fun label => label)
  | .gotoCase _ key => Expr.optionLambdas key
  | _ => []

end Stmt

namespace Visit

/-- The lambdas in the labels of a statement that is entered. -/
def labelLambdas : Visit → List Lambda
  | enter stmt => stmt.labelLambdas
  | _ => []

/-- No label holds a lambda. -/
def PlainLabels (visits : List Visit) : Prop := ∀ visit ∈ visits, visit.labelLambdas = []

@[simp] theorem plainLabels_cons (visit : Visit) (visits : List Visit) :
    PlainLabels (visit :: visits) ↔ visit.labelLambdas = [] ∧ PlainLabels visits :=
  List.forall_mem_cons

@[simp] theorem plainLabels_append (first second : List Visit) :
    PlainLabels (first ++ second) ↔ PlainLabels first ∧ PlainLabels second :=
  List.forall_mem_append

end Visit

namespace Stmt

variable {stmt body : Stmt} {path : List Stmt}

section

open Visit (PlainLabels)

attribute [local simp] Expr.lambdas Expr.optionLambdas Expr.listLambdas lambdas optionLambdas
  listLambdas Section.listLambdas CatchClause.listLambdas Expr.reach Expr.optionReach
  Expr.listReach reach optionReach listReach Section.listReach CatchClause.listReach
  Resource.listReach Declarator.listReach visits optionVisits listVisits CatchClause.listVisits
  Section.listVisits Visit.labelLambdas labelLambdas

end

/-- Of a kind, and inside all others of the kind that have the statement inside as well. -/
structure Innermost (kind : Stmt → Prop) (body stmt outer : Stmt) : Prop where
  inBody : outer ∈ body.statements
  ofKind : kind outer
  holds : stmt ∈ outer.statements
  least : ∀ other ∈ body.statements, kind other → stmt ∈ other.statements → outer ∈ other.statements

/-- The way to a statement leads through the statements around it. -/
theorem Path.split
    {around : Stmt} {inside outside : List Stmt}
    (way : body.Path stmt (inside ++ around :: outside)) :
    body.Path around outside ∧ around.Path stmt (inside ++ [around]) := by
  induction inside generalizing stmt with
  | nil =>
    cases way with
    | child way member => exact ⟨way, .child .whole member⟩
  | cons first inside ih =>
    cases way with
    | child way member =>
      obtain ⟨outer, inner⟩ := ih way
      exact ⟨outer, .child inner member⟩

/-- The way to a statement leads through every other statement that has it inside. -/
theorem Path.exists_eq_append
    {around : Stmt}
    (distinct : body.ids.Nodup)
    (way : body.Path stmt path)
    (inBody : around ∈ body.statements)
    (holds : stmt ∈ around.statements)
    (other : stmt ≠ around) :
    ∃ inside outside, path = inside ++ around :: outside := by
  obtain ⟨outside, outer⟩ := exists_of_mem inBody
  obtain ⟨inside, inner⟩ := exists_of_mem holds
  obtain ⟨same, -⟩ | ⟨_, -, rest, -, rfl⟩ := inner.cases_outside
  · exact absurd same other
  · refine ⟨rest, outside, ?_⟩
    rw [way.unique distinct (outer.append inner), List.append_assoc, List.singleton_append]

/-- No statement around another one is inside it. -/
theorem Path.not_mem_statements
    {around : Stmt}
    (distinct : body.ids.Nodup)
    (way : body.Path stmt path)
    (member : around ∈ path) :
    around ∉ stmt.statements := by
  intro inside
  obtain ⟨_, lies⟩ := way.lies
  have once := distinct.sublist lies.sublist_ids
  refine (List.nodup_append.mp once).2.2 around.id ?_ around.id
    (mem_ids_iff.mpr ⟨_, inside, rfl⟩) rfl
  exact List.mem_reverse.mpr (List.mem_map_of_mem member)

section Innermost

variable {kind : Stmt → Prop} {body stmt outer : Stmt} {path : List Stmt}
variable {opens : Stmt → Option α}

/-- The innermost statement of a kind is the first one on the way out. -/
theorem Innermost.findSome?_eq
    (innermost : Innermost kind body stmt outer)
    (distinct : body.ids.Nodup)
    (way : body.Path stmt path)
    (kinds : ∀ other, (opens other).isSome ↔ kind other)
    (plain : ¬ kind stmt) :
    path.findSome? opens = opens outer := by
  have other : stmt ≠ outer := fun same => plain (same ▸ innermost.ofKind)
  obtain ⟨inside, outside, rfl⟩ :=
    way.exists_eq_append distinct innermost.inBody innermost.holds other
  have none : inside.findSome? opens = none := by
    rw [List.findSome?_eq_none_iff]
    intro between member
    rw [← Option.not_isSome_iff_eq_none, kinds]
    intro ofKind
    -- One in between would be around the innermost one and inside it.
    obtain ⟨first, second, rfl⟩ := List.append_of_mem member
    rw [List.append_assoc, List.cons_append] at way
    obtain ⟨outerWay, inner⟩ := way.split
    refine outerWay.not_mem_statements distinct (List.mem_append_right _ List.mem_cons_self) ?_
    exact innermost.least between outerWay.mem_statements ofKind inner.mem_statements
  obtain ⟨found, opened⟩ := Option.isSome_iff_exists.mp ((kinds outer).mpr innermost.ofKind)
  rw [List.findSome?_append, none, List.findSome?_cons, opened]
  rfl

/-- What is open around a statement is read off the statements around it. -/
theorem findSome?_filterMap_enclosing? (path : List Stmt) (reads : Enclosing → Option α) :
    (path.filterMap enclosing?).findSome? reads =
      path.findSome? fun stmt => stmt.enclosing?.bind reads := by
  rw [← List.head?_filterMap, List.filterMap_filterMap, List.head?_filterMap]

end Innermost

/-! ## The innermost switch -/

/-- The statement is a switch. -/
inductive IsSwitch : Stmt → Prop where
  | intro (tag : StmtTag) (selector : Expr) (kind : SelectorKind) (sections : List Section) :
      IsSwitch (.switch tag selector kind sections)

theorem switch?_enclosing?_eq_some {id : StmtId} :
    stmt.enclosing?.bind Enclosing.switch? = some id ↔ stmt.IsSwitch ∧ stmt.id = id := by
  constructor
  · intro opened
    cases stmt with
    | switch tag selector kind sections => exact ⟨.intro .., Option.some.inj opened⟩
    | _ => cases opened
  · rintro ⟨⟨tag, selector, kind, sections⟩, rfl⟩
    rfl

theorem isSome_switch?_enclosing? (stmt : Stmt) :
    (stmt.enclosing?.bind Enclosing.switch?).isSome ↔ stmt.IsSwitch := by
  simp only [Option.isSome_iff_exists, switch?_enclosing?_eq_some, exists_and_left, exists_eq',
    and_true]

section Switches

variable {body stmt switch : Stmt} {path : List Stmt}

/-- The innermost switch is the first one on the way out. -/
theorem Innermost.findSome?_switch?
    (innermost : Innermost IsSwitch body stmt switch)
    (distinct : body.ids.Nodup)
    (way : body.Path stmt path)
    (plain : ¬ stmt.IsSwitch) :
    (path.filterMap enclosing?).findSome? Enclosing.switch? = some switch.id := by
  rw [findSome?_filterMap_enclosing?,
    innermost.findSome?_eq distinct way isSome_switch?_enclosing? plain]
  exact switch?_enclosing?_eq_some.mpr ⟨innermost.ofKind, rfl⟩

end Switches

section Marked

variable {source stmt switch : Stmt} {tag : StmtTag} {label : Option Expr}

theorem ids_marked (source : Stmt) : source.marked.ids = source.ids := by
  have same := congrArg (List.map Prod.fst)
    (source.alike_reach false (Targets.ofBody source) true)
  rw [Visit.map_fst_reports, Visit.map_fst_reports] at same
  exact same

theorem not_isSwitch_gotoCase : ¬ (gotoCase tag label).IsSwitch := nofun

/-- A reachable jump to a case has the innermost switch around it as its target. -/
theorem Innermost.target?_eq
    (innermost : Innermost IsSwitch source.marked stmt switch)
    (distinct : source.marked.ids.Nodup)
    (isJump : stmt = .gotoCase tag label)
    (reachable : stmt.isReachable) :
    stmt.target? = some switch.id := by
  subst isJump
  obtain ⟨path, way⟩ := Path.exists_of_mem (mem_statements_trans innermost.inBody innermost.holds)
  rw [target?_marked (source.ids_marked ▸ distinct) way reachable]
  exact innermost.findSome?_switch? distinct way not_isSwitch_gotoCase

end Marked

end Stmt
end StackCode
