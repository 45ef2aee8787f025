import StackCode.Proofs.Nesting
import StackCode.Proofs.Selection

/-!
# Statements on their way

While a body is lowered, each of its statements is lowered some number of times: once
where it stands, and once more for every copy of a finally body that it is part of.
Each time is a task of its own.  A task asks for others; the tasks that a body leads to
are all that is emitted for it.  If the body succeeds, so do they all, and their code
stays in place; if one fails, so does the body.
-/

namespace StackCode

open Emit

variable {stmt : Stmt}

/-- A statement that is lowered in a state, with room for some number of statements at once. -/
structure Task where
  /-- The number of statements that may be lowered at once, this one included. -/
  room : Nat
  /-- The statement. -/
  stmt : Stmt
  /-- The state in which its lowering begins. -/
  state : Emission

namespace Task

variable {task inner : Task} {after : Emission} {error : Error}

/-- What lowering the statement comes to. -/
def outcome (task : Task) : EStateM.Result Error Emission Unit :=
  lowerWithin task.room task.stmt task.state

/-- The task to lower a body. -/
def ofBody (body : Stmt) (start : Emission) : Task where
  room := nestingBound start.method.frames body
  stmt := body
  state := start

/-- Lowering a statement lowers another one on the way. -/
structure Asks (task inner : Task) : Prop where
  reachable : task.stmt.isReachable
  room : task.room = inner.room + 1
  enters : Enters (lowerWithin inner.room) task.stmt task.state inner.stmt inner.state

/-- Lowering a statement leads to another one that is lowered, if not the same. -/
abbrev LeadsTo : Task → Task → Prop := Relation.ReflTransGen Asks

theorem outcome_of_reachable {room : Nat} (reachable : task.stmt.isReachable)
    (enough : task.room = room + 1) :
    task.outcome = lowerReachable (lowerWithin room) task.stmt task.state := by
  rw [outcome, enough, lowerWithin, if_pos reachable]

namespace Asks

/-- A task goes on from the answer to what it asked for. -/
theorem outcome_eq (asks : task.Asks inner) :
    ∃ next : Emission → EStateM.Result Error Emission Unit,
      task.outcome = goOn inner.outcome (fun _ => next) ∧
        ∀ {answer after}, next answer = .ok () after → answer.code.Grows after.code := by
  have dialogue := (composed_lowerReachable task.stmt).dialogue rfl task.state
  obtain ⟨next, dialogues, same⟩ := dialogue.of_stops asks.enters
  refine ⟨fun answer => next answer (lowerWithin inner.room), ?_, ?_⟩
  · rw [outcome_of_reachable asks.reachable asks.room]
    exact same
  · intro answer after success
    exact (dialogues answer).grows (growing_lowerWithin _) success

theorem success (asks : task.Asks inner) (success : task.outcome = .ok () after) :
    ∃ innerAfter, inner.outcome = .ok () innerAfter ∧ innerAfter.code.Grows after.code := by
  obtain ⟨next, same, grows⟩ := asks.outcome_eq
  rw [same] at success
  cases answered : inner.outcome with
  | ok _ answer =>
    rw [answered] at success
    exact ⟨answer, rfl, grows success⟩
  | error error answer =>
    rw [answered] at success
    cases success

theorem failure (asks : task.Asks inner) (failure : inner.outcome = .error error after) :
    task.outcome = .error error after := by
  obtain ⟨next, same, -⟩ := asks.outcome_eq
  rw [same, failure]
  rfl

end Asks

namespace LeadsTo

/-- All tasks on the way succeed, and their code stays in place. -/
theorem success (leads : task.LeadsTo inner) (success : task.outcome = .ok () after) :
    ∃ innerAfter, inner.outcome = .ok () innerAfter ∧ innerAfter.code.Grows after.code := by
  induction leads with
  | refl => exact ⟨after, success, .refl _⟩
  | tail _ asks ih =>
    obtain ⟨between, betweenSuccess, grows⟩ := ih
    obtain ⟨innerAfter, innerSuccess, innerGrows⟩ := asks.success betweenSuccess
    exact ⟨innerAfter, innerSuccess, innerGrows.trans grows⟩

/-- If a task fails, so do all that lead to it. -/
theorem failure (leads : task.LeadsTo inner) (failure : inner.outcome = .error error after) :
    task.outcome = .error error after := by
  induction leads with
  | refl => exact failure
  | tail _ asks ih => exact ih (asks.failure failure)

end LeadsTo

/-! ## Places -/

/-- A statement is asked for at a place at which the task lowers others, with the books in order. -/
theorem Asks.inOrder (asks : task.Asks inner) (inOrder : InOrder task.stmt task.state) :
    Calls task.stmt task.state.method.setting inner.state.method.setting inner.stmt ∧
      InOrder inner.stmt inner.state := by
  obtain ⟨called, ready⟩ := inOrder.calls asks.enters
  exact ⟨called, inOrder.distinguished.calls called, ready⟩

section Body

variable {decl : ClassDecl} {body : Stmt} {start : Emission}

theorem LeadsTo.loweredAt
    (entered : Entered decl body start)
    (leads : (ofBody body start).LeadsTo task) :
    LoweredAt decl body task.stmt task.state := by
  refine ⟨start, entered, ?_⟩
  induction leads with
  | refl => exact .body
  | tail _ asks ih => exact .within ih asks.enters

end Body

end Task

/-! ## Room -/

namespace Task

variable {task inner : Task} {decl : ClassDecl} {body : Stmt} {start : Emission}

/-- The section to which a jump to a case of an open switch goes, where the task begins. -/
def caseLabel? (task : Task) (switch : StmtId) (key : CaseKey) : Option Label :=
  (task.state.method.switches.lookup switch).bind fun cases => cases.lookup key

end Task

/-- A jump to a case whose target and key are known leaves for its section, or fails if it has
none. -/
theorem Emit.lowerGotoCase_eq
    {label : Option Expr} {target : StmtId} {key : CaseKey}
    (targeted : stmt.target? = some target)
    (read : CaseKey.ofLabel? label = some key)
    (lower : Lowering) (state : Emission) :
    lowerGotoCase lower stmt label state =
      ((state.method.switches.lookup target).bind fun cases => cases.lookup key).elim
        (.error (.missingCaseLabel key stmt.span) state)
        fun start => exitTo lower target start state := by
  have known : gotoKey label = pure key := by
    cases label with
    | none =>
      cases read
      rfl
    | some expr =>
      have constant : expr.constant?.bind CaseKey.ofConst? = some key := read
      simp only [gotoKey, constant]
  have looked : Emit.caseLabel? target key state =
      .ok ((state.method.switches.lookup target).bind fun cases => cases.lookup key) state := rfl
  rw [lowerGotoCase, targetOf, targeted, known, pure_bind, pure_bind, bind_eq_goOn, looked]
  cases (state.method.switches.lookup target).bind fun cases => cases.lookup key <;> rfl

namespace Task

variable {task : Task} {after : Emission} {key : CaseKey} {span : Span}

/-- The statement is a jump to a case that its switch does not have, where it is lowered. -/
structure MissesCase (task : Task) (key : CaseKey) (span : Span) : Prop where
  room : 0 < task.room
  reachable : task.stmt.isReachable
  jump : ∃ tag label target, task.stmt = .gotoCase tag label ∧ tag.span = span ∧
    task.stmt.target? = some target ∧ CaseKey.ofLabel? label = some key ∧
      task.caseLabel? target key = none

/-- A jump to a case that its switch does not have fails. -/
theorem MissesCase.outcome_eq (misses : task.MissesCase key span) :
    task.outcome = .error (.missingCaseLabel key span) task.state := by
  obtain ⟨tag, label, target, jump, rfl, targeted, read, missing⟩ := misses.jump
  obtain ⟨room, enough⟩ := Nat.exists_eq_succ_of_ne_zero (Nat.ne_of_gt misses.room)
  rw [outcome_of_reachable misses.reachable enough]
  have lowered := lowerGotoCase_eq targeted read (lowerWithin room) task.state
  rw [caseLabel?] at missing
  rw [missing] at lowered
  rw [jump] at lowered ⊢
  exact lowered

end Task

end StackCode
