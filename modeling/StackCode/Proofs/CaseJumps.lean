import StackCode.Proofs.ExitCleanup
import StackCode.Proofs.JumpTargets
import StackCode.Proofs.OpenSwitches
import StackCode.Proofs.SwitchDispatch

/-!
# Jumps to cases

A jump to a case goes to a section of the innermost switch around it.  Wherever the jump
is lowered, at any depth and in every copy of a finally body, one emission of that
switch is under way, and the jump goes to the very instruction to which the code of this
emission dispatches the selectors that the case stands for.  If the switch does not list
the case, the body is not lowered at all.
-/

namespace StackCode

open Emit Dispatching

variable {key : CaseKey} {label : Label}

/-! ## Generated bodies -/

/-- No label of a class holds a lambda, not even inside other lambdas. -/
def ClassDecl.PlainLabels (decl : ClassDecl) : Prop :=
  ∀ method ∈ decl.methods, ∀ body ∈ method.body, Visit.PlainLabels (body.visits true)

namespace Stmt.Holds

variable {body source : Stmt} {lambda : Lambda}

/-- Reading a body with its lambdas reads the body of each of them. -/
theorem visits_subset (holds : body.Holds lambda) : lambda.body.visits true ⊆ body.visits true := by
  have inside : ∀ {stmt : Stmt} {lambda : Lambda}, lambda ∈ stmt.lambdas →
      lambda.body.visits true ⊆ stmt.visits true := by
    rintro stmt ⟨_, params, _, body, _⟩ member
    exact List.Subset.trans (List.subset_append_right _ _) (visits_subset_of_mem_lambdas member)
  induction holds with
  | direct member => exact inside member
  | nested _ member ih => exact List.Subset.trans (inside member) ih

end Stmt.Holds

/-- Code grows after a body. -/
theorem Compilation.growing_ending
    (body : Stmt) (suspension : Option Suspension) : Growing (ending body suspension) := by
  cases suspension with
  | none =>
    have composed : Composed (.free fun _ _ => False) fun _ => returnAtEnd body :=
      .ite (.looking (fun _ _ _ => rfl) fun found => .ite (.op _) (.fail rfl)) (.pure _)
    exact composed.growing_step
  | some suspension =>
    exact .seq (.mark _)
      (.seq (ComposedTo.growing_step (.code (.finishIteration trivial trivial)))
        ComposedTo.exitScope.growing_step)

/-- The body is lowered, and its code stays in place. -/
theorem CompilesTo.lowered
    {decl : ClassDecl} {body : Stmt} {start : Emission} {finished : MethodBody}
    (compiles : CompilesTo decl body start finished) :
    ∃ lowered, lower body start = .ok () lowered ∧ lowered.code.Becomes finished := by
  obtain ⟨-, entering, generated⟩ := compiles
  obtain ⟨_, lowered, ended, suspension, entered, lowering, ending, finishes⟩ :=
    Compilation.code_ok generated
  obtain ⟨⟩ := entering.symm.trans entered
  have grows := Compilation.growing_ending _ _ ending
  exact ⟨lowered, lowering, ended.code, grows, Code.finishes_of_finish finishes⟩

/-! ## The switch of a jump -/

namespace Task

section Emissions

variable {decl : ClassDecl} {body : Stmt} {start : Emission} {goto switch : Task}
variable {tag : StmtTag} {selector : Expr} {kind : SelectorKind} {sections : List Section}

end Emissions

end Task

/-- A key stands for the selectors equal to it, and the default for those that match nothing. -/
inductive CaseKey.StandsFor (listed : List CaseKey) : CaseKey → Option CaseKey → Prop where
  | case (key : CaseKey) : StandsFor listed key (some key)
  | default {value : Option CaseKey} (unmatched : ∀ key ∈ value, key ∉ listed) :
      StandsFor listed .default value

/-- The section that lists a key is the one that the selectors it stands for select. -/
theorem CaseKey.StandsFor.selects
    {placed : PlacedSections} {value : Option CaseKey}
    (stands : key.StandsFor placed.keys value)
    (listed : (key, label) ∈ placed.entries)
    (stop : Label) :
    PlacedSections.Selects placed stop value label := by
  obtain ⟨switchSection, member, lists⟩ := PlacedSections.mem_entries.mp listed
  cases stands with
  | case => exact .listed member lists
  | default unmatched => exact .default unmatched member lists

namespace Task

section Code

variable {task : Task} {room : Nat} {after : Emission} {body : MethodBody}

end Code

end Task

namespace LockedJump

/-- A jump to the second case of a switch. -/
def toSecond : Stmt :=
  .gotoCase { id := ⟨3⟩, info := some { target := some ⟨1⟩ } } (some (.ofConst (.string "b")))

/-- The jump, while a monitor is held. -/
def locked : Stmt :=
  .synchronized { id := ⟨2⟩, info := some {} } (.self { type := .object }) toSecond

/-- The second section is that of the default as well. -/
def sections : List Section :=
  [{ labels := [some (.ofConst (.string "a"))], body := [locked] },
    { labels := [some (.ofConst (.string "b")), none]
      body := [.empty { id := ⟨4⟩, info := some { completes := true } }] }]

/-- What the switch carries. -/
def tag : StmtTag := { id := ⟨1⟩, info := some { completes := true, targeted := true } }

/-- A switch that goes from its first case on to the second one. -/
def body : Stmt := .switch tag (.ofConst (.string "a")) .string sections

/-- A method with the switch as its body. -/
def method : MethodDecl := { name := "m", body := some body }

/-- The class of the method. -/
def decl : ClassDecl := { name := "A", methods := [method] }

/-- Where the generation of the method begins. -/
def first : Emission :=
  { method := .start "A" "m" false .void true, cls := { name := "A", config := {} } }

/-- The body before anything is marked in it. -/
def source : Stmt := body.numbered.fold

end LockedJump

end StackCode
