import StackCode.Proofs.Tasks

/-!
# Switches that are open

While the sections of a switch are lowered, the switch is open: the sections to which a
jump may go are known by the keys of its cases.  They are those of this very emission
of the switch, to which its code dispatches, and they stay known wherever a statement
inside the switch is lowered, in copies of finally bodies as well.
-/

namespace StackCode

open Emit

/-! ## Finally bodies around a statement -/

namespace Emit

/-- What is known of a switch once there is code that dispatches to its sections. -/
structure SwitchHead where
  /-- The labels of the statement. -/
  labels : StmtLabels
  /-- Where the sections begin. -/
  starts : List Label
  /-- The sections by their keys. -/
  cases : CaseMap

/-- What a switch does before its sections. -/
def switchHead
    (id : StmtId)
    (selector : Expr)
    (kind : SelectorKind)
    (sections : List Section) :
    Emit SwitchHead := do
  enterScope
  let labels ← labelsOf id
  let starts ← newLabels sections.length
  let cases ← caseMap sections starts
  lowerDispatch selector kind sections starts (defaultStart sections starts labels.stop)
  return { labels, starts, cases }

theorem lowerSwitch_eq
    (lower : Lowering) (id : StmtId) (selector : Expr) (kind : SelectorKind)
    (sections : List Section) :
    lowerSwitch lower id selector kind sections =
      (do
        let head ← switchHead id selector kind sections
        lowerPlaced lower id head.cases (sections.zip head.starts) head.labels.stop
        exitScope) := by
  simp only [lowerSwitch, inScope, switchHead, lowerPlaced, bind_assoc, pure_bind]

variable {id : StmtId} {selector : Expr} {kind : SelectorKind} {sections : List Section}
variable {head : SwitchHead} {before after : Emission}

/-- The books are in order where the sections of a switch begin. -/
theorem ready_switchHead
    {start : MethodContext} {ids : List StmtId}
    (ready : before.Ready start (id :: ids) [] [])
    (success : switchHead id selector kind sections before = .ok head after) :
    after.Ready start ids
      ([head.labels.start, head.labels.next, head.labels.stop] ++ head.starts) [] := by
  obtain ⟨_, opening, rest⟩ := seq_ok.mp success
  obtain rfl := enterScope_ok.mp opening
  obtain ⟨labels, labelled, looking, rest⟩ := bind_ok.mp rest
  obtain ⟨starts, placed, placing, rest⟩ := bind_ok.mp rest
  obtain ⟨cases, _, reading, rest⟩ := bind_ok.mp rest
  obtain ⟨rfl, -⟩ := caseMap_ok reading
  obtain ⟨dispatched, dispatching, rest⟩ := seq_ok.mp rest
  obtain ⟨rfl, rfl⟩ := pure_ok.mp rest
  have readyOpened := Tidy.ready_enterScope ready
  have readyLabelled := (Tidy.looksUp readyOpened.orderly looking).ready readyOpened
  have readyPlaced := ready_newLabels readyLabelled placing
  have plain : Tidy start start [] [] []
      (lowerDispatch selector kind sections starts (defaultStart sections starts labels.stop)) :=
    .plain (.lowerDispatch (fun _ _ => trivial) .all (fun _ _ => trivial) sections
      (fun _ _ => trivial) trivial)
  have begun := readyPlaced.mono List.nil_subperm List.nil_subperm List.nil_subperm
  exact Emission.Kept.ready readyPlaced (plain.kept begun dispatching)

/-- A step before the one that stops goes through. -/
theorem bind_stops
    {first : Emit α} {next : Error → α → Emit β}
    (stops : ∀ error, (first >>= next error) before = .error error after) :
    ∃ value between, first before = .ok value between ∧
      ∀ error, next error value between = .error error after := by
  cases outcome : first before with
  | ok value between =>
    refine ⟨value, between, rfl, fun error => ?_⟩
    have stopped := stops error
    rw [bind_eq_goOn, outcome] at stopped
    exact stopped
  | error found between =>
    have stopped := fun error => (bind_eq_goOn first (next error) before).symm.trans (stops error)
    simp only [outcome, goOn] at stopped
    have first := stopped .scopeUnderflow
    cases first
    cases stopped (.rethrowOutsideCatch {})

/-- Closing a scope fails only if none is open. -/
theorem error_of_exitScope {error : Error} (failure : exitScope before = .error error after) :
    error = .scopeUnderflow := by
  simp only [exitScope, bind_error] at failure
  obtain failure | ⟨_, closed, -, failure | ⟨method, _, -, failure⟩⟩ := failure
  · exact ((Code.exitScope_eq_error_iff _ _).mp (tryCode_error failure)).2
  · cases failure
  · cases suspended : method.suspension with
    | none =>
      simp only [suspended] at failure
      cases failure
    | some suspension =>
      simp only [suspended] at failure
      cases marks : suspension.scopeMarks with
      | nil =>
        simp only [marks] at failure
        cases failure
        rfl
      | cons mark outer =>
        simp only [marks] at failure
        cases failure

end Emit

namespace Task

variable {task inner : Task} {tag : StmtTag} {selector : Expr} {kind : SelectorKind}
variable {sections : List Section}

/-- A switch asks for the statements of its sections, and is open where it does. -/
theorem Asks.opens
    (isSwitch : task.stmt = .switch tag selector kind sections)
    (inOrder : InOrder task.stmt task.state)
    (asks : task.Asks inner) :
    ∃ head dispatched, switchHead tag.id selector kind sections task.state = .ok head dispatched ∧
      inner.state.method.setting = task.state.method.setting.inSwitch tag.id head.cases ∧
        inner.stmt ∈ sections.flatMap Section.body := by
  have stops := asks.enters
  have id : task.stmt.id = tag.id := by rw [isSwitch]; rfl
  have children : task.stmt.children = sections.flatMap Section.body := by rw [isSwitch]; rfl
  have lowers : ∀ lower, lowerReachable lower task.stmt =
      lowerSwitch lower tag.id selector kind sections := by
    intro lower
    rw [isSwitch]
    rfl
  simp only [Enters, lowers, lowerSwitch_eq] at stops
  obtain ⟨head, dispatched, headed, stops⟩ := bind_stops stops
  refine ⟨head, dispatched, headed, ?_⟩
  have ready := inOrder.ready
  rw [task.stmt.ids_eq, id, children] at ready
  have readyDispatched := ready_switchHead ready headed
  -- Otherwise stopping there would keep the books, and they could be the reason of a failure.
  by_contra elsewhere
  let setting := task.state.method.setting
  let Call (method : MethodContext) (part : Stmt) : Prop :=
    method = setting.inSwitch tag.id head.cases ∧ part ∈ sections.flatMap Section.body
  have calls : CallsTidily
      (stopAt (lowerWithin inner.room) inner.stmt inner.state
        (.labelMarkedTwice ⟨0⟩ 0 0)) Call := by
    rintro method other ⟨rfl, member⟩
    have part : (other, []) ∈ task.stmt.parts := by
      rw [isSwitch]
      exact List.mem_map_of_mem member
    have inside : setting.Inside task.stmt.id [] (setting.inSwitch tag.id head.cases) :=
      id ▸ setting.inside_inSwitch tag.id head.cases
    have distinguished := inOrder.distinguished.calls (.part part inside)
    have within := Tidy.lowerWithin inner.room distinguished
    refine ⟨distinguished.distinct, ?_, ?_⟩
    · intro before _ after ready success
      unfold stopAt at success
      split_ifs at success
      exact within.kept ready success
    · intro before error after ready failure
      unfold stopAt at failure
      split_ifs at failure with stopped
      · obtain ⟨rfl, rfl⟩ := stopped
        exact absurd ⟨ready.setting, member⟩ elsewhere
      · exact within.proper ready failure
  have tidy := (Woven.lowerPlaced tag.id head.cases head.labels head.starts
    fun stmt member => (⟨rfl, member⟩ : Call _ stmt)).tidy calls
  obtain failed | ⟨_, _, -, failed⟩ := bind_error.mp (stops (.labelMarkedTwice ⟨0⟩ 0 0))
  · have proper := tidy.proper readyDispatched failed
    contradiction
  · cases error_of_exitScope failed

/-! ## On the way inside a switch -/

/-- A switch is open where a task begins, and is not lowered again on the way from there. -/
structure Knows (task : Task) (switch : StmtId) (cases : CaseMap) : Prop where
  found : task.state.method.switches.lookup switch = some cases
  elsewhere : HoldsAround (fun stmt => switch ∉ stmt.ids) task.state.method.setting task.stmt

/-- The cases of a switch stay known inside it. -/
theorem Asks.knows
    {switch : StmtId} {cases : CaseMap}
    (inOrder : InOrder task.stmt task.state)
    (asks : task.Asks inner)
    (known : task.Knows switch cases) :
    inner.Knows switch cases := by
  obtain ⟨called, -⟩ := asks.inOrder inOrder
  refine ⟨?_, known.elsewhere.calls (fun member absent found => absent ?_) called⟩
  · obtain ⟨own, switches, owned⟩ := called.switches
    have added : inner.state.method.switches = own ++ task.state.method.switches := switches
    -- The task may have opened a switch, but then it is this one.
    have absent : switch ∉ own.map Prod.fst := by
      intro member
      obtain ⟨entry, listed, rfl⟩ := List.mem_map.mp member
      exact known.elsewhere.own (owned entry listed ▸ task.stmt.id_mem_ids)
    rw [added, List.lookup_append, lookup_eq_none absent]
    exact known.found
  · exact (Stmt.sublist_ids_of_mem_children member).subset found

end Task
end StackCode
