import Mathlib.Data.List.Basic
import StackCode.Proofs.Execution

/-!
# Calls of a method that keeps its state in a field

A machine that runs the body of a method of an iterator and sees only what the
state of the iteration depends on: integers, the receiver, and the state field
of the receiver.  Whatever else an instruction does is left open, so every run of
the body is a run of this machine.  Methods that the body calls leave the state
field alone: calls of one iterator do not overlap.
-/

namespace StackCode

/-- The field is the state field of a class. -/
def IsStateField (className : String) (field : FieldRef) : Prop :=
  field.owner = className ∧ field.name = stateFieldName ∧ field.isStatic = false

instance (className : String) (field : FieldRef) : Decidable (IsStateField className field) :=
  inferInstanceAs (Decidable (_ ∧ _ ∧ _))

/-- The body has the given instructions from a position on. -/
def MethodBody.Holds (body : MethodBody) (position : Nat) (segment : List Instruction) : Prop :=
  segment <+: body.instructions.toList.drop position

theorem MethodBody.Holds.getElem?
    {body : MethodBody} {position : Nat} {segment : List Instruction}
    (held : body.Holds position segment)
    (index : Nat)
    (inside : index < segment.length) :
    body.instructions[position + index]? = some (segment.get ⟨index, inside⟩) := by
  obtain ⟨rest, split⟩ := held
  rw [← Array.getElem?_toList, ← List.getElem?_drop, ← split,
    List.getElem?_append_left inside]
  exact List.getElem?_eq_getElem inside

/-- What follows the first instructions of a segment stands right after them. -/
theorem MethodBody.Holds.after
    {body : MethodBody} {position : Nat} {first second : List Instruction}
    (held : body.Holds position (first ++ second)) :
    body.Holds (position + first.length) second := by
  obtain ⟨rest, split⟩ := held
  refine ⟨rest, ?_⟩
  rw [← List.drop_drop, ← split, List.append_assoc, List.drop_left]

/-- Control may go on with the instruction after this one. -/
def Instruction.fallsThrough : Instruction → Bool
  | plain op => !op.isTerminal
  | jump op _ => op != .goto
  | tableSwitch _ _ _ _ => false
  | lookupSwitch _ _ => false
  | _ => true

/-- What is known of a value. -/
abbrev Word := Datum Unit

/-- What a call reads and writes besides its operands. -/
structure Memory where
  /-- The contents of the slots. -/
  slots : Nat → Word
  /-- The content of the state field of the receiver. -/
  state : Int32

/-- A call under way. -/
abbrev Activation := Machine Unit Memory

namespace Activation

/-- The start of a call: the receiver is in the first slot. -/
def enter (slots : Nat → Word) (state : Int32) : Activation :=
  { position := 0
    stack := []
    store := { slots := fun slot => if slot = 0 then .self else slots slot, state } }

/-- Slots are known, and so is the state field of the receiver. -/
def world (className : String) : World Unit Memory where
  load? slot memory := some (memory.slots slot)
  read? field object memory :=
    if IsStateField className field ∧ object = some .self then some (.int memory.state) else none
  write? field object value memory :=
    match value with
    | .int state =>
      if IsStateField className field ∧ object = some .self then some { memory with state }
      else none
    | _ => none

variable (body : MethodBody) (className : String)

/-- The instructions that are looked at where they occur. -/
def Tracks (activation : Activation) (instruction : Instruction) : Prop :=
  match instruction with
  | .load _ _ => True
  | .push (.int _) => True
  | .plain op => op = .iconst0 ∨ op = .iconst1
  | .getField field => IsStateField className field ∧ activation.stack.head? = some .self
  | .putField field => IsStateField className field ∧ activation.stack.tail.head? = some .self
  | .tableSwitch _ _ _ _ => ∃ key label, activation.stack.head? = some (.int key) ∧
      instruction.destination? key = some label
  | _ => False

/-- What an instruction does if it completes. -/
inductive Moves (before after : Activation) (instruction : Instruction) : Prop where
  /-- It is looked at. -/
  | tracked
      (tracks : Tracks className before instruction)
      (performed : (world className).perform? body before instruction = some after)
  /-- It is not, and leaves whatever operands and slots. -/
  | untracked
      (ignored : ¬Tracks className before instruction)
      (state : after.store.state = before.store.state)
      (goes : after.position = before.position + 1 ∧ instruction.fallsThrough ∨
        ∃ label ∈ instruction.targets, after.position = body.position label)

/-- The instruction may fail with an exception; an access to the receiver does not. -/
def MayRaise (activation : Activation) : Instruction → Prop
  | .load _ _ => False
  | .store _ _ => False
  | .push _ => False
  | .increment _ _ => False
  | .jump _ _ => False
  | .tableSwitch _ _ _ _ => False
  | .lookupSwitch _ _ => False
  | .plain op => op ≠ .iconst0 ∧ op ≠ .iconst1 ∧ op.isReturn = false
  | .getField field => field.isStatic = true ∨ activation.stack.head? ≠ some .self
  | .putField field => field.isStatic = true ∨ activation.stack.tail.head? ≠ some .self
  | _ => True

/-- One step of a call. -/
inductive Step : Activation → Activation → Prop where
  /-- An instruction completes. -/
  | completes {before after : Activation} {instruction : Instruction}
      (here : body.instructions[before.position]? = some instruction)
      (moves : Moves body className before after instruction) :
      Step before after
  /-- An instruction fails, and a handler takes over. -/
  | fails {before after : Activation} {instruction : Instruction} {entry : ExceptionEntry}
      (here : body.instructions[before.position]? = some instruction)
      (raises : MayRaise before instruction)
      (member : entry ∈ body.exceptions)
      (covered : entry.start ≤ before.position ∧ before.position < entry.stop)
      (handled : after.position = entry.handler)
      (state : after.store.state = before.store.state) :
      Step before after

/-- A number of steps. -/
inductive Run : Nat → Activation → Activation → Prop where
  | refl (activation : Activation) : Run 0 activation activation
  | step {count : Nat} {first between last : Activation}
      (run : Run count first between)
      (step : Step body className between last) :
      Run (count + 1) first last

/-- How a call ends. -/
inductive Outcome where
  /-- With a value, if the method has one. -/
  | returned (value : Option Word)
  /-- With an exception. -/
  | raised
  deriving DecidableEq, Repr, Inhabited

/-- The call ends at the next instruction. -/
def Ends (activation : Activation) : Outcome → Prop
  | .returned value => ∃ op, body.instructions[activation.position]? = some (.plain op) ∧
      op.isReturn = true ∧ value = activation.stack.head?
  | .raised => ∃ instruction, body.instructions[activation.position]? = some instruction ∧
      MayRaise activation instruction

/-- A call, with what the state field holds before and after it. -/
def Call (before : Int32) (outcome : Outcome) (after : Int32) : Prop :=
  ∃ slots count last, Run body className count (enter slots before) last ∧
    Ends body last outcome ∧ last.store.state = after

/-- Calls one after the other. -/
inductive Calls : Int32 → List Outcome → Int32 → Prop where
  | none (state : Int32) : Calls state [] state
  | call {before between after : Int32} {outcome : Outcome} {outcomes : List Outcome}
      (first : Call body className before outcome between)
      (rest : Calls between outcomes after) :
      Calls before (outcome :: outcomes) after

/-! ## Where a step leads -/

section Invariants

variable {body className}
variable {before after : Activation} {instruction : Instruction}
variable {count : Nat} {stack : List Word}

/-- An instruction that is looked at does what it is known to do. -/
theorem moves_iff
    {next : Activation}
    (tracks : Tracks className before instruction)
    (performed : (world className).perform? body before instruction = some next) :
    Moves body className before after instruction ↔ after = next := by
  constructor
  · rintro (⟨-, known⟩ | ⟨ignored, -⟩)
    · exact Option.some.inj (known.symm.trans performed)
    · exact (ignored tracks).elim
  · rintro rfl
    exact .tracked tracks performed

/-- A step that completes goes on with the next instruction or with a target. -/
theorem Moves.position (moves : Moves body className before after instruction) :
    after.position = before.position + 1 ∨
      ∃ label ∈ instruction.targets, after.position = body.position label := by
  obtain ⟨-, performed⟩ | ⟨-, -, goes⟩ := moves
  · exact World.perform?_position performed
  · exact goes.imp And.left id

/-- A step changes the state only where it is stored. -/
theorem Moves.state (moves : Moves body className before after instruction) :
    after.store.state = before.store.state ∨
      ∃ field, instruction = .putField field ∧ IsStateField className field ∧
        before.stack.head? = some (.int after.store.state) := by
  obtain ⟨tracks, performed⟩ | ⟨-, same, -⟩ := moves
  · cases instruction with
    | putField field =>
      right
      refine ⟨field, rfl, tracks.1, ?_⟩
      simp only [World.perform?, Option.bind_eq_some_iff, Option.map_eq_some_iff] at performed
      obtain ⟨value, top, holder, -, memory, written, rfl⟩ := performed
      cases value with
      | int value =>
        obtain ⟨-, stored⟩ := Option.ite_none_right_eq_some.mp written
        cases stored
        exact top
      | _ => cases written
    | push value =>
      cases value with
      | int value => cases performed; exact .inl rfl
      | _ => exact tracks.elim
    | load => cases performed; exact .inl rfl
    | plain op => obtain rfl | rfl := tracks <;> cases performed <;> exact .inl rfl
    | getField field =>
      simp only [World.perform?, Option.bind_eq_some_iff, Option.map_eq_some_iff] at performed
      obtain ⟨holder, -, value, -, rfl⟩ := performed
      exact .inl rfl
    | tableSwitch low high default targets =>
      obtain ⟨label, -, rfl⟩ := World.switch?_eq_goto performed
      exact .inl rfl
    | _ => exact tracks.elim
  · exact .inl same

/-- Control gets to a position from the instruction before it only. -/
structure Fenced (body : MethodBody) (position : Nat) : Prop where
  targets : ∀ instruction ∈ body.instructions, ∀ label ∈ instruction.targets,
    body.position label ≠ position
  handlers : ∀ entry ∈ body.exceptions, entry.handler ≠ position

/-- The state is only ever set to allowed constants. -/
def SetsOnly (body : MethodBody) (className : String) (Allowed : Int32 → Prop) : Prop :=
  ∀ position field, body.instructions[position]? = some (.putField field) →
    IsStateField className field →
      ∃ before value, position = before + 1 ∧ Allowed value ∧
        body.instructions[before]? = some (.push (.int value)) ∧ Fenced body position

/-- The state is allowed, and where it is about to be set, so is the constant on the stack. -/
structure Keeps (body : MethodBody) (className : String) (Allowed : Int32 → Prop)
    (activation : Activation) : Prop where
  state : Allowed activation.store.state
  top : ∀ field, body.instructions[activation.position]? = some (.putField field) →
    IsStateField className field →
      ∃ value, Allowed value ∧ activation.stack.head? = some (.int value)

variable {Allowed : Int32 → Prop}

/-- The state stays allowed if only allowed values are set. -/
theorem Keeps.step
    (sets : SetsOnly body className Allowed)
    (keeps : Keeps body className Allowed before)
    (step : Step body className before after) :
    Keeps body className Allowed after := by
  cases step with
  | @completes instruction here moves =>
    refine ⟨?_, ?_⟩
    · obtain same | ⟨field, rfl, isState, top⟩ := moves.state
      · exact same ▸ keeps.state
      · obtain ⟨value, allowed, known⟩ := keeps.top field here isState
        rw [top] at known
        cases known
        exact allowed
    · intro field next isState
      obtain ⟨previous, value, position, allowed, pushed, fenced⟩ := sets _ field next isState
      obtain passed | ⟨label, target, taken⟩ := moves.position
      · obtain rfl : previous = before.position := by omega
        rw [here] at pushed
        cases pushed
        obtain rfl := (moves_iff (by trivial) rfl).mp moves
        exact ⟨value, allowed, rfl⟩
      · exact (fenced.targets instruction (Array.mem_of_getElem? here) label target taken.symm).elim
  | fails here raises member covered handled state =>
    refine ⟨state ▸ keeps.state, ?_⟩
    intro field next isState
    obtain ⟨-, -, -, -, -, fenced⟩ := sets _ field next isState
    exact (fenced.handlers _ member handled.symm).elim

theorem Keeps.run
    (sets : SetsOnly body className Allowed)
    (keeps : Keeps body className Allowed before)
    (run : Run body className count before after) :
    Keeps body className Allowed after := by
  induction run with
  | refl => exact keeps
  | step _ step ih => exact (ih keeps).step sets step

theorem Keeps.enter
    (sets : SetsOnly body className Allowed)
    (slots : Nat → Word) {state : Int32}
    (allowed : Allowed state) :
    Keeps body className Allowed (enter slots state) := by
  refine ⟨allowed, ?_⟩
  intro field next isState
  obtain ⟨_, _, position, -⟩ := sets _ field next isState
  cases position

/-- However often the method is called, the state is always an allowed one. -/
theorem Calls.allowed
    (sets : SetsOnly body className Allowed)
    {start stop : Int32} {outcomes : List Outcome}
    (calls : Calls body className start outcomes stop)
    (allowed : Allowed start) :
    Allowed stop := by
  induction calls with
  | none => exact allowed
  | call first _ ih =>
    obtain ⟨slots, count, last, run, -, rfl⟩ := first
    exact ih ((Keeps.enter sets slots allowed).run sets run).state

/-! ## Steps without a choice -/

/-- The next step is known, and the call does not end before it. -/
structure Leads (body : MethodBody) (className : String) (before after : Activation) : Prop where
  step : ∀ next, Step body className before next ↔ next = after
  goes : ∀ outcome, ¬Ends body before outcome

/-- An instruction that is looked at and cannot raise leads on. -/
theorem leads_of_tracks
    (here : body.instructions[before.position]? = some instruction)
    (tracks : Tracks className before instruction)
    (performed : (world className).perform? body before instruction = some after)
    (safe : ¬MayRaise before instruction)
    (stays : ∀ op, instruction = .plain op → op.isReturn = false) :
    Leads body className before after := by
  refine ⟨fun next => ⟨?_, ?_⟩, ?_⟩
  · rintro (⟨found, moved⟩ | ⟨found, raises, -⟩)
    · rw [here] at found
      cases found
      exact (moves_iff tracks performed).mp moved
    · rw [here] at found
      cases found
      exact (safe raises).elim
  · intro same
    exact .completes here ((moves_iff tracks performed).mpr same)
  · rintro (_ | _) ends
    · obtain ⟨op, found, isReturn, -⟩ := ends
      rw [here] at found
      cases found
      rw [stays op rfl] at isReturn
      contradiction
    · obtain ⟨_, found, raises⟩ := ends
      rw [here] at found
      cases found
      exact safe raises

/-- The call ends after a number of steps, and there is no other way for it to go on. -/
structure Inevitable (body : MethodBody) (className : String) (first : Activation) (steps : Nat)
    (last : Activation) : Prop where
  run : Run body className steps first last
  bounded : ∀ {count between}, Run body className count first between → count ≤ steps
  ends : ∀ {count between outcome}, Run body className count first between →
    Ends body between outcome → between = last

theorem Run.head (run : Run body className (count + 1) before after) :
    ∃ next, Step body className before next ∧ Run body className count next after := by
  induction count generalizing after with
  | zero =>
    cases run with
    | step run step =>
      cases run
      exact ⟨after, step, .refl after⟩
  | succ count ih =>
    cases run with
    | step run step =>
      obtain ⟨next, first, rest⟩ := ih run
      exact ⟨next, first, .step rest step⟩

theorem Run.cons
    {next : Activation}
    (step : Step body className before next)
    (run : Run body className count next after) :
    Run body className (count + 1) before after := by
  induction run with
  | refl => exact .step (.refl before) step
  | step _ last ih => exact .step (ih step) last

/-- What one step leads to, and what follows from there, is inevitable. -/
theorem Inevitable.cons
    {next last : Activation} {steps : Nat}
    (leads : Leads body className before next)
    (rest : Inevitable body className next steps last) :
    Inevitable body className before (steps + 1) last where
  run := .cons ((leads.step next).mpr rfl) rest.run
  bounded := by
    intro count between run
    obtain _ | count := count
    · omega
    · obtain ⟨_, step, run⟩ := run.head
      obtain rfl := (leads.step _).mp step
      exact Nat.succ_le_succ (rest.bounded run)
  ends := by
    intro count between outcome run ends
    obtain _ | count := count
    · cases run
      exact (leads.goes outcome ends).elim
    · obtain ⟨_, step, run⟩ := run.head
      obtain rfl := (leads.step _).mp step
      exact rest.ends run ends

/-- Nothing follows a return. -/
theorem inevitable_of_return
    {op : Opcode}
    (here : body.instructions[before.position]? = some (.plain op))
    (isReturn : op.isReturn = true) :
    Inevitable body className before 0 before := by
  have stops : ∀ next, ¬Step body className before next := by
    rintro next (⟨found, moves⟩ | ⟨found, raises, -⟩)
    · rw [here] at found
      cases found
      obtain ⟨tracks, -⟩ | ⟨-, -, ⟨-, falls⟩ | ⟨_, member, -⟩⟩ := moves
      · obtain rfl | rfl := tracks <;> cases isReturn
      · cases op <;> simp_all [Opcode.isReturn, Instruction.fallsThrough, Opcode.isTerminal]
      · cases member
    · rw [here] at found
      cases found
      obtain ⟨-, -, goes⟩ := raises
      rw [isReturn] at goes
      contradiction
  have atOnce : ∀ {count between}, Run body className count before between → count = 0 := by
    intro count between run
    obtain _ | count := count
    · rfl
    · obtain ⟨next, step, -⟩ := run.head
      exact (stops next step).elim
  refine ⟨.refl before, fun run => Nat.le_of_eq (atOnce run), ?_⟩
  intro count between outcome run _
  obtain rfl := atOnce run
  cases run
  rfl

/-- A return ends the call with the value on the stack. -/
theorem ends_iff_of_return
    {op : Opcode}
    (here : body.instructions[before.position]? = some (.plain op))
    (isReturn : op.isReturn = true)
    {outcome : Outcome} :
    Ends body before outcome ↔ outcome = .returned before.stack.head? := by
  constructor
  · intro ends
    cases outcome with
    | returned value =>
      obtain ⟨-, -, -, rfl⟩ := ends
      rfl
    | raised =>
      obtain ⟨_, found, raises⟩ := ends
      rw [here] at found
      cases found
      obtain ⟨-, -, goes⟩ := raises
      rw [isReturn] at goes
      contradiction
  · rintro rfl
    exact ⟨op, here, isReturn, rfl⟩

theorem leads_load
    {kind : ValueKind} {slot : Nat}
    (here : body.instructions[before.position]? = some (.load kind slot)) :
    Leads body className before
      (before.next (before.store.slots slot :: before.stack) before.store) :=
  leads_of_tracks here trivial rfl id (by simp)

theorem leads_push
    {value : Int32}
    (here : body.instructions[before.position]? = some (.push (.int value))) :
    Leads body className before (before.next (.int value :: before.stack) before.store) :=
  leads_of_tracks here trivial rfl id (by simp)

theorem leads_iconst0
    (here : body.instructions[before.position]? = some (.plain .iconst0)) :
    Leads body className before (before.next (.int 0 :: before.stack) before.store) := by
  refine leads_of_tracks here (.inl rfl) rfl (fun raises => raises.1 rfl) ?_
  rintro _ ⟨⟩
  rfl

theorem leads_getField
    {field : FieldRef}
    (here : body.instructions[before.position]? = some (.getField field))
    (isState : IsStateField className field)
    (receiver : before.stack = .self :: stack) :
    Leads body className before
      (before.next (.int before.store.state :: stack) before.store) := by
  refine leads_of_tracks here ⟨isState, by rw [receiver]; rfl⟩ ?_ ?_ (by simp)
  · simp [World.perform?, FieldRef.holder?, isState.2.2, receiver, world, isState]
  · simp [MayRaise, isState.2.2, receiver]

theorem leads_putField
    {field : FieldRef} {value : Int32}
    (here : body.instructions[before.position]? = some (.putField field))
    (isState : IsStateField className field)
    (operands : before.stack = .int value :: .self :: stack) :
    Leads body className before (before.next stack { before.store with state := value }) := by
  refine leads_of_tracks here ⟨isState, by rw [operands]; rfl⟩ ?_ ?_ (by simp)
  · simp [World.perform?, FieldRef.holder?, isState.2.2, operands, world, isState]
  · simp [MayRaise, isState.2.2, operands]

theorem leads_tableSwitch
    {low high key : Int32} {default label : Label} {targets : List Label}
    (here : body.instructions[before.position]? = some (.tableSwitch low high default targets))
    (operands : before.stack = .int key :: stack)
    (sent : (Instruction.tableSwitch low high default targets).destination? key = some label) :
    Leads body className before (before.goto (body.position label) stack) := by
  refine leads_of_tracks here ⟨key, label, by rw [operands]; rfl, sent⟩ ?_ id (by simp)
  simp [World.perform?, Machine.switch?, operands, sent]

end Invariants

/-! ## Calls of a finished iteration -/

section Finished

variable {body className}
variable {field : FieldRef} {state : Int32}

/-- The state is looked up first, and for this state it is set once more before false is
returned. -/
def Closes (body : MethodBody) (field : FieldRef) (state : Int32) : Prop :=
  ∃ low high default targets label,
    body.Holds 0
      [.load .reference 0, .getField field, .tableSwitch low high default targets] ∧
    (Instruction.tableSwitch low high default targets).destination? state = some label ∧
    body.Holds (body.position label)
      [.load .reference 0, .push (.int state), .putField field, .plain .iconst0, .plain .ireturn]

/-- There is one way for the call of a finished iteration to go on, and it returns false. -/
theorem Closes.inevitable
    (closes : Closes body field state)
    (isState : IsStateField className field)
    (slots : Nat → Word) :
    ∃ last, Inevitable body className (enter slots state) 7 last ∧
      (∀ outcome, Ends body last outcome ↔ outcome = .returned (some (.int 0))) ∧
      last.store.state = state := by
  obtain ⟨low, high, default, targets, label, dispatch, sent, ending⟩ := closes
  have returns := ending.getElem? 4 (by simp)
  refine ⟨_, .cons (leads_load (dispatch.getElem? 0 (by simp)))
    (.cons (leads_getField (dispatch.getElem? 1 (by simp)) isState rfl)
    (.cons (leads_tableSwitch (dispatch.getElem? 2 (by simp)) rfl sent)
    (.cons (leads_load (ending.getElem? 0 (by simp)))
    (.cons (leads_push (ending.getElem? 1 (by simp)))
    (.cons (leads_putField (ending.getElem? 2 (by simp)) isState rfl)
    (.cons (leads_iconst0 (ending.getElem? 3 (by simp)))
    (inevitable_of_return returns rfl))))))), ?_, rfl⟩
  exact fun _ => ends_iff_of_return returns rfl

/-- A call of a finished iteration returns false and leaves it finished. -/
theorem Closes.call_iff
    (closes : Closes body field state)
    (isState : IsStateField className field)
    {outcome : Outcome} {after : Int32} :
    Call body className state outcome after ↔
      outcome = .returned (some (.int 0)) ∧ after = state := by
  constructor
  · rintro ⟨slots, count, last, run, ends, rfl⟩
    obtain ⟨final, inevitable, outcomes, kept⟩ := closes.inevitable isState slots
    obtain rfl := inevitable.ends run ends
    exact ⟨(outcomes outcome).mp ends, kept⟩
  · rintro ⟨rfl, rfl⟩
    obtain ⟨final, inevitable, outcomes, kept⟩ := closes.inevitable isState fun _ => .null
    exact ⟨_, 7, final, inevitable.run, (outcomes _).mpr rfl, kept⟩

/-- No run of a finished iteration is longer than what it takes to return. -/
theorem Closes.bounded
    (closes : Closes body field state)
    (isState : IsStateField className field)
    {slots : Nat → Word} {count : Nat} {last : Activation}
    (run : Run body className count (enter slots state) last) :
    count ≤ 7 := by
  obtain ⟨_, inevitable, -⟩ := closes.inevitable isState slots
  exact inevitable.bounded run

end Finished

end Activation
end StackCode
