import Mathlib.Logic.Relation
import StackCode.Proofs.Steps

/-!
# What instructions do

The meaning of the instructions of which generated code is made, as far as runs of such code are
looked at.  It is stated once for all that looks at runs: what differs from one purpose to
another is the `World` around the operands, which says what is known of slots, of fields, of
objects and of calls.  A machine stops at an instruction of which nothing is known.
-/

namespace StackCode

/-- A value; `α` has those values that only some worlds know. -/
inductive Datum (α : Type) where
  /-- No object. -/
  | null
  /-- An integer. -/
  | int (value : Int32)
  /-- A string. -/
  | text (value : String)
  /-- The receiver of the call. -/
  | self
  /-- Any other value. -/
  | other (value : α)
  deriving DecidableEq, Repr, Inhabited

namespace Datum

/-- A truth value is an integer. -/
def ofBool (answer : Bool) : Datum α := .int (if answer then 1 else 0)

/-- A string or no object. -/
def ofText : Option String → Datum α
  | none => .null
  | some value => .text value

/-- The value is no object. -/
def isNull : Datum α → Bool
  | null => true
  | _ => false

end Datum

/-- What an operation makes of the operands, of which the topmost one comes first. -/
def Opcode.operate? : Opcode → List (Datum α) → Option (List (Datum α))
  | iconst0, stack => some (.int 0 :: stack)
  | iconst1, stack => some (.int 1 :: stack)
  | dup, top :: stack => some (top :: top :: stack)
  | pop, _ :: stack => some stack
  | ior, .int second :: .int first :: stack => some (.int (first ||| second) :: stack)
  | _, _ => none

/-- What a branch on an integer tests. -/
def Opcode.tests? : Opcode → Int32 → Option Bool
  | ifeq, value => some (value = 0)
  | ifne, value => some (value ≠ 0)
  | iflt, value => some (value < 0)
  | ifge, value => some (0 ≤ value)
  | ifgt, value => some (0 < value)
  | ifle, value => some (value ≤ 0)
  | _, _ => none

/-- Whether a branch is taken, with the operands that it leaves. -/
def Opcode.branch? : Opcode → List (Datum α) → Option (Bool × List (Datum α))
  | goto, stack => some (true, stack)
  | ifnull, top :: stack => some (top.isNull, stack)
  | ifnonnull, top :: stack => some (!top.isNull, stack)
  | op, .int value :: stack => (op.tests? value).map fun taken => (taken, stack)
  | _, _ => none

/-- The label to which a switch instruction sends an integer. -/
def Instruction.destination? : Instruction → Int32 → Option Label
  | tableSwitch low high default targets, value =>
    if low ≤ value ∧ value ≤ high then targets[(value.toInt - low.toInt).toNat]?
    else some default
  | lookupSwitch default pairs, value => some ((pairs.lookup value).getD default)
  | _, _ => none

/-- The object whose field is accessed, if the field is not static, and the operands below it. -/
def FieldRef.holder? (field : FieldRef) (stack : List (Datum α)) :
    Option (Option (Datum α) × List (Datum α)) :=
  if field.isStatic then some (none, stack)
  else stack.head?.map fun object => (some object, stack.tail)

/-- What is known of everything beside the operands. -/
structure World (α σ : Type) where
  /-- The content of a slot. -/
  load? : Nat → σ → Option (Datum α)
  /-- Set a slot. -/
  store? : Nat → Datum α → σ → Option σ := fun _ _ _ => none
  /-- The content of a field, of an object unless the field is static. -/
  read? : FieldRef → Option (Datum α) → σ → Option (Datum α)
  /-- Set a field, of an object unless the field is static. -/
  write? : FieldRef → Option (Datum α) → Datum α → σ → Option σ
  /-- Make an object of a class. -/
  make? : String → σ → Option (Datum α × σ) := fun _ _ => none
  /-- The value belongs to a class. -/
  belongs : String → Datum α → Bool := fun _ _ => false
  /-- What a call leaves of the operands and of everything else. -/
  call? : MethodRef → List (Datum α) → σ → Option (List (Datum α) × σ) := fun _ _ _ => none

/-- A state of a machine that runs a body. -/
structure Machine (α σ : Type) where
  /-- The position of the next instruction. -/
  position : Nat
  /-- The operands, the topmost one first. -/
  stack : List (Datum α)
  /-- Everything else. -/
  store : σ

namespace Machine

/-- The beginning of a body. -/
def start (store : σ) : Machine α σ := { position := 0, stack := [], store }

variable (machine : Machine α σ)

/-- Go on with the next instruction. -/
def next (stack : List (Datum α)) (store : σ) : Machine α σ :=
  { position := machine.position + 1, stack, store }

/-- Go on at a position. -/
def goto (position : Nat) (stack : List (Datum α)) : Machine α σ :=
  { machine with position, stack }

/-- Run a switch instruction. -/
def switch? (body : MethodBody) (instruction : Instruction) : Option (Machine α σ) :=
  match machine.stack with
  | .int value :: stack =>
    (instruction.destination? value).map fun label => machine.goto (body.position label) stack
  | _ => none

end Machine

namespace World

variable (world : World α σ) (body : MethodBody)

/-- Run an instruction. -/
def perform? (machine : Machine α σ) (instruction : Instruction) : Option (Machine α σ) :=
  match instruction with
  | .plain op => (op.operate? machine.stack).map fun stack => machine.next stack machine.store
  | .push (.int value) => some (machine.next (.int value :: machine.stack) machine.store)
  | .push (.string text) => some (machine.next (.text text :: machine.stack) machine.store)
  | .load _ slot =>
    (world.load? slot machine.store).map fun value =>
      machine.next (value :: machine.stack) machine.store
  | .store _ slot =>
    machine.stack.head?.bind fun top =>
      (world.store? slot top machine.store).map (machine.next machine.stack.tail)
  | .jump op target =>
    (op.branch? machine.stack).map fun branch =>
      if branch.1 then machine.goto (body.position target) branch.2
      else machine.next branch.2 machine.store
  | .tableSwitch .. => machine.switch? body instruction
  | .lookupSwitch .. => machine.switch? body instruction
  | .invoke method =>
    (world.call? method machine.stack machine.store).map fun result =>
      machine.next result.1 result.2
  | .getField field =>
    (field.holder? machine.stack).bind fun holder =>
      (world.read? field holder.1 machine.store).map fun value =>
        machine.next (value :: holder.2) machine.store
  | .putField field =>
    machine.stack.head?.bind fun value =>
      (field.holder? machine.stack.tail).bind fun holder =>
        (world.write? field holder.1 value machine.store).map (machine.next holder.2)
  | .new className =>
    (world.make? className machine.store).map fun made =>
      machine.next (made.1 :: machine.stack) made.2
  | .checkCast className =>
    machine.stack.head?.bind fun top =>
      if world.belongs className top then some (machine.next machine.stack machine.store) else none
  | _ => none

/-- One step of the machine. -/
def step? (machine : Machine α σ) : Option (Machine α σ) :=
  body.instructions[machine.position]?.bind (world.perform? body machine)

/-- The machine gets from one state to another. -/
def Reaches : Machine α σ → Machine α σ → Prop :=
  Relation.ReflTransGen fun before after => world.step? body before = some after

variable {world body} {machine next last : Machine α σ} {instruction : Instruction}

/-- The next instruction is run, and the machine goes on. -/
theorem Reaches.perform
    (here : body.instructions[machine.position]? = some instruction)
    (performed : world.perform? body machine instruction = some next)
    (rest : world.Reaches body next last) :
    world.Reaches body machine last := by
  refine Relation.ReflTransGen.head ?_ rest
  rw [step?, here, Option.bind_some, performed]

theorem Reaches.trans {first second third : Machine α σ}
    (before : world.Reaches body first second) (after : world.Reaches body second third) :
    world.Reaches body first third := Relation.ReflTransGen.trans before after

/-! ## Single instructions -/

section Instructions

variable {position slot : Nat} {stack left : List (Datum α)} {store : σ}
variable {op : Opcode} {target : Label} {kind : ValueKind} {datum : Datum α} {value : Int32}

theorem perform?_plain (operated : op.operate? stack = some left) :
    world.perform? body ⟨position, stack, store⟩ (.plain op) =
      some ⟨position + 1, left, store⟩ := by
  rw [perform?, operated]
  rfl

theorem perform?_load (loaded : world.load? slot store = some datum) :
    world.perform? body ⟨position, stack, store⟩ (.load kind slot) =
      some ⟨position + 1, datum :: stack, store⟩ := by
  rw [perform?, loaded]
  rfl

theorem perform?_push :
    world.perform? body ⟨position, stack, store⟩ (.push (.int value)) =
      some ⟨position + 1, .int value :: stack, store⟩ := rfl

theorem perform?_goto :
    world.perform? body ⟨position, stack, store⟩ (.jump .goto target) =
      some ⟨body.position target, stack, store⟩ := rfl

theorem branch?_of_tests? {taken : Bool} (tested : op.tests? value = some taken) :
    op.branch? (.int value :: stack) = some (taken, stack) := by
  cases op with
  | goto | ifnull | ifnonnull => cases tested
  | _ => simp [Opcode.branch?, tested]

/-- A branch on an integer that meets the test. -/
theorem perform?_taken (tested : op.tests? value = some true) :
    world.perform? body ⟨position, .int value :: stack, store⟩ (.jump op target) =
      some ⟨body.position target, stack, store⟩ := by
  rw [perform?, branch?_of_tests? tested]
  rfl

/-- A branch on an integer that fails the test. -/
theorem perform?_passed (tested : op.tests? value = some false) :
    world.perform? body ⟨position, .int value :: stack, store⟩ (.jump op target) =
      some ⟨position + 1, stack, store⟩ := by
  rw [perform?, branch?_of_tests? tested]
  rfl

end Instructions

/-! ## Where an instruction leads -/

/-- A switch instruction goes to one of its targets. -/
theorem mem_targets_of_destination? {value : Int32} {label : Label}
    (sent : instruction.destination? value = some label) : label ∈ instruction.targets := by
  cases instruction with
  | tableSwitch low high default targets =>
    rw [Instruction.destination?] at sent
    split_ifs at sent
    · exact List.mem_cons_of_mem _ (List.mem_of_getElem? sent)
    · cases sent
      exact List.mem_cons_self
  | lookupSwitch default pairs =>
    cases sent
    cases found : pairs.lookup value with
    | none => exact List.mem_cons_self
    | some label =>
      exact List.mem_cons_of_mem _ (List.mem_map_of_mem (mem_of_lookup found))
  | _ => cases sent

/-- A switch goes on at one of its targets, and changes nothing else. -/
theorem switch?_eq_goto (switched : machine.switch? body instruction = some next) :
    ∃ label ∈ instruction.targets,
      next = machine.goto (body.position label) machine.stack.tail := by
  unfold Machine.switch? at switched
  split at switched
  · next operands =>
    obtain ⟨label, sent, rfl⟩ := Option.map_eq_some_iff.mp switched
    exact ⟨label, mem_targets_of_destination? sent, by rw [operands]; rfl⟩
  · cases switched

/-- Control goes on with the next instruction or at a target of the one that is run. -/
theorem perform?_position (performed : world.perform? body machine instruction = some next) :
    next.position = machine.position + 1 ∨
      ∃ label ∈ instruction.targets, next.position = body.position label := by
  cases instruction with
  | jump op target =>
    obtain ⟨⟨taken, stack⟩, -, rfl⟩ := Option.map_eq_some_iff.mp performed
    cases taken with
    | true => exact .inr ⟨target, List.mem_singleton_self _, rfl⟩
    | false => exact .inl rfl
  | tableSwitch | lookupSwitch =>
    obtain ⟨label, member, rfl⟩ := switch?_eq_goto performed
    exact .inr ⟨label, member, rfl⟩
  | push value =>
    cases value with
    | int value => cases performed; exact .inl rfl
    | string text => cases performed; exact .inl rfl
    | _ => cases performed
  | increment | instanceOf | closure => cases performed
  | _ =>
    left
    simp only [perform?, Option.map_eq_some_iff, Option.bind_eq_some_iff,
      Option.ite_none_right_eq_some, Option.some.injEq] at performed
    grind [Machine.next]

end World
end StackCode
