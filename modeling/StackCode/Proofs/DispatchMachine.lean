import Mathlib.Logic.Function.Basic
import Mathlib.Logic.Relation
import StackCode.Proofs.Finishing
import StackCode.Proofs.IntegralDispatch

/-!
# Running dispatch code

A machine that runs the code by which a switch gets from the value of its selector
to one of its sections.  Of the library it knows what this code calls: equality of
strings, hash maps from strings, boxed integers.  How the selector gets its value is
left open.  Instructions that dispatch has no use for are left out of the machine: it
stops at them.
-/

namespace StackCode

variable {instruction : Instruction} {label : Label}

/-- The code is the beginning of what is finished into the body. -/
def Code.Becomes (code : Code) (body : MethodBody) : Prop :=
  ∃ final, code.Grows final ∧ final.Finishes body

namespace Code.Becomes

variable {code after : Code} {body : MethodBody}

theorem of_grows (becomes : after.Becomes body) (grows : code.Grows after) : code.Becomes body := by
  obtain ⟨final, further, finishes⟩ := becomes
  exact ⟨final, grows.trans further, finishes⟩

/-- An instruction stays where it was emitted. -/
theorem getElem?
    (becomes : code.Becomes body)
    {position : Nat}
    (emitted : code.instructions[position]? = some instruction) :
    body.instructions[position]? = some instruction := by
  obtain ⟨final, grows, finishes⟩ := becomes
  rw [finishes.instructions]
  exact grows.getElem? emitted

/-- A label stands where it was bound. -/
theorem position
    (becomes : code.Becomes body)
    {position : Nat}
    (bound : code.position? label = some position) :
    body.position label = position := by
  obtain ⟨final, grows, finishes⟩ := becomes
  exact finishes.position label position (grows.marks label position bound)

end Code.Becomes

namespace Dispatching

variable {first : Emit Unit}

/-- The objects that dispatch code works with. -/
inductive Thing where
  /-- A boxed integer. -/
  | boxed (value : Int32)
  /-- A hash map, by its address. -/
  | map (address : Nat)
  /-- A constant of an enumeration, which answers its ordinal. -/
  | constant (ordinal : Int32)
  deriving DecidableEq, Repr, Inhabited

/-- A value of the machine. -/
abbrev Value := Datum Thing

/-- The contents of a hash map, the newest entry first. -/
abbrev Table := List (String × Value)

/-- The value of a key in a hash map; no object for what is no key. -/
def Table.answer (table : Table) : Value → Value
  | .text key => (table.lookup key).getD .null
  | _ => .null

/-- What tells static fields apart. -/
def key (field : FieldRef) : String × String × Erased :=
  (field.owner, field.name, field.type.erasure)

/-- What code can read and write besides its operands. -/
structure Store where
  /-- The contents of the local slots. -/
  slots : Nat → Value
  /-- The contents of the static fields. -/
  statics : String × String × Erased → Value
  /-- The hash maps, by their addresses. -/
  tables : List Table

/-- The two methods have the same class and name. -/
def Names (method known : MethodRef) : Prop := method.owner = known.owner ∧ method.name = known.name

instance (method known : MethodRef) : Decidable (Names method known) :=
  inferInstanceAs (Decidable (_ ∧ _))

/-- What a call of a library method leaves of the operands and of the hash maps. -/
def library? (method : MethodRef) (tables : List Table) (stack : List Value) :
    Option (List Value × List Table) :=
  if Names method Library.stringEquals then
    match stack with
    | argument :: .text receiver :: stack =>
      some (.ofBool (argument = .text receiver) :: stack, tables)
    | _ => none
  else if Names method Library.boxInteger then
    match stack with
    | .int value :: stack => some (.other (.boxed value) :: stack, tables)
    | _ => none
  else if Names method Library.integerValue then
    match stack with
    | .other (.boxed value) :: stack => some (.int value :: stack, tables)
    | _ => none
  else if Names method (Library.constructor Library.hashMap) then
    match stack with
    | .other (.map _) :: stack => some (stack, tables)
    | _ => none
  else if Names method Library.hashMapPut then
    match stack with
    | value :: .text key :: .other (.map address) :: stack =>
      tables[address]?.map fun table =>
        (Table.answer table (.text key) :: stack, tables.set address ((key, value) :: table))
    | _ => none
  else if Names method Library.hashMapGet then
    match stack with
    | key :: .other (.map address) :: stack =>
      tables[address]?.map fun table => (Table.answer table key :: stack, tables)
    | _ => none
  else none

/-- What a call leaves of the operands and of the hash maps. -/
def call? (method : MethodRef) (tables : List Table) :
    List Value → Option (List Value × List Table)
  | .other (.constant ordinal) :: stack => some (.int ordinal :: stack, tables)
  | stack => library? method tables stack

/-- Slots, static fields and hash maps are known, and so are calls of the library. -/
def world : World Thing Store where
  load? slot store := some (store.slots slot)
  store? slot value store :=
    some { store with slots := Function.update store.slots slot value }
  read? field object store := if object.isNone then some (store.statics (key field)) else none
  write? field object value store :=
    if object.isNone then
      some { store with statics := Function.update store.statics (key field) value }
    else none
  make? className store :=
    if className = Library.hashMap then
      some (.other (.map store.tables.length), { store with tables := store.tables ++ [[]] })
    else none
  belongs className value :=
    match value with
    | .other (.boxed _) => className = Library.integer
    | _ => false
  call? method stack store :=
    (call? method store.tables stack).map fun result =>
      (result.1, { store with tables := result.2 })

/-- The machine gets from one state to another. -/
abbrev Reaches (body : MethodBody) : Machine Thing Store → Machine Thing Store → Prop :=
  world.Reaches body

/-- How the selector of a switch gets its value. -/
structure Evaluation where
  /-- Where its code begins. -/
  first : Nat
  /-- Where its code ends. -/
  last : Nat
  /-- The value that it leaves on top of the operands. -/
  value : Value
  /-- What it does to everything else. -/
  effect : Store → Store

/--
Control gets from the start of dispatch code to a target: first to the code of the
selector, which leaves its value on top of the operands, and from the end of that code
to the target.
-/
def Evaluation.Arrives
    (evaluation : Evaluation)
    (body : MethodBody)
    (start : Nat)
    (store : Store)
    (target : Nat)
    (result : Store) : Prop :=
  ∃ stack between,
    Reaches body ⟨start, [], store⟩ ⟨evaluation.first, stack, between⟩ ∧
      Reaches body ⟨evaluation.last, evaluation.value :: stack, evaluation.effect between⟩
        ⟨target, [], result⟩

/-- A step that only adds to the code. -/
def Growing (step : Emit α) : Prop :=
  ∀ ⦃before value after⦄, step before = .ok value after → before.code.Grows after.code

namespace Growing

theorem seq {next : Emit α} (firstGrowing : Growing first)
    (nextGrowing : Growing next) : Growing (first >>= fun _ => next) := by
  intro before value after success
  obtain ⟨between, firstSuccess, nextSuccess⟩ := Emit.seq_ok.mp success
  exact (firstGrowing firstSuccess).trans (nextGrowing nextSuccess)

/-- Plain steps only add to the code. -/
theorem plain {step : Emit α} (isPlain : Emit.Plainly [] step) : Growing step :=
  fun _ _ _ success => (isPlain.evolves (MethodContext.storesTo_all _) success).code

theorem emit (instruction : Instruction) : Growing (Emit.emit instruction) := by
  intro before _ after success
  obtain rfl := Emit.emit_ok.mp success
  exact .emit _ _

theorem mark (label : Label) : Growing (Emit.mark label) := by
  intro before _ after success
  obtain ⟨free, rfl⟩ := Emit.mark_ok.mp success
  exact .mark free _

end Growing

/--
The code of a step takes the machine from its start, with the given operands, to the
state that `exit` gives for the position of its end.
-/
structure Carries
    (body : MethodBody)
    (step : Emit α)
    (stack : List Value)
    (store : Store)
    (exit : Nat → Machine Thing Store) :
    Prop where
  grows : Growing step
  reaches : ∀ {before value after}, step before = .ok value after → after.code.Becomes body →
    Reaches body ⟨before.size, stack, store⟩ (exit after.size)

namespace Carries

open Emit

variable {body : MethodBody} {stack between rest : List Value} {store middle : Store}
variable {exit : Nat → Machine Thing Store}

theorem pure (value : α) :
    Carries body (pure value) stack store fun position => ⟨position, stack, store⟩ where
  grows := by
    intro before _ after success
    obtain ⟨-, rfl⟩ := pure_ok.mp success
    exact .refl _
  reaches := by
    intro before _ after success _
    obtain ⟨-, rfl⟩ := pure_ok.mp success
    exact Relation.ReflTransGen.refl

/-- One stretch of code after the other; the second one knows what the first step returned. -/
theorem bind
    {first : Emit α} {next : α → Emit β}
    (firstCarries : Carries body first stack store fun position => ⟨position, between, middle⟩)
    (nextCarries : ∀ value, (∃ before after, first before = .ok value after) →
      Carries body (next value) between middle exit) :
    Carries body (first >>= next) stack store exit where
  grows := by
    intro before result after success
    obtain ⟨value, state, firstSuccess, nextSuccess⟩ := bind_ok.mp success
    exact (firstCarries.grows firstSuccess).trans
      ((nextCarries value ⟨_, _, firstSuccess⟩).grows nextSuccess)
  reaches := by
    intro before result after success becomes
    obtain ⟨value, state, firstSuccess, nextSuccess⟩ := bind_ok.mp success
    have nextCarries := nextCarries value ⟨_, _, firstSuccess⟩
    have earlier := becomes.of_grows (nextCarries.grows nextSuccess)
    exact (firstCarries.reaches firstSuccess earlier).trans
      (nextCarries.reaches nextSuccess becomes)

theorem seq
    {next : Emit β}
    (firstCarries : Carries body first stack store fun position => ⟨position, between, middle⟩)
    (nextCarries : Carries body next between middle exit) :
    Carries body (first >>= fun _ => next) stack store exit :=
  bind firstCarries fun _ _ => nextCarries

/-- What follows an instruction that leads elsewhere does not matter. -/
theorem leave
    {next : Emit β} {last : Machine Thing Store}
    (firstCarries : Carries body first stack store fun _ => last)
    (grows : Growing next) :
    Carries body (first >>= fun _ => next) stack store fun _ => last where
  grows := firstCarries.grows.seq grows
  reaches := by
    intro before result after success becomes
    obtain ⟨state, firstSuccess, nextSuccess⟩ := seq_ok.mp success
    exact firstCarries.reaches firstSuccess (becomes.of_grows (grows nextSuccess))

/-- An instruction is run. -/
theorem emit
    (performed : ∀ position, world.perform? body ⟨position, stack, store⟩ instruction =
      some (exit (position + 1))) :
    Carries body (emit instruction) stack store exit where
  grows := Growing.emit instruction
  reaches := by
    intro before _ after success becomes
    obtain rfl := emit_ok.mp success
    have emitted :
        (before.code.emit instruction).instructions[before.size]? = some instruction := by
      simp [Code.emit, Emission.size, Code.size]
    have size : (before.mapCode fun code => code.emit instruction).size = before.size + 1 :=
      before.code.size_emit instruction
    rw [size]
    exact .perform (becomes.getElem? emitted) (performed before.size) Relation.ReflTransGen.refl

/-- Steps that leave the code alone do not show. -/
theorem quiet
    {step : Emit α}
    (still : ∀ {before value after}, step before = .ok value after →
      before.code.Grows after.code ∧ after.size = before.size) :
    Carries body step stack store fun position => ⟨position, stack, store⟩ where
  grows := fun _ _ _ success => (still success).1
  reaches := by
    intro before value after success _
    rw [(still success).2]
    exact Relation.ReflTransGen.refl

/-! ## Instructions -/

theorem op_dup (top : Value) :
    Carries body (op .dup) (top :: stack) store fun position =>
      ⟨position, top :: top :: stack, store⟩ :=
  emit fun _ => rfl

theorem op_pop (top : Value) :
    Carries body (op .pop) (top :: stack) store fun position => ⟨position, stack, store⟩ :=
  emit fun _ => rfl

theorem op_ior (first second : Bool) :
    Carries body (op .ior) (.ofBool second :: .ofBool first :: stack) store fun position =>
      ⟨position, .ofBool (first || second) :: stack, store⟩ :=
  emit fun _ => by cases first <;> cases second <;> rfl

theorem push_string (text : String) :
    Carries body (push (.string text)) stack store fun position =>
      ⟨position, .text text :: stack, store⟩ :=
  emit fun _ => rfl

theorem pushInt (value : Int32) :
    Carries body (pushInt value) stack store fun position =>
      ⟨position, .int value :: stack, store⟩ :=
  emit fun _ => rfl

theorem loadRef (slot : Nat) :
    Carries body (loadRef slot) stack store fun position =>
      ⟨position, store.slots slot :: stack, store⟩ :=
  emit fun _ => rfl

theorem storeRef (slot : Nat) (top : Value) :
    Carries body (storeRef slot) (top :: stack) store fun position =>
      ⟨position, stack, { store with slots := Function.update store.slots slot top }⟩ :=
  emit fun _ => rfl

theorem goto (target : Label) :
    Carries body (goto target) stack store fun _ => ⟨body.position target, stack, store⟩ :=
  emit fun _ => rfl

theorem invoke
    {method : MethodRef} {tables : List Table}
    (called : call? method store.tables stack = some (between, tables)) :
    Carries body (invoke method) stack store fun position =>
      ⟨position, between, { store with tables }⟩ := by
  refine emit fun _ => ?_
  simp only [World.perform?, world, called]
  rfl

theorem getField {field : FieldRef} (isStatic : field.isStatic) :
    Carries body (getField field) stack store fun position =>
      ⟨position, store.statics (key field) :: stack, store⟩ := by
  refine emit fun _ => ?_
  simp only [World.perform?, FieldRef.holder?, if_pos isStatic]
  rfl

theorem putField {field : FieldRef} (isStatic : field.isStatic) (top : Value) :
    Carries body (putField field) (top :: stack) store fun position =>
      ⟨position, stack,
        { store with statics := Function.update store.statics (key field) top }⟩ := by
  refine emit fun _ => ?_
  simp only [World.perform?, FieldRef.holder?, if_pos isStatic]
  rfl

theorem new_hashMap :
    Carries body (Emit.emit (.new Library.hashMap)) stack store fun position =>
      ⟨position, .other (.map store.tables.length) :: stack,
        { store with tables := store.tables ++ [[]] }⟩ :=
  emit fun _ => rfl

theorem checkCast (value : Int32) :
    Carries body (checkCast (.named Library.integer)) (.other (.boxed value) :: stack) store
      fun position => ⟨position, .other (.boxed value) :: stack, store⟩ :=
  emit fun _ => rfl

theorem jump_ifne (answer : Bool) (target : Label) :
    Carries body (jump .ifne target) (.ofBool answer :: stack) store fun position =>
      ⟨if answer then body.position target else position, stack, store⟩ :=
  emit fun _ => by cases answer <;> rfl

theorem jump_ifnonnull (top : Value) (target : Label) :
    Carries body (jump .ifnonnull target) (top :: stack) store fun position =>
      ⟨if top ≠ .null then body.position target else position, stack, store⟩ :=
  emit fun _ => by cases top <;> rfl

/-- A switch instruction sends an integer to a label. -/
theorem emit_switch
    {value : Int32}
    (destination : instruction.destination? value = some label) :
    Carries body (Emit.emit instruction) (.int value :: stack) store fun _ =>
      ⟨body.position label, stack, store⟩ := by
  refine emit fun position => ?_
  cases instruction with
  | tableSwitch low high default targets =>
    simp only [World.perform?, Machine.switch?, destination]
    rfl
  | lookupSwitch default pairs =>
    simp only [World.perform?, Machine.switch?, destination]
    rfl
  | _ => contradiction

/-! ## Steps that leave the code alone -/

theorem mark (label : Label) :
    Carries body (mark label) stack store fun position => ⟨position, stack, store⟩ := by
  refine quiet fun {before _ after} success => ?_
  refine ⟨Growing.mark label success, ?_⟩
  obtain ⟨-, rfl⟩ := mark_ok.mp success
  rfl

theorem caseValue (read : Const → Option α) (label : Expr) :
    Carries body (caseValue read label) stack store fun position => ⟨position, stack, store⟩ := by
  refine quiet fun {before value after} success => ?_
  obtain ⟨-, rfl⟩ := caseValue_ok.mp success
  exact ⟨.refl _, rfl⟩

end Carries

/-- A label stands where it is bound. -/
theorem position_of_mark
    {body : MethodBody} {before after : Emission}
    (success : Emit.mark label before = .ok () after)
    (becomes : after.code.Becomes body) :
    body.position label = after.size := by
  obtain ⟨free, rfl⟩ := Emit.mark_ok.mp success
  have bound :=
    Code.position?_of_mark_eq_ok ((Code.mark_eq_ok_iff before.code _ label).mpr ⟨free, rfl⟩)
  exact becomes.position bound

/-! ## Calls of the library -/

theorem call?_stringEquals (tables : List Table) (argument : Option String) (receiver : String)
    (stack : List Value) :
    call? Library.stringEquals tables (.ofText argument :: .text receiver :: stack) =
      some (.ofBool (argument = some receiver) :: stack, tables) := by
  cases argument <;> simp [call?, library?, Names, Datum.ofText]

theorem call?_boxInteger (tables : List Table) (value : Int32) (stack : List Value) :
    call? Library.boxInteger tables (.int value :: stack) =
      some (.other (.boxed value) :: stack, tables) := rfl

theorem call?_integerValue (tables : List Table) (value : Int32) (stack : List Value) :
    call? Library.integerValue tables (.other (.boxed value) :: stack) =
      some (.int value :: stack, tables) := rfl

theorem call?_constructor (tables : List Table) (address : Nat) (stack : List Value) :
    call? (Library.constructor Library.hashMap) tables (.other (.map address) :: stack) =
      some (stack, tables) := rfl

/-- An entry is made in the newest hash map. -/
theorem call?_hashMapPut (tables : List Table) (table : Table) (value : Int32) (key : String)
    (stack : List Value) :
    call? Library.hashMapPut (tables ++ [table])
        (.other (.boxed value) :: .text key :: .other (.map tables.length) :: stack) =
      some (Table.answer table (.text key) :: stack,
        tables ++ [(key, .other (.boxed value)) :: table]) := by
  change (tables ++ [table])[tables.length]?.map _ = _
  simp

theorem call?_hashMapGet {tables : List Table} {table : Table} {address : Nat}
    (found : tables[address]? = some table) (key : Option String) (stack : List Value) :
    call? Library.hashMapGet tables (.ofText key :: .other (.map address) :: stack) =
      some (Table.answer table (.ofText key) :: stack, tables) := by
  cases key <;>
  · change tables[address]?.map _ = _
    rw [found]
    rfl

end Dispatching
end StackCode
