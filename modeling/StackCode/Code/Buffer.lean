import StackCode.Code.Body
import StackCode.Error

/-!
# Code under construction

The instruction sink of one method.  Labels are handed out in order and bound to
positions at most once, local slots live in nested scopes and are reused by
sibling scopes, and `Code.finish` resolves every label that is used.
-/

namespace StackCode

/-- A protected range whose ends are still labels. -/
structure Region where
  /-- Where protection begins. -/
  start : Label
  /-- Where protection ends. -/
  stop : Label
  /-- Where the handler begins. -/
  handler : Label
  /-- The class of the exceptions that are caught. -/
  catchType : Option String
  deriving DecidableEq, Repr, Inhabited

/-- A local that owns its slots; temporaries have no name. -/
structure LiveLocal where
  /-- The name, for a local of the source. -/
  name : Option String
  /-- The descriptor of its type. -/
  descriptor : String
  /-- Its first slot. -/
  slot : Nat
  /-- The number of its slots. -/
  width : Nat
  /-- The position at which it came into being. -/
  start : Nat
  deriving DecidableEq, Repr, Inhabited

/-- A scope of locals. -/
structure LocalScope where
  /-- The first slot that was free when the scope was entered. -/
  firstSlot : Nat
  /-- The locals of the scope, the newest one first. -/
  locals : List LiveLocal := []
  deriving DecidableEq, Repr, Inhabited

/-- The instruction sink of one method. -/
structure Code where
  /-- The instructions emitted so far. -/
  instructions : Array Instruction := #[]
  /-- The position of every label that was handed out, once it is bound. -/
  marks : Array (Option Nat) := #[]
  /-- The protected ranges, in the order of their registration. -/
  regions : Array Region := #[]
  /-- The scopes that are open, the innermost one first. -/
  scopes : List LocalScope := []
  /-- The locals outside of every scope, the newest one first. -/
  outermost : List LiveLocal := []
  /--
  The first free slot.  The class file counts slots in 16 bits, and what happens past
  slot 65535 is not modelled.
  -/
  nextSlot : Nat := 0
  /-- The number of slots that were ever in use at once, of which 65535 are modelled. -/
  maxLocals : Nat := 0
  /-- The locals that have ended, in the order of their ends. -/
  ended : Array LocalVarEntry := #[]
  /-- Whether the table of locals is kept. -/
  debugInfo : Bool := true
  deriving Inhabited

namespace Code

/-- The position of the next instruction. -/
def size (code : Code) : Nat := code.instructions.size

/-- Append an instruction. -/
def emit (code : Code) (instruction : Instruction) : Code :=
  { code with instructions := code.instructions.push instruction }

@[simp] theorem size_emit (code : Code) (instruction : Instruction) :
    (code.emit instruction).size = code.size + 1 := by
  simp [emit, size]

/-! ## Labels -/

/-- Hand out a label. -/
def newLabel (code : Code) : Label × Code :=
  (⟨code.marks.size⟩, { code with marks := code.marks.push none })

/-- Bind a label to the position of the next instruction. -/
def mark (code : Code) (label : Label) : Except Error Code :=
  match code.marks[label.index]? with
  | none => .error (.internal (.foreignLabel label))
  | some (some first) => .error (.labelMarkedTwice label first code.size)
  | some none => .ok { code with marks := code.marks.setIfInBounds label.index (some code.size) }

/-- Hand out a label that is bound to the position of the next instruction. -/
def here (code : Code) : Label × Code :=
  (⟨code.marks.size⟩, { code with marks := code.marks.push (some code.size) })

/-- The position to which a label is bound. -/
def position? (code : Code) (label : Label) : Option Nat := code.marks[label.index]?.join

/-- A label handed out for the current position is bound to it. -/
@[simp] theorem position?_here (code : Code) :
    code.here.2.position? code.here.1 = some code.size := by
  simp [here, position?]

/-- Binding a label succeeds exactly if it was handed out and is not bound. -/
theorem mark_eq_ok_iff (code result : Code) (label : Label) :
    code.mark label = .ok result ↔
      code.marks[label.index]? = some none ∧
        result = { code with marks := code.marks.setIfInBounds label.index (some code.size) } := by
  unfold mark
  split
  · next missing => simp [missing]
  · next bound => simp [bound]
  · next free => simp [free, eq_comm]

/-- A bound label stands at the position where it was bound. -/
theorem position?_of_mark_eq_ok
    {code result : Code}
    {label : Label}
    (bound : code.mark label = .ok result) :
    result.position? label = some code.size := by
  obtain ⟨free, rfl⟩ := (mark_eq_ok_iff code result label).mp bound
  obtain ⟨inBounds, -⟩ := Array.getElem?_eq_some_iff.mp free
  simp [position?, inBounds]

/-! ## Protected ranges -/

/-- Register a protected range. -/
def addRegion (code : Code) (region : Region) : Code :=
  { code with regions := code.regions.push region }

/-! ## Slots -/

/-- Open a scope. -/
def enterScope (code : Code) : Code :=
  { code with scopes := { firstSlot := code.nextSlot } :: code.scopes }

/-- The table entry of a local that ends at the next position; temporaries have none. -/
def endLocal? (code : Code) (live : LiveLocal) : Option LocalVarEntry :=
  if code.debugInfo then
    live.name.map fun name =>
      { start := live.start
        length := code.size - live.start
        name
        descriptor := live.descriptor
        slot := live.slot }
  else none

/-- Record the ends of some locals, in the given order. -/
def endLocals (code : Code) (locals : List LiveLocal) : Code :=
  { code with ended := code.ended ++ locals.filterMap code.endLocal? }

/-- Close the given innermost scope: its locals end and its slots are free again. -/
def closeScope (code : Code) (scope : LocalScope) (outer : List LocalScope) : Code :=
  { code.endLocals scope.locals with scopes := outer, nextSlot := scope.firstSlot }

/-- Close the innermost scope. -/
def exitScope (code : Code) : Except Error Code :=
  match code.scopes with
  | [] => .error .scopeUnderflow
  | scope :: outer => .ok (code.closeScope scope outer)

/-- Closing a scope fails exactly if none is open. -/
theorem exitScope_eq_error_iff (code : Code) (error : Error) :
    code.exitScope = .error error ↔ code.scopes = [] ∧ error = .scopeUnderflow := by
  unfold exitScope
  split <;> simp_all [eq_comm]

/-- Reserve the slots of a local in the innermost scope. -/
def allocate (code : Code) (name : Option String) (type : Ty) : Nat × Code :=
  let live : LiveLocal :=
    { name
      descriptor := type.descriptor
      slot := code.nextSlot
      width := max type.kind.width 1
      start := code.size }
  let nextSlot := code.nextSlot + live.width
  let code := { code with nextSlot, maxLocals := max code.maxLocals nextSlot }
  match code.scopes with
  | [] => (live.slot, { code with outermost := live :: code.outermost })
  | scope :: outer =>
    (live.slot, { code with scopes := { scope with locals := live :: scope.locals } :: outer })

/-! ## The finished body -/

/-- Close every open scope, the innermost one first. -/
def closeScopes (code : Code) : Code :=
  code.scopes.foldl (fun code scope => code.closeScope scope code.scopes.tail) code

/-- The position of a label that something refers to. -/
def resolve (code : Code) (label : Label) : Except Error Nat :=
  match code.position? label with
  | some position => .ok position
  | none => .error (.unmarkedLabel label)

/-- The table entry of a protected range. -/
def resolveRegion (code : Code) (region : Region) : Except Error ExceptionEntry := do
  let start ← code.resolve region.start
  let stop ← code.resolve region.stop
  let handler ← code.resolve region.handler
  return { start, stop, handler, catchType := region.catchType }

/--
Resolve every label that is used.  Empty ranges are dropped; locals outside of
every scope live to the end, and a label that nothing refers to may stay
unbound and then stands at the end.
-/
def finish (code : Code) : Except Error MethodBody := do
  let code := code.closeScopes
  let code := code.endLocals code.outermost.reverse
  code.instructions.toList.forM fun instruction =>
    instruction.targets.forM fun label => discard (code.resolve label)
  let entries ← code.regions.toList.mapM code.resolveRegion
  return {
    instructions := code.instructions
    exceptions := entries.filter fun entry => entry.start < entry.stop
    localVars := code.ended.toList
    maxLocals := code.maxLocals
    labels := code.marks.map fun position => position.getD code.size }

end Code

end StackCode
