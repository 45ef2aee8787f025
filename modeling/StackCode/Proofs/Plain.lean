import Mathlib.Data.List.Perm.Subperm
import StackCode.Proofs.References

/-!
# Plain steps

Most of a generation consists of steps that do no more than emit code: they
append instructions, hand out labels and bind them, and reserve slots.  Such
steps are described by the labels that they may use, the labels that they bind,
the fields that they may write and what they may refer to; whatever holds of
their elementary parts holds of all of them.  The code of every expression is
plain, and so is the code that dispatches to the sections of a switch.
-/

namespace StackCode

/-- The failures that tell of lost bookkeeping: a label bound again, or a scope closed too often. -/
def Error.breaksBookkeeping : Error → Bool
  | .labelMarkedTwice _ _ _ => true
  | .scopeUnderflow => true
  | _ => false

/-- The failure tells that a switch lacks a case. -/
def Error.missesCase : Error → Bool
  | .missingCaseLabel _ _ => true
  | _ => false

/-- The failure tells that too many statements were to be lowered at once. -/
def Error.exceedsRoom : Error → Bool
  | .internal .nesting => true
  | _ => false

/-- The class goes on as it is, but for synthetic fields that it may get. -/
structure ClassContext.Quiet (before after : ClassContext) : Prop where
  name : after.name = before.name
  config : after.config = before.config
  fields : before.fields.toList <+: after.fields.toList
  methods : after.methods = before.methods
  nested : after.nested = before.nested

namespace ClassContext.Quiet

theorem refl (cls : ClassContext) : cls.Quiet cls := ⟨rfl, rfl, List.prefix_rfl, rfl, rfl⟩

theorem trans {before between after : ClassContext} (first : before.Quiet between)
    (second : between.Quiet after) : before.Quiet after where
  name := second.name.trans first.name
  config := second.config.trans first.config
  fields := first.fields.trans second.fields
  methods := second.methods.trans first.methods
  nested := second.nested.trans first.nested

theorem newSwitchMap (cls : ClassContext) : cls.Quiet cls.newSwitchMap.2 where
  name := rfl
  config := rfl
  fields := by simp [ClassContext.newSwitchMap]
  methods := rfl
  nested := rfl

end ClassContext.Quiet

/-- Storing into a local writes no field but a `writable` one. -/
def MethodContext.StoresTo (writable : FieldRef → Prop) (method : MethodContext) : Prop :=
  ∀ id holder path field, method.locals.lookup id = some (.captured holder path) →
    path.getLast? = some field → writable field

/-- Every local may be stored into if every field may be written. -/
theorem MethodContext.storesTo_all (method : MethodContext) : method.StoresTo fun _ => True :=
  fun _ _ _ _ _ _ => trivial

namespace Emit

variable {label : Label} {field : FieldRef} {targets : BranchTargets}

/-- What is taken out of the class does not depend on what is generated for it. -/
def TakesUnseen (take : ClassContext → α × ClassContext) : Prop :=
  ∀ cls config methods nested, take { cls with config, methods, nested } =
    ((take cls).1, { (take cls).2 with config, methods, nested })

/--
A step that only emits code.  It uses no labels but the `allowed` ones and those
it hands out, binds each of the `bound` ones at most once and no other, and
writes no fields of objects but `writable` ones.  It refers to nothing but what
is known before or read on the way; its value has the given references.
-/
inductive PlainTo (writable : FieldRef → Prop) :
    Basis → (allowed : Label → Prop) → (bound : List Label) →
      {α : Type} → (refs : α → List Reference) → Emit α → Prop where
  /-- Nothing happens. -/
  | pureTo {basis allowed bound refs} {value : α}
      (valueKnown : ∀ ref ∈ refs value, basis.known ref) :
      PlainTo writable basis allowed bound refs (pure value)
  /-- The step fails. -/
  | throw {basis allowed bound refs} {error : Error}
      (proper : (error.breaksBookkeeping || error.missesCase || error.exceedsRoom) = false)
      (linked : basis.targets.isSome → error.breaksLink = false) :
      PlainTo writable basis allowed bound refs (throw error : Emit α)
  /-- One step after the other. -/
  | bindTo {basis allowed bound earlier later refs refs'} {first : Emit α} {next : α → Emit β}
      (firstPlain : PlainTo writable basis allowed earlier refs first)
      (nextPlain : ∀ value,
        PlainTo writable (basis.knowing (refs value)) allowed later refs' (next value))
      (within : (earlier ++ later).Subperm bound) :
      PlainTo writable basis allowed bound refs' (first >>= next)
  /-- The state of the method is read, but not its code. -/
  | reading {basis allowed bound refs} {next : MethodContext → Emit β}
      (unseen : ∀ method code, next { method with code } = next method)
      (nextPlain : ∀ method : MethodContext, method.StoresTo writable →
        (∀ found ∈ basis.targets, method.Resolves found) →
          PlainTo writable (basis.knowing method.references) allowed bound refs (next method)) :
      PlainTo writable basis allowed bound refs (method >>= next)
  /-- An instruction is appended. -/
  | emit {basis allowed bound} {instruction : Instruction}
      (targets : ∀ label ∈ instruction.targets, allowed label)
      (writes : ∀ field, instruction = .putField field → field.isStatic = false → writable field)
      (refers : ∀ ref ∈ instruction.references, basis.known ref) :
      PlainTo writable basis allowed bound (fun _ => []) (emit instruction)
  /-- A label is handed out for the steps that follow. -/
  | fresh {basis allowed bound refs} {next : Label → Emit β}
      (nextPlain : ∀ label,
        PlainTo writable basis (fun other => other = label ∨ allowed other) (bound ++ [label])
          refs (next label)) :
      PlainTo writable basis allowed bound refs (newLabel >>= next)
  /-- A label is bound. -/
  | mark {basis allowed bound} {label : Label}
      (labelAllowed : allowed label)
      (member : label ∈ bound) :
      PlainTo writable basis allowed bound (fun _ => []) (mark label)
  /-- Slots are reserved. -/
  | allocate {basis allowed bound} (name : Option String) (type : Ty) :
      PlainTo writable basis allowed bound (fun _ => [])
        (takeCode fun code => code.allocate name type)
  /-- Something is taken out of the class. -/
  | takeClass {basis allowed bound refs} {take : ClassContext → α × ClassContext}
      (unseen : TakesUnseen take)
      (quiet : ∀ cls : ClassContext, cls.Quiet (take cls).2 ∧
        ∀ ref ∈ refs (take cls).1, (take cls).2.Provides ref) :
      PlainTo writable basis allowed bound refs (takeClass take)
  /-- A message is left. -/
  | log {basis allowed bound} (level : LogLevel) (text : String) :
      PlainTo writable basis allowed bound (fun _ => []) (log level text)

/-- A plain step whose value has no references. -/
abbrev Plain
    (writable : FieldRef → Prop)
    (basis : Basis)
    (allowed : Label → Prop)
    (bound : List Label)
    (step : Emit α) :
    Prop :=
  PlainTo writable basis allowed bound (fun _ => []) step

/-- The step is plain, whatever it writes, refers to and goes to. -/
abbrev Plainly (bound : List Label) (step : Emit α) : Prop :=
  Plain (fun _ => True) .any (fun _ => True) bound step

namespace PlainTo

variable {writable : FieldRef → Prop} {basis : Basis}
variable {allowed : Label → Prop} {bound : List Label}
variable {refs : α → List Reference} {refs' : β → List Reference} {step : Emit α}

/-- A step may be allowed more than it uses, binds and refers to. -/
theorem mono
    {more : Label → Prop} {available : List Label} {known : Reference → Prop}
    (plain : PlainTo writable basis allowed bound refs step)
    (weaker : ∀ label, allowed label → more label)
    (within : bound.Subperm available)
    (knows : ∀ ref, basis.known ref → known ref) :
    PlainTo writable { basis with known } more available refs step := by
  induction plain generalizing more available known with
  | pureTo valueKnown => exact .pureTo fun ref member => knows ref (valueKnown ref member)
  | throw proper linked => exact .throw proper linked
  | bindTo _ _ enough firstHypothesis nextHypothesis =>
    refine .bindTo (firstHypothesis weaker (List.Subperm.refl _) knows) (fun value => ?_)
      (enough.trans within)
    exact nextHypothesis value weaker (List.Subperm.refl _) fun ref => Or.imp_right (knows ref)
  | reading unseen _ nextHypothesis =>
    exact .reading unseen fun method stores resolves =>
      nextHypothesis method stores resolves weaker within fun ref => Or.imp_right (knows ref)
  | emit targets writes refers =>
    exact .emit (fun label member => weaker label (targets label member)) writes
      fun ref member => knows ref (refers ref member)
  | fresh _ nextHypothesis =>
    refine .fresh fun label =>
      nextHypothesis label ?_ ((List.subperm_append_right _).mpr within) knows
    rintro other (same | otherAllowed)
    · exact .inl same
    · exact .inr (weaker other otherAllowed)
  | mark labelAllowed member => exact .mark (weaker _ labelAllowed) (within.subset member)
  | allocate name type => exact .allocate name type
  | takeClass unseen quiet => exact .takeClass unseen quiet
  | log level text => exact .log level text

/-- A step that binds only labels of its own. -/
theorem closed (plain : PlainTo writable basis allowed [] refs step) :
    PlainTo writable basis allowed bound refs step :=
  plain.mono (fun _ holds => holds) List.nil_subperm fun _ holds => holds

/-- It does not hurt to know more. -/
theorem knowing (plain : PlainTo writable basis allowed bound refs step) (more : List Reference) :
    PlainTo writable (basis.knowing more) allowed bound refs step :=
  plain.mono (fun _ holds => holds) (List.Subperm.refl _) fun _ => .inr

/-- All labels are left for the second step, which knows what the first one returns. -/
theorem bindKnown
    {first : Emit α} {next : α → Emit β}
    (firstPlain : PlainTo writable basis allowed [] refs first)
    (nextPlain : ∀ value,
      PlainTo writable (basis.knowing (refs value)) allowed bound refs' (next value)) :
    PlainTo writable basis allowed bound refs' (first >>= next) :=
  .bindTo firstPlain nextPlain (List.Subperm.refl _)

/-- What the value of the first step refers to does not matter. -/
theorem andThen
    {first : Emit α} {next : α → Emit β}
    (firstPlain : PlainTo writable basis allowed [] refs first)
    (nextPlain : ∀ value, PlainTo writable basis allowed bound refs' (next value)) :
    PlainTo writable basis allowed bound refs' (first >>= next) :=
  .bindKnown firstPlain fun value => (nextPlain value).knowing _

theorem bind
    {first : Emit α} {next : α → Emit β}
    (firstPlain : Plain writable basis allowed [] first)
    (nextPlain : ∀ value, PlainTo writable basis allowed bound refs' (next value)) :
    PlainTo writable basis allowed bound refs' (first >>= next) :=
  .andThen firstPlain nextPlain

theorem seq
    {first : Emit Unit} {next : Emit β}
    (firstPlain : Plain writable basis allowed [] first)
    (nextPlain : PlainTo writable basis allowed bound refs' next) :
    PlainTo writable basis allowed bound refs' (first >>= fun _ => next) :=
  .bind firstPlain fun _ => nextPlain

theorem pure (value : α) : Plain writable basis allowed bound (pure value : Emit α) :=
  .pureTo nofun

/-- The failure tells of nothing that generation takes care of. -/
theorem fail
    {error : Error}
    (proper : (error.breaksBookkeeping || error.missesCase || error.exceedsRoom ||
      error.breaksLink) = false) :
    PlainTo writable basis allowed bound refs (MonadExcept.throw error : Emit α) := by
  rw [Bool.or_eq_false_iff] at proper
  exact .throw proper.1 fun _ => proper.2

/-- The state is read, and what is in it does not matter. -/
theorem looking
    {next : MethodContext → Emit β}
    (unseen : ∀ method code, next { method with code } = next method)
    (nextPlain : ∀ method, PlainTo writable basis allowed bound refs' (next method)) :
    PlainTo writable basis allowed bound refs' (method >>= next) :=
  .reading unseen fun method _ _ => (nextPlain method).knowing _

/-- A label is bound, and the others are left for the steps that follow. -/
theorem marked
    {next : Emit β}
    (labelAllowed : allowed label)
    (nextPlain : PlainTo writable basis allowed bound refs' next) :
    PlainTo writable basis allowed (label :: bound) refs' (Emit.mark label >>= fun _ => next) :=
  .bindTo (.mark labelAllowed (List.mem_singleton.mpr rfl)) (fun _ => nextPlain.knowing _)
    (List.Subperm.refl _)

theorem markOne (labelAllowed : allowed label) :
    Plain writable basis allowed [label] (Emit.mark label) :=
  .mark labelAllowed (List.mem_singleton.mpr rfl)

theorem newLabel : Plain writable basis allowed bound Emit.newLabel := by
  rw [← bind_pure Emit.newLabel]
  exact .fresh fun label => .pure label

/-- Steps for the values of a list follow each other. -/
theorem forM {step : α → Emit Unit} (values : List α)
    (stepPlain : ∀ value ∈ values, Plain writable basis allowed [] (step value)) :
    Plain writable basis allowed bound (values.forM step) := by
  induction values with
  | nil => exact .pure ()
  | cons value values ih =>
    rw [List.forall_mem_cons] at stepPlain
    exact .seq stepPlain.1 (ih stepPlain.2)

theorem optionForM {step : α → Emit Unit} (value : Option α)
    (stepPlain : ∀ found ∈ value, Plain writable basis allowed bound (step found)) :
    Plain writable basis allowed bound (value.forM step) := by
  cases value with
  | none => exact .pure ()
  | some found => exact stepPlain found rfl

theorem mapM {step : α → Emit β} (values : List α)
    (stepPlain : ∀ value ∈ values, Plain writable basis allowed [] (step value)) :
    Plain writable basis allowed bound (values.mapM step) := by
  refine closed ?_
  induction values with
  | nil => exact .pure []
  | cons value values ih =>
    rw [List.forall_mem_cons] at stepPlain
    rw [List.mapM_cons]
    exact .bind stepPlain.1 fun _ => .bind (ih stepPlain.2) fun _ => .pure _

theorem ite {condition : Prop} [Decidable condition] {other : Emit α}
    (stepPlain : condition → PlainTo writable basis allowed bound refs step)
    (otherPlain : ¬condition → PlainTo writable basis allowed bound refs other) :
    PlainTo writable basis allowed bound refs (if condition then step else other) :=
  iteInduction stepPlain otherPlain

/-- An instruction without targets that writes no field. -/
theorem quiet
    {instruction : Instruction}
    (targets : instruction.targets = [])
    (writes : ∀ field, instruction ≠ .putField field)
    (refers : ∀ ref ∈ instruction.references, basis.known ref) :
    Plain writable basis allowed bound (Emit.emit instruction) :=
  .emit (by simp [targets]) (fun field written => (writes field written).elim) refers

/-! ## Instructions -/

theorem op (opcode : Opcode) : Plain writable basis allowed bound (Emit.op opcode) :=
  .quiet rfl nofun nofun

theorem push (value : Const) : Plain writable basis allowed bound (push value) :=
  .quiet rfl nofun nofun

theorem load (kind : ValueKind) (slot : Nat) :
    Plain writable basis allowed bound (load kind slot) := .quiet rfl nofun nofun

theorem store (kind : ValueKind) (slot : Nat) :
    Plain writable basis allowed bound (store kind slot) := .quiet rfl nofun nofun

theorem jump (op : Opcode) {target : Label} (targetAllowed : allowed target) :
    Plain writable basis allowed bound (jump op target) :=
  .emit (by simpa [Instruction.targets]) nofun nofun

theorem goto {target : Label} (targetAllowed : allowed target) :
    Plain writable basis allowed bound (goto target) := jump .goto targetAllowed

theorem invoke {method : MethodRef} (found : basis.known (.method method)) :
    Plain writable basis allowed bound (invoke method) :=
  .quiet rfl nofun fun _ member => List.mem_singleton.mp member ▸ found

theorem getField (found : basis.known (.field field)) :
    Plain writable basis allowed bound (getField field) :=
  .quiet rfl nofun fun _ member => List.mem_singleton.mp member ▸ found

theorem putField
    (found : basis.known (.field field))
    (fieldWritable : field.isStatic = false → writable field) :
    Plain writable basis allowed bound (putField field) := by
  refine .emit (by simp [Instruction.targets]) ?_ fun _ member =>
    List.mem_singleton.mp member ▸ found
  rintro _ ⟨⟩
  exact fieldWritable

theorem checkCast (type : Erased) : Plain writable basis allowed bound (checkCast type) :=
  .quiet rfl nofun nofun

theorem newObject
    {className : String}
    (found : basis.known (.object className))
    (constructs : basis.known (.method (Library.constructor className))) :
    Plain writable basis allowed bound (newObject className) := by
  refine .seq (.quiet rfl nofun ?_) (.seq (op .dup) (invoke constructs))
  exact fun _ member => List.mem_singleton.mp member ▸ found

theorem dropKind (kind : ValueKind) : Plain writable basis allowed bound (dropKind kind) := by
  unfold Emit.dropKind
  cases kind.width with
  | zero => exact .pure ()
  | succ width => cases width <;> exact op _

theorem pushZero (kind : ValueKind) : Plain writable basis allowed bound (pushZero kind) := by
  cases kind with
  | long | float | double => exact push _
  | reference | int | void => exact op _

theorem newTemp (type : Ty) : Plain writable basis allowed bound (newTemp type) :=
  .allocate none type

/-! ## Storage of locals -/

theorem loadPath
    {path : List FieldRef} (holder : Holder)
    (refers : ∀ field ∈ path, basis.known (.field field)) :
    Plain writable basis allowed bound (loadPath holder path) := by
  have fields : Plain writable basis allowed bound (path.forM Emit.getField) :=
    forM path fun field member => getField (refers field member)
  cases holder with
  | self => exact .seq (load .reference 0) fields
  | slot slot => exact .seq (load .reference slot) fields

/-- The fields of an access are known from the method. -/
theorem accessOf (id : LocalId) (span : Span) :
    PlainTo writable basis allowed bound LocalAccess.references (accessOf id span) := by
  refine .reading (fun _ _ => rfl) fun method _ _ => ?_
  cases found : method.locals.lookup id with
  | some access =>
    exact .pureTo fun ref member =>
      .inl (MethodContext.mem_references_of_access found ref member)
  | none => exact .fail rfl

theorem loadLocal (id : LocalId) (span : Span) :
    Plain writable basis allowed bound (loadLocal id span) := by
  refine .bindKnown (accessOf id span) fun access => ?_
  cases access with
  | slot slot kind => exact load kind slot
  | captured holder path =>
    exact loadPath holder fun field member => .inl (List.mem_map_of_mem member)

/-- A field is set through the fields that lead to it. -/
theorem storeThrough
    {path : List FieldRef} (holder : Holder)
    (refers : ∀ field ∈ path, basis.known (.field field))
    (found : basis.known (.field field))
    (fieldWritable : writable field)
    (type : Ty) :
    Plain writable basis allowed bound (storeThrough holder path field type) := by
  have write : Plain writable basis allowed bound (Emit.putField field) :=
    putField found fun _ => fieldWritable
  refine ite (fun _ => .seq (loadPath holder refers) (.seq (op .swap) write)) fun _ => ?_
  refine .bind (newTemp type) fun temp => ?_
  exact .seq (store _ temp) (.seq (loadPath holder refers) (.seq (load _ temp) write))

/-- A captured local is stored to the last field on the way to it. -/
theorem storeLocal (id : LocalId) (type : Ty) (span : Span) :
    Plain writable basis allowed bound (storeLocal id type span) := by
  simp only [Emit.storeLocal, Emit.accessOf, bind_assoc]
  refine .reading (fun _ _ => rfl) fun method stores _ => ?_
  cases found : method.locals.lookup id with
  | none => exact .fail rfl
  | some access =>
    have refers := MethodContext.mem_references_of_access found
    cases access with
    | slot slot kind => exact store kind slot
    | captured holder path =>
      rw [pure_bind]
      dsimp only
      split
      · next field last =>
        have reached : ∀ other ∈ path, Reference.field other ∈ method.references :=
          fun other member => refers _ (List.mem_map_of_mem member)
        refine storeThrough holder ?_ ?_ (stores id holder path field found last) type
        · exact fun other member => .inl (reached other (List.mem_of_mem_dropLast member))
        · exact .inl (reached field (List.mem_of_getLast? last))
      · exact .fail rfl

theorem loadSelf : Plain writable basis allowed bound loadSelf := by
  refine .reading (fun _ _ => rfl) fun method _ _ =>
    loadPath .self fun field member => .inl ?_
  have listed : Reference.field field ∈ method.selfPath.map Reference.field :=
    List.mem_map_of_mem member
  simp only [MethodContext.references, List.mem_append]
  tauto

/-! ## Parts of expressions -/

theorem pushLiteral (value : Const) : Plain writable basis allowed bound (pushLiteral value) := by
  cases value with
  | boolean value => cases value <;> exact op _
  | null => exact op _
  | _ => exact push _

theorem convert
    {conversion : Conversion} (source : Ty)
    (refers : ∀ ref ∈ conversion.mentions, basis.known ref) :
    Plain writable basis allowed bound (convert source conversion) := by
  cases conversion with
  | box method => exact invoke (refers _ (List.mem_singleton_self _))
  | unbox method => exact invoke (refers _ (List.mem_singleton_self _))
  | cast target => exact ite (fun _ => checkCast _) fun _ => forM _ fun opcode _ => op opcode

theorem applyUnary (kind : ValueKind) (operator : UnaryOp) :
    Plain writable basis allowed bound (applyUnary kind operator) := by
  cases operator with
  | plus => exact .pure ()
  | neg => cases kind <;> exact op _
  | bitNot => cases kind <;> exact .seq (push _) (op _)
  | not => exact .seq (op _) (op _)

/-- Operands are pushed and compared. -/
theorem compare
    (operator : BinaryOp) (left right : Expr) {pushLeft pushRight : Emit Unit}
    (leftPlain : Plain writable basis allowed [] pushLeft)
    (rightPlain : Plain writable basis allowed [] pushRight) :
    Plain writable basis allowed bound (compare operator left right pushLeft pushRight) := by
  unfold Emit.compare
  split
  · exact .seq leftPlain (ite (fun _ => .pure _) fun _ => .seq rightPlain (.pure _))
  · refine .seq leftPlain (.seq rightPlain ?_)
    split
    · exact .seq (op _) (.pure _)
    · exact .pure _

/-- What a condition jumps to is one of its targets. -/
theorem branchOn
    (opcode : Opcode)
    (whenTrue : allowed targets.whenTrue)
    (whenFalse : allowed targets.whenFalse) :
    Plain writable basis allowed bound (branchOn opcode targets) := by
  refine ite (fun _ => ?_) fun _ => jump opcode whenTrue
  cases opcode.negate? with
  | some negated => exact jump negated whenFalse
  | none => exact .fail rfl

theorem branchKnown
    (value : Bool)
    (whenTrue : allowed targets.whenTrue)
    (whenFalse : allowed targets.whenFalse) :
    Plain writable basis allowed bound (branchKnown value targets) := by
  unfold Emit.branchKnown
  cases value <;> cases targets.fallsTrue
  · exact .pure ()
  · exact goto whenFalse
  · exact goto whenTrue
  · exact .pure ()

/-- A condition is plain if it goes to its two targets only. -/
def Condition
    (writable : FieldRef → Prop)
    (basis : Basis)
    (condition : BranchTargets → Emit Unit) :
    Prop :=
  ∀ {allowed : Label → Prop} {bound : List Label} {targets : BranchTargets},
    allowed targets.whenTrue → allowed targets.whenFalse →
      Plain writable basis allowed bound (condition targets)

theorem materialize
    {condition : BranchTargets → Emit Unit}
    (test : Condition writable basis condition) :
    Plain writable basis allowed bound (materialize condition) := by
  refine closed (.fresh fun whenTrue => .fresh fun whenFalse => .fresh fun done => ?_)
  refine .seq (test (by simp) (by simp)) (.marked (by simp) (.seq (op _) ?_))
  exact .seq (goto (by simp)) (.marked (by simp) (.seq (op _) (.markOne (by simp))))

theorem applyBinary (info : ExprInfo) (operator : BinaryOp) (left : Expr) :
    Plain writable basis allowed bound (applyBinary info operator left) := by
  simp only [Emit.applyBinary]
  cases arithmetic? operator (if operator.isShift then left.type.kind else info.type.kind) with
  | some opcode => exact op opcode
  | none => exact .fail rfl

theorem duplicate (type : Ty) : Plain writable basis allowed bound (duplicate type) :=
  ite (fun _ => op _) fun _ => op _

/-- A compiled lambda is found, and so is its method. -/
theorem createClosure
    {function : Lambda}
    (compiled : ∀ found ∈ basis.targets, (found.lookup function.id).isSome)
    (interface : basis.known (.method function.interface)) :
    Plain writable basis allowed bound (createClosure function) := by
  simp only [Emit.createClosure, lambdaTarget?, bind_assoc, pure_bind]
  refine .reading (fun _ _ => rfl) fun method _ resolves => ?_
  cases listed : method.lambdas.lookup function.id with
  | none =>
    refine .throw rfl fun known => ?_
    obtain ⟨found, known⟩ := Option.isSome_iff_exists.mp known
    have missed := compiled found known
    rw [← (resolves found known).lambdas, listed] at missed
    exact nomatch missed
  | some target =>
    refine .seq (optionForM _ fun slot _ => load .reference slot) (.quiet rfl nofun ?_)
    intro ref member
    obtain rfl | rfl : ref = .method target.method ∨ ref = .method function.interface := by
      simpa [Instruction.references] using member
    · refine .inl ?_
      have made : Reference.method target.method ∈
          method.lambdas.map fun entry => Reference.method entry.2.method :=
        List.mem_map.mpr ⟨(function.id, target), mem_of_lookup listed, rfl⟩
      simp only [MethodContext.references, List.mem_append]
      tauto
    · exact .inr interface

theorem pushKnown
    (info : ExprInfo) {compute : Emit Unit}
    (computePlain : Plain writable basis allowed bound compute) :
    Plain writable basis allowed bound (pushKnown info compute) := by
  unfold Emit.pushKnown
  cases info.constant with
  | some value => exact pushLiteral value
  | none => exact computePlain

theorem applyConversion
    {info : ExprInfo}
    (converts : ∀ ref ∈ info.conversion.toList.flatMap Conversion.mentions, basis.known ref) :
    Plain writable basis allowed bound (applyConversion info) := by
  refine optionForM _ fun conversion found =>
    convert info.type fun ref member => converts ref ?_
  exact List.mem_flatMap.mpr ⟨conversion, Option.mem_toList.mpr found, member⟩

end PlainTo

/-! ## Expressions -/

/-- The code of an expression is plain in both modes. -/
structure ExprCode.IsPlain
    (writable : FieldRef → Prop)
    (basis : Basis)
    (code : ExprCode) :
    Prop where
  /-- Pushing the value uses no labels from outside. -/
  value : ∀ {allowed bound}, Plain writable basis allowed bound code.value
  /-- Branching goes to the two targets. -/
  branch : PlainTo.Condition writable basis code.branch

namespace ExprCode.IsPlain

variable {writable : FieldRef → Prop} {basis : Basis} {code left right : ExprCode}

/-- A condition that is known goes to one of its targets. -/
theorem known
    (info : ExprInfo) {test : BranchTargets → Emit Unit}
    (plain : PlainTo.Condition writable basis test) :
    PlainTo.Condition writable basis (ExprCode.known info test) := by
  intro allowed bound targets whenTrue whenFalse
  unfold ExprCode.known
  cases info.constant.bind Const.bool? with
  | some value => exact .branchKnown value whenTrue whenFalse
  | none => exact plain whenTrue whenFalse

theorem ofValue
    (info : ExprInfo) {value : Emit Unit}
    (plain : ∀ {allowed bound}, Plain writable basis allowed bound value) :
    (ExprCode.ofValue info value).IsPlain writable basis where
  value := plain
  branch := known info fun whenTrue whenFalse => .seq plain (.branchOn _ whenTrue whenFalse)

section

variable {info : ExprInfo}
variable (converts : ∀ ref ∈ info.conversion.toList.flatMap Conversion.mentions, basis.known ref)
include converts

theorem ofTest
    {test : BranchTargets → Emit Unit}
    (plain : PlainTo.Condition writable basis test) :
    (ExprCode.ofTest info test).IsPlain writable basis where
  value := .seq (.pushKnown info (.materialize plain)) (.applyConversion converts)
  branch := known info plain

/-- A unary operator pushes or branches. -/
theorem unary (operator : UnaryOp) (operand : code.IsPlain writable basis) :
    (ExprCode.unary info operator code).IsPlain writable basis := by
  have value : ∀ {allowed bound}, Plain writable basis allowed bound (do
      pushKnown info do
        code.value
        applyUnary info.type.kind operator
      applyConversion info) :=
    .seq (.pushKnown info (.seq operand.value (.applyUnary _ _))) (.applyConversion converts)
  cases operator with
  | not => exact ⟨value, known info fun whenTrue whenFalse => operand.branch whenFalse whenTrue⟩
  | plus | neg | bitNot => exact ofValue info value

theorem operation
    (operator : BinaryOp) (leftExpr : Expr)
    (leftPlain : left.IsPlain writable basis)
    (rightPlain : right.IsPlain writable basis) :
    (ExprCode.operation info operator leftExpr left right).IsPlain writable basis := by
  refine ofValue info (.seq (.pushKnown info (.ite (fun _ => .fail rfl) fun _ => ?_)) ?_)
  · exact .seq leftPlain.value (.seq rightPlain.value (.applyBinary info operator leftExpr))
  · exact .applyConversion converts

theorem comparison
    (operator : BinaryOp) (leftExpr rightExpr : Expr)
    (leftPlain : left.IsPlain writable basis)
    (rightPlain : right.IsPlain writable basis) :
    (ExprCode.comparison info operator leftExpr rightExpr left right).IsPlain writable basis := by
  refine ofTest converts fun whenTrue whenFalse => ?_
  refine .bind (.compare operator leftExpr rightExpr leftPlain.value rightPlain.value) ?_
  exact fun opcode => .branchOn opcode whenTrue whenFalse

/-- A binary operator evaluates both operands, or only one. -/
theorem binary
    (operator : BinaryOp) (leftExpr rightExpr : Expr)
    (leftPlain : left.IsPlain writable basis)
    (rightPlain : right.IsPlain writable basis) :
    (ExprCode.binary info operator leftExpr rightExpr left right).IsPlain writable basis := by
  unfold ExprCode.binary
  split
  · exact ofTest converts fun whenTrue whenFalse =>
      .seq (leftPlain.branch whenTrue whenFalse) (rightPlain.branch whenTrue whenFalse)
  · exact ofTest converts fun whenTrue whenFalse =>
      .seq (leftPlain.branch whenTrue whenFalse) (rightPlain.branch whenTrue whenFalse)
  · split
    · exact comparison converts _ leftExpr rightExpr leftPlain rightPlain
    · exact operation converts _ leftExpr leftPlain rightPlain

end

end ExprCode.IsPlain

section

variable {writable : FieldRef → Prop} {basis : Basis}

mutual

/-- The code of every expression is plain, and it refers to what the expression mentions. -/
theorem exprCode_isPlain : (expr : Expr) → Reads basis (expr.visits false) →
    (exprCode expr).IsPlain writable basis
  | .literal info value, reads => by
    simp only [Expr.visits, Reads.expr_iff, Expr.mentions, List.forall_mem_append] at reads
    exact .ofValue info (.seq (.pushKnown info (.pushLiteral value)) (.applyConversion reads.1.1))
  | .localVar info id, reads => by
    simp only [Expr.visits, Reads.expr_iff, Expr.mentions, List.forall_mem_append] at reads
    refine .ofValue info (.seq (.pushKnown info ?_) (.applyConversion reads.1.1))
    exact .loadLocal id info.span
  | .self info, reads => by
    simp only [Expr.visits, Reads.expr_iff, Expr.mentions, List.forall_mem_append] at reads
    exact .ofValue info (.seq (.pushKnown info .loadSelf) (.applyConversion reads.1.1))
  | .assign info target value, reads => by
    simp only [Expr.visits, Reads.expr_iff] at reads
    refine .ofValue info (.seq (exprCode_isPlain value reads.2).value ?_)
    exact .seq (.duplicate _) (.storeLocal target _ _)
  | .unary info operator operand, reads => by
    simp only [Expr.visits, Reads.expr_iff, Expr.mentions, List.forall_mem_append] at reads
    exact .unary reads.1.1 operator (exprCode_isPlain operand reads.2)
  | .binary info operator left right, reads => by
    simp only [Expr.visits, Reads.append_iff, Reads.expr_iff, Expr.mentions,
      List.forall_mem_append] at reads
    exact .binary reads.1.1.1 operator left right (exprCode_isPlain left reads.1.2)
      (exprCode_isPlain right reads.2)
  | .call info receiver method args, reads => by
    simp only [Expr.visits, Reads.append_iff, Reads.expr_iff, Expr.mentions,
      List.forall_mem_append] at reads
    obtain ⟨⟨⟨conversion, called⟩, receiverReads⟩, argsReads⟩ := reads
    refine .ofValue info fun {allowed bound} => ?_
    have call : Plain writable basis allowed bound (do
        listCode args
        invoke method
        applyConversion info) :=
      .seq (listCode_plain args argsReads)
        (.seq (.invoke (called _ (List.mem_singleton_self _))) (.applyConversion conversion))
    exact .ite (fun _ => .seq (optionCode_plain receiver receiverReads) call) fun _ => call
  | .field info receiver field, reads => by
    simp only [Expr.visits, Reads.expr_iff, Expr.mentions, List.forall_mem_append] at reads
    obtain ⟨⟨conversion, accessed⟩, receiverReads⟩ := reads
    refine .ofValue info (.seq (.pushKnown info (.ite (fun _ => ?_) fun _ => ?_))
      (.applyConversion conversion))
    · refine .seq (optionCode_plain receiver receiverReads) (.getField ?_)
      exact accessed _ (List.mem_singleton_self _)
    · exact .getField (accessed _ (List.mem_singleton_self _))
  | .new info constructor args, reads => by
    simp only [Expr.visits, Reads.expr_iff, Expr.mentions, List.forall_mem_append] at reads
    obtain ⟨⟨conversion, constructs⟩, argsReads⟩ := reads
    refine .ofValue info (.seq (.quiet rfl nofun ?_) (.seq (.op _) ?_))
    · exact fun ref member =>
        constructs ref (List.mem_cons.mpr (.inl (List.mem_singleton.mp member)))
    · refine .seq (listCode_plain args argsReads) (.seq (.invoke ?_) (.applyConversion conversion))
      exact constructs _ (List.mem_cons_of_mem _ (List.mem_singleton_self _))
  | .lambda info function, reads => by
    simp only [Expr.visits, Reads.lambda_iff, Reads.expr_iff, Expr.mentions,
      List.forall_mem_append] at reads
    obtain ⟨⟨conversion, implements⟩, compiled, -⟩ := reads
    refine .ofValue info (.seq (.createClosure compiled ?_) (.applyConversion conversion))
    exact implements _ (List.mem_singleton_self _)

theorem optionCode_plain {allowed : Label → Prop} {bound : List Label} :
    (receiver : Option Expr) → Reads basis (Expr.optionVisits false receiver) →
      Plain writable basis allowed bound (pushReceiver (optionCode receiver))
  | none, _ => .loadSelf
  | some expr, reads => (exprCode_isPlain expr reads).value

theorem listCode_plain {allowed : Label → Prop} {bound : List Label} :
    (exprs : List Expr) → Reads basis (Expr.listVisits false exprs) →
      Plain writable basis allowed bound (listCode exprs)
  | [], _ => .pure ()
  | expr :: exprs, reads => by
    rw [Expr.listVisits, Reads.append_iff] at reads
    exact .seq (exprCode_isPlain expr reads.1).value (listCode_plain exprs reads.2)

end

end

namespace PlainTo

variable {writable : FieldRef → Prop} {basis : Basis}
variable {allowed : Label → Prop} {bound : List Label} {refs : α → List Reference}
variable {starts : List Label} {default : Label} {selector : Expr} {dispose : MethodRef}

/-- The value of an expression is pushed without labels from outside. -/
theorem pushValue {expr : Expr} (reads : Reads basis (expr.visits false)) :
    Plain writable basis allowed bound (pushValue expr) := (exprCode_isPlain expr reads).value

/-- A condition goes to its two targets. -/
theorem branch
    {condition : Expr}
    (reads : Reads basis (condition.visits false))
    (whenTrue : allowed targets.whenTrue)
    (whenFalse : allowed targets.whenFalse) :
    Plain writable basis allowed bound (branch condition targets) :=
  (exprCode_isPlain condition reads).branch whenTrue whenFalse

theorem evaluate {expr : Expr} (reads : Reads basis (expr.visits false)) :
    Plain writable basis allowed bound (evaluate expr) := by
  cases expr with
  | assign info target value =>
    simp only [Expr.visits, Reads.expr_iff] at reads
    exact .seq (pushValue reads.2) (storeLocal target _ _)
  | _ => exact .seq (pushValue reads) (dropKind _)

/-! ## Parts of statements -/

theorem disposeResource (slot : Nat) (found : basis.known (.method dispose)) :
    Plain writable basis allowed bound (disposeResource slot dispose) := by
  refine closed (.fresh fun skip => .seq (load _ slot) (.seq (jump _ (by simp)) ?_))
  exact .seq (load _ slot) (.seq (invoke found) (.markOne (by simp)))

theorem disposeIterator (slot : Nat) (found : basis.known (.method dispose)) :
    Plain writable basis allowed bound (disposeIterator slot dispose) :=
  .seq (load _ slot) (invoke found)

theorem exitMonitor (slot : Nat) : Plain writable basis allowed bound (exitMonitor slot) :=
  .seq (load _ slot) (op _)

theorem lowerThrow
    {exception : Option Expr} (span : Span)
    (reads : ∀ found ∈ exception, Reads basis (found.visits false)) :
    Plain writable basis allowed bound (lowerThrow span exception) := by
  cases exception with
  | some exception => exact .seq (pushValue (reads exception rfl)) (op _)
  | none =>
    refine .bind (.looking (fun _ _ => rfl) fun _ => .pure _) fun slot => ?_
    cases slot with
    | some slot => exact .seq (load _ slot) (op _)
    | none => exact .fail rfl

theorem targetOf (stmt : Stmt) : Plain writable basis allowed bound (targetOf stmt) := by
  unfold Emit.targetOf
  cases stmt.target? with
  | some target => exact .pure target
  | none => exact .fail rfl

/-- Reading the label of a case does not depend on the state. -/
theorem caseValue_eq (read : Const → Option α) (label : Expr) :
    (∃ value, Emit.caseValue read label = Pure.pure value) ∨
      Emit.caseValue read label = MonadExcept.throw (.nonConstantCaseLabel label.span) := by
  unfold Emit.caseValue caseConstant
  cases label.constant? with
  | none => exact .inr rfl
  | some constant =>
    rw [pure_bind]
    cases read constant with
    | none => exact .inr rfl
    | some value => exact .inl ⟨value, rfl⟩

theorem caseValue (read : Const → Option α) (label : Expr) :
    Plain writable basis allowed bound (caseValue read label) := by
  obtain ⟨value, same⟩ | same := caseValue_eq read label
  · exact same ▸ .pure value
  · exact same ▸ .fail rfl

theorem caseMap (sections : List Section) (starts : List Label) :
    Plain writable basis allowed bound (caseMap sections starts) := by
  refine .bind (mapM _ fun entry _ => ?_) fun _ => .pure _
  split
  · exact .pure _
  · exact .bind (caseValue _ _) fun _ => .pure _

/-- The sections of a switch begin where their labels say. -/
theorem mem_of_mem_labeledSections
    {sections : List Section} {entry : Option Expr × Label}
    (member : entry ∈ labeledSections sections starts) :
    entry.2 ∈ starts := by
  obtain ⟨pair, pairMember, entryMember⟩ := List.mem_flatMap.mp member
  obtain ⟨label, -, rfl⟩ := List.mem_map.mp entryMember
  exact (List.of_mem_zip pairMember).2

/-- If no step depends on the state, nor do they all together. -/
theorem mapM_eq
    {step : α → Emit β} {next : List β → Emit γ} {values : List α} (holds : β → Prop)
    (each : ∀ value ∈ values, (∃ result, step value = Pure.pure result ∧ holds result) ∨
      ∃ span, step value = MonadExcept.throw (.nonConstantCaseLabel span)) :
    (∃ results, values.mapM step >>= next = next results ∧ ∀ result ∈ results, holds result) ∨
      ∃ span, values.mapM step >>= next = MonadExcept.throw (.nonConstantCaseLabel span) := by
  induction values generalizing next with
  | nil => exact .inl ⟨[], rfl, List.forall_mem_nil _⟩
  | cons value values ih =>
    rw [List.forall_mem_cons] at each
    simp only [List.mapM_cons, bind_assoc, pure_bind]
    obtain ⟨result, same, fine⟩ | ⟨span, same⟩ := each.1
    · rw [same, pure_bind]
      refine Or.imp_left ?_ (ih each.2)
      rintro ⟨results, same, allFine⟩
      exact ⟨result :: results, same, List.forall_mem_cons.mpr ⟨fine, allFine⟩⟩
    · exact .inr ⟨span, by rw [same]; rfl⟩

/-- The keys of a switch do not depend on the state, and their labels are starts of sections. -/
theorem integralPairs_eq (sections : List Section) (starts : List Label) :
    (∃ pairs, Emit.integralPairs sections starts = Pure.pure pairs ∧
      ∀ pair ∈ pairs, pair.2 ∈ starts) ∨
    ∃ span, Emit.integralPairs sections starts =
      MonadExcept.throw (.nonConstantCaseLabel span) := by
  let inside (key : Option (Int32 × Label)) : Prop := ∀ pair ∈ key, pair.2 ∈ starts
  refine Or.imp_left ?_ (mapM_eq inside fun entry member => ?_)
  · rintro ⟨keys, same, fine⟩
    refine ⟨_, same, fun pair member => ?_⟩
    obtain ⟨key, keyMember, found⟩ := List.mem_filterMap.mp member
    exact fine key keyMember pair found
  · obtain ⟨label, start⟩ := entry
    cases label with
    | none => exact .inl ⟨none, rfl, nofun⟩
    | some label =>
      obtain ⟨key, same⟩ | same := caseValue_eq Const.switchKey? label
      · refine .inl ⟨some (key, start), by simp only [same, pure_bind], ?_⟩
        rintro _ ⟨⟩
        exact mem_of_mem_labeledSections member
      · exact .inr ⟨label.span, by simp only [same]; rfl⟩

/-- A dispatch goes to the default or to the label of some pair. -/
theorem mem_targets_dispatch
    {pairs : List (Int32 × Label)}
    (member : label ∈ (Emit.dispatch pairs default).targets) :
    label = default ∨ label ∈ pairs.map Prod.snd := by
  have sorted : ∀ sorted : List (Int32 × Label), label ∈ (dispatchSorted sorted default).targets →
      label = default ∨ label ∈ sorted.map Prod.snd := by
    intro sorted
    unfold dispatchSorted
    split
    · split <;> simp [Instruction.targets]
    · simp [Instruction.targets]
  obtain same | found := sorted _ member
  · exact .inl same
  · exact .inr (by simpa using found)

/-- A dispatch neither writes a field nor refers to anything. -/
theorem dispatch_quiet (pairs : List (Int32 × Label)) (default : Label) :
    (∀ field, Emit.dispatch pairs default ≠ .putField field) ∧
      (Emit.dispatch pairs default).references = [] := by
  unfold Emit.dispatch dispatchSorted
  split
  · split <;> exact ⟨nofun, rfl⟩
  · exact ⟨nofun, rfl⟩

/-- Dispatching goes to sections and to the default only. -/
theorem dispatch
    (sections : List Section)
    (startsAllowed : ∀ start ∈ starts, allowed start)
    (defaultAllowed : allowed default) :
    Plain writable basis allowed bound (do
      Emit.emit (Emit.dispatch (← Emit.integralPairs sections starts) default)) := by
  obtain ⟨pairs, read, inside⟩ | ⟨span, failed⟩ := integralPairs_eq sections starts
  · obtain ⟨unwritten, silent⟩ := dispatch_quiet pairs default
    rw [read, pure_bind]
    refine .emit ?_ (fun field written => (unwritten field written).elim) (by simp [silent])
    intro label member
    obtain rfl | found := mem_targets_dispatch member
    · exact defaultAllowed
    · obtain ⟨pair, pairMember, rfl⟩ := List.mem_map.mp found
      exact startsAllowed _ (inside pair pairMember)
  · rw [failed]
    exact .fail rfl

section Library

variable (library : Library.KnownTo basis.known)
include library

/-- The cases of a section are tested one after the other. -/
theorem testSection
    (slot : Nat) (labels : List Expr) {start : Label}
    (startAllowed : allowed start) :
    Plain writable basis allowed bound (testSection slot labels start) := by
  have equals := library (.method Library.stringEquals) (by simp [Library.members])
  have tests : Plain writable basis allowed [] (labels.zipIdx.forM fun entry => do
      Emit.push (.string (← Emit.caseValue Const.string? entry.1))
      loadRef slot
      Emit.invoke Library.stringEquals
      if 0 < entry.2 then Emit.op .ior) := by
    refine forM _ fun entry _ => .bind (caseValue _ _) fun _ =>
      .seq (push _) (.seq (load _ slot) ?_)
    exact .seq (invoke equals) (ite (fun _ => op _) fun _ => .pure ())
  exact .seq tests (ite (fun _ => jump _ startAllowed) fun _ => .pure ())

/-- Sections are tested one after the other. -/
theorem dispatchByTests
    (reads : Reads basis (selector.visits false))
    (sections : List Section)
    (startsAllowed : ∀ start ∈ starts, allowed start)
    (defaultAllowed : allowed default) :
    Plain writable basis allowed bound (dispatchByTests selector sections starts default) := by
  refine .seq (pushValue reads) (.bind (newTemp _) fun slot => .seq (store _ slot) ?_)
  refine .seq (forM _ fun entry member => testSection library slot _ ?_) (goto defaultAllowed)
  exact startsAllowed _ (List.of_mem_zip member).2

/-- The map from cases to sections is kept in a static field. -/
theorem buildMap
    (found : basis.known (.field field))
    (fieldStatic : field.isStatic = true)
    (sections : List Section) :
    Plain writable basis allowed bound (buildMap field sections) := by
  refine closed (.fresh fun ready => .seq (getField found) (.seq (jump _ (by simp)) ?_))
  have write : ∀ {allowed}, Plain writable basis allowed [] (Emit.putField field) :=
    putField found fun dynamic => by simp [fieldStatic] at dynamic
  refine .seq ?_ (.seq (forM _ fun entry _ => forM _ fun label _ => ?_)
    (.seq write (.markOne (by simp))))
  · exact newObject (library _ (by simp [Library.members])) (library _ (by simp [Library.members]))
  · refine .bind (caseValue _ _) fun _ => .seq (op _) (.seq (push _) (.seq (push _) ?_))
    refine .seq (invoke ?_) (.seq (invoke (library _ (by simp [Library.members]))) (op _))
    exact library _ (Library.mem_members_of_box (by rfl : Library.box? .int = _))

omit library in
/-- A map for a string switch is a static field of the class. -/
theorem newSwitchMap
    {next : FieldRef → Emit α}
    (nextPlain : ∀ field, field.isStatic = true →
      PlainTo writable (basis.knowing [.field field]) allowed bound refs (next field)) :
    PlainTo writable basis allowed bound refs
      (Emit.takeClass ClassContext.newSwitchMap >>= next) := by
  -- What is taken determines the field, which is static in any case.
  let numbered (cls : ClassContext) := ((cls.name, cls.switchMapCount), cls.newSwitchMap.2)
  let named (place : String × Nat) : FieldRef :=
    { owner := place.1
      name := "$switch$map$" ++ toString place.2
      type := .ofClass Library.hashMap
      isStatic := true }
  have taken : PlainTo writable basis allowed [] (fun place => [.field (named place)])
      (Emit.takeClass numbered) := by
    refine .takeClass (fun _ _ _ _ => rfl) fun cls => ⟨.newSwitchMap cls, fun ref member => ?_⟩
    obtain rfl := List.mem_singleton.mp member
    let made : FieldDef :=
      { name := "$switch$map$" ++ toString cls.switchMapCount
        type := .named Library.hashMap
        flags := AccessFlags.privateAccess ||| AccessFlags.static ||| AccessFlags.synthetic }
    have isStatic : ((AccessFlags.privateAccess ||| AccessFlags.static ||| AccessFlags.synthetic)
        &&& AccessFlags.static != 0) = true := by decide
    have answers : made.Answers cls.newSwitchMap.1 := ⟨rfl, rfl, isStatic⟩
    exact .field rfl (by simp [numbered, made, ClassContext.newSwitchMap]) answers
  exact taken.bindKnown fun place => nextPlain (named place) rfl

/-- The map is built on first use. -/
theorem dispatchByMap
    (reads : Reads basis (selector.visits false))
    (sections : List Section)
    (startsAllowed : ∀ start ∈ starts, allowed start)
    (defaultAllowed : allowed default) :
    Plain writable basis allowed bound (dispatchByMap selector sections starts default) := by
  refine closed (newSwitchMap fun field fieldStatic => ?_)
  have found : (basis.knowing [.field field]).known (.field field) :=
    .inl (List.mem_singleton_self _)
  have reads : Reads (basis.knowing [.field field]) _ := reads.mono fun _ => .inr
  have library : Library.KnownTo (basis.knowing [.field field]).known :=
    fun ref member => .inr (library ref member)
  refine .seq (.log _ _) (.seq (buildMap library found fieldStatic sections) ?_)
  refine .fresh fun _ => .fresh fun ready => .seq (getField found) (.seq (pushValue reads) ?_)
  refine .seq (invoke (library _ (by simp [Library.members]))) (.seq (op _) ?_)
  refine .seq (jump _ (by simp)) (.seq (op _) (.seq (push _) (.seq (goto (by simp)) ?_)))
  refine .marked (by simp) (.seq (checkCast _) (.seq (invoke ?_) (.marked (by simp) ?_)))
  · exact library _ (by simp [Library.members])
  · refine .emit (fun label member => .inr (.inr ?_)) nofun nofun
    have listed : label = default ∨ label ∈ starts := by
      simpa [Instruction.targets, or_comm] using member
    obtain rfl | start := listed
    · exact defaultAllowed
    · exact startsAllowed label start

/-- Dispatching goes to the sections and to the default. -/
theorem lowerDispatch
    {kind : SelectorKind}
    (reads : Reads basis (selector.visits false))
    (found : ∀ ordinal, kind = .enumeration ordinal → basis.known (.method ordinal))
    (sections : List Section)
    (startsAllowed : ∀ start ∈ starts, allowed start)
    (defaultAllowed : allowed default) :
    Plain writable basis allowed bound (lowerDispatch selector kind sections starts default) := by
  cases kind with
  | integral => exact .seq (pushValue reads) (dispatch sections startsAllowed defaultAllowed)
  | enumeration ordinal =>
    refine .seq (pushValue reads) (.seq (invoke (found ordinal rfl)) ?_)
    exact dispatch sections startsAllowed defaultAllowed
  | string =>
    refine ite (fun _ => ?_) fun _ => ?_
    · exact dispatchByTests library reads sections startsAllowed defaultAllowed
    · exact dispatchByMap library reads sections startsAllowed defaultAllowed

end Library

theorem gotoKey (key : Option Expr) : Plain writable basis allowed bound (gotoKey key) := by
  unfold Emit.gotoKey
  split
  · exact .pure _
  · split
    · exact .pure _
    · exact .fail rfl

theorem finishIteration
    {state : FieldRef}
    (found : basis.known (.field state))
    (stateWritable : writable state) :
    Plain writable basis allowed bound (finishIteration state) := by
  refine .seq (load _ 0) (.seq (push _) (.seq (putField found fun _ => stateWritable) ?_))
  exact .seq (op _) (op _)

/-- Suspending is refused in finally bodies and regions. -/
theorem checkSuspendable (span : Span) :
    Plain writable basis allowed bound (checkSuspendable span) := by
  let refuse : NoYieldRegion → Emit Unit := fun region =>
    MonadExcept.throw (.yieldInsideRegion region span)
  have inFinally : Plain writable basis allowed bound (do
      if ← Emit.inFinally then refuse .finallyBody) :=
    .bind (.looking (fun _ _ => rfl) fun _ => .pure _) fun _ =>
      ite (fun _ => .fail rfl) fun _ => .pure ()
  have inCatch : Plain writable basis allowed bound (do
      if (← catchSlot?).isSome then refuse .catchBody
      if ← Emit.inFinally then refuse .finallyBody) :=
    .bind (.looking (fun _ _ => rfl) fun _ => .pure _) fun _ =>
      ite (fun _ => .bind (.fail rfl) fun _ => inFinally) fun _ => inFinally
  exact .bind (.looking (fun _ _ => rfl) fun _ => .pure _) fun _ =>
    ite (fun _ => .bind (.fail rfl) fun _ => inCatch) fun _ => inCatch

theorem saveLive (allWritable : ∀ field, writable field) :
    Plain writable basis allowed bound saveLive := by
  refine .reading (fun _ _ => rfl) fun method _ _ => forM _ fun saved member => ?_
  refine .seq (load _ 0) (.seq (load _ _) (putField (.inl ?_) fun _ => allWritable _))
  exact MethodContext.mem_references_of_live member

theorem reloadLive : Plain writable basis allowed bound reloadLive := by
  refine .reading (fun _ _ => rfl) fun method _ _ => forM _ fun saved member => ?_
  refine .seq (load _ 0) (.seq (getField (.inl ?_)) (store _ _))
  exact MethodContext.mem_references_of_live member

end PlainTo

/-! ## Lambdas -/

theorem quiet_owner (scope : ClosureScope) (cls : ClassContext) :
    cls.Quiet (scope.owner cls).2 := by
  unfold ClosureScope.owner
  split
  · exact .refl cls
  · exact { ClassContext.Quiet.refl cls with }

theorem quiet_capture (scope : ClosureScope) (decl : LocalDecl) (cls : ClassContext) :
    cls.Quiet (scope.capture decl cls).2 := by
  unfold ClosureScope.capture
  split
  · exact .refl cls
  · exact quiet_owner scope cls

theorem quiet_captureSelf (scope : ClosureScope) (cls : ClassContext) :
    cls.Quiet (scope.captureSelf cls).2 := by
  unfold ClosureScope.captureSelf
  split
  · exact .refl cls
  · exact quiet_owner scope cls

/-- Capturing a local makes up no more than the name of a class. -/
theorem takesUnseen_capture (scope : ClosureScope) (decl : LocalDecl) :
    TakesUnseen (scope.capture decl) := by
  intro cls config methods nested
  unfold ClosureScope.capture ClosureScope.owner
  cases scope.field? decl.id with
  | some field => rfl
  | none => cases scope.name <;> rfl

theorem takesUnseen_captureSelf (scope : ClosureScope) : TakesUnseen scope.captureSelf := by
  intro cls config methods nested
  unfold ClosureScope.captureSelf ClosureScope.owner
  cases scope.selfField with
  | some field => rfl
  | none => cases scope.name <;> rfl

/-- Make the object of a scope and copy captured parameters into it. -/
def scopeCode (scope : ClosureScope) (name : String) (params : List LocalDecl) : Emit Nat := do
  let slot ← newTemp (.ofClass name)
  newObject name
  storeRef slot
  scope.selfField.forM fun field => do
    loadRef slot
    loadRef 0
    putField field
  fillScope scope slot params
  return slot

/-- What comes after the code of a scope emits nothing. -/
theorem makeScope_eq (scope : ClosureScope) (name : String) (params : List LocalDecl) :
    makeScope scope name params = (do
      let slot ← scopeCode scope name params
      scope.captured.forM fun entry => setAccess entry.1 (.captured (.slot slot) [entry.2])
      return slot) := by
  simp only [makeScope, scopeCode, bind_assoc, pure_bind]

namespace PlainTo

variable {writable : FieldRef → Prop} {basis : Basis}
variable {allowed : Label → Prop} {bound : List Label}

theorem takeQuiet
    {take : ClassContext → α × ClassContext}
    (unseen : TakesUnseen take)
    (quiet : ∀ cls : ClassContext, cls.Quiet (take cls).2) :
    Plain writable basis allowed bound (Emit.takeClass take) :=
  .takeClass unseen fun cls => ⟨quiet cls, nofun⟩

theorem captureLocal
    (decls : List LocalDecl) (span : Span) (state : Captures × ClosureScope) (id : LocalId) :
    Plain writable basis allowed bound (captureLocal decls span state id) := by
  refine .looking (fun _ _ => rfl) fun method => ?_
  split
  · exact .pure _
  · split
    · exact .fail rfl
    · refine .bind (takeQuiet ?_ (quiet_capture _ _)) fun _ => .pure _
      exact takesUnseen_capture _ _

/-- The host of a lambda is chosen by what it captures. -/
theorem chooseHost (lambda : Lambda) (captures : Captures) (scope : ClosureScope) :
    Plain writable basis allowed bound (chooseHost lambda captures scope) := by
  unfold Emit.chooseHost
  refine .ite (fun _ => ?_) fun _ => ?_
  · refine .ite (fun _ => .bind ?_ fun _ => .pure _) fun _ => .pure _
    exact takeQuiet (takesUnseen_captureSelf _) (quiet_captureSelf _)
  · refine .ite (fun _ => .looking (fun _ _ => rfl) fun method => ?_) fun _ => .pure _
    exact .ite (fun _ => .fail rfl) fun _ => .pure _

/-- Planning a lambda may add fields to its scope. -/
theorem planLambda (decls : List LocalDecl) (scope : ClosureScope) (lambda : Lambda) :
    Plain writable basis allowed bound (planLambda decls scope lambda) := by
  have captures : ∀ (ids : List LocalId) (state : Captures × ClosureScope),
      Plain writable basis allowed []
        (ids.foldlM (Emit.captureLocal decls lambda.body.span) state) := by
    intro ids
    induction ids with
    | nil => exact fun state => .pure state
    | cons id ids ih => exact fun state => .bind (captureLocal decls _ state id) ih
  exact .bind (captures _ _) fun _ => .bind (chooseHost _ _ _) fun _ => .pure _

/-- Planning lambdas emits nothing and changes nothing but the class. -/
theorem planLambdas (decls : List LocalDecl) (lambdas : List Lambda) (scope : ClosureScope) :
    Plain writable basis allowed bound (planLambdas decls lambdas scope) := by
  induction lambdas generalizing scope bound with
  | nil => exact .pure _
  | cons lambda lambdas ih =>
    exact .bind (planLambda decls scope lambda) fun _ => .bind (ih _) fun _ => .pure _

/-- Captured parameters are copied to their fields. -/
theorem fillScope
    {scope : ClosureScope}
    (refers : ∀ id field, scope.field? id = some field → basis.known (.field field))
    (allWritable : ∀ field, writable field)
    (slot : Nat) (params : List LocalDecl) :
    Plain writable basis allowed bound (fillScope scope slot params) := by
  refine forM _ fun param _ => ?_
  split
  · exact .pure _
  · next field found =>
    refine .andThen (accessOf _ _) fun access => ?_
    cases access with
    | slot source kind =>
      refine .seq (load _ _) (.seq (load _ _) (putField (refers _ field found) ?_))
      exact fun _ => allWritable field
    | captured holder path => exact .pure _

/-- The code of a scope refers to its class and the fields of that. -/
theorem scopeCode
    {scope : ClosureScope} {name : String}
    (object : basis.known (.object name))
    (constructs : basis.known (.method (Library.constructor name)))
    (outer : ∀ field ∈ scope.selfField, basis.known (.field field))
    (refers : ∀ id field, scope.field? id = some field → basis.known (.field field))
    (allWritable : ∀ field, writable field)
    (params : List LocalDecl) :
    Plain writable basis allowed bound (scopeCode scope name params) := by
  refine .bind (newTemp _) fun slot => .seq (newObject object constructs) (.seq (store _ slot) ?_)
  refine .seq (optionForM _ fun field member => ?_) (.seq ?_ (.pure slot))
  · refine .seq (load _ _) (.seq (load _ _) (putField (outer field member) ?_))
    exact fun _ => allWritable field
  · exact fillScope refers allWritable slot params

/-- Resuming an iterator binds the first of its labels. -/
theorem dispatchState
    {suspension : Suspension}
    (found : basis.known (.field suspension.state)) :
    Plain writable basis (fun _ => True) suspension.resume.head?.toList
      (IteratorClass.dispatchState suspension) := by
  have switch : Plain writable basis (fun _ => True) [] (Emit.emit (.tableSwitch 0
      (.ofNat (suspension.resume.length - 1)) suspension.exhausted suspension.resume)) :=
    .emit (fun _ _ => trivial) nofun nofun
  refine .seq (load _ 0) (.seq (getField found) (.seq switch ?_))
  cases suspension.resume.head? with
  | none => exact reloadLive
  | some first => exact .marked trivial reloadLive

end PlainTo
end Emit

end StackCode
