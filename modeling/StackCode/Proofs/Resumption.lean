import StackCode.Proofs.Entry
import StackCode.Proofs.Finishing
import StackCode.Proofs.Generating
import StackCode.Proofs.Suspending

/-!
# The method that runs an iterator

The body of an iterator is lowered into a method that first goes to where it was
suspended.  Its points of resumption are numbered before it is lowered; that they
are all bound in the end means that every suspension point of the source was
lowered, each under its own number.
-/

namespace StackCode

variable {name : String} {body : Stmt}

/-! ## The fields of an iterator -/

theorem isOrdinary_of_mem (member : '$' ∈ name.toList) : IsOrdinary name := by
  constructor
  · rintro rfl
    exact absurd member (by decide)
  · rintro rfl
    exact absurd member (by decide)

/-- Beside the fields of an iteration, the field of a local has another name. -/
theorem isOrdinary_nameFor
    {fields : List FieldDef}
    (state : stateFieldName ∈ fields.map FieldDef.name)
    (current : currentFieldName ∈ fields.map FieldDef.name)
    (name : String) (id : LocalId) :
    IsOrdinary (FieldDef.nameFor fields name id) := by
  unfold FieldDef.nameFor
  split
  · refine isOrdinary_of_mem ?_
    simp
  · next free =>
    have absent : ∀ field ∈ fields, field.name ≠ name := by simpa using free
    constructor
    · rintro rfl
      obtain ⟨field, member, same⟩ := List.mem_map.mp state
      exact absent field member same
    · rintro rfl
      obtain ⟨field, member, same⟩ := List.mem_map.mp current
      exact absent field member same

namespace IteratorClass

variable {layout : Layout}

/-- The fields of a class in which an iteration is kept, before all others. -/
structure Layout.WellNamed (layout : Layout) : Prop where
  /-- Only the first two fields have the names of those in which the iteration is kept. -/
  fields : ∃ others, layout.fields = machineFields layout.element false ++ others ∧
    ∀ field ∈ others, IsOrdinary field.name
  /-- The fields of the locals are fields of the class under other names. -/
  localFields : ∀ entry ∈ layout.localFields,
    entry.2.owner = layout.className ∧ IsOrdinary entry.2.name

/-- The field of a local has a name of its own. -/
theorem Layout.WellNamed.addLocal (named : layout.WellNamed) (decl : LocalDecl) :
    (addLocal layout decl).WellNamed := by
  obtain ⟨⟨others, fields, ordinary⟩, localFields⟩ := named
  have fresh : IsOrdinary (FieldDef.nameFor layout.fields decl.name decl.id) := by
    refine isOrdinary_nameFor ?_ ?_ _ _
    · simp [fields, machineFields]
    · simp [fields, machineFields]
  refine ⟨?_, ?_⟩
  · refine ⟨others ++ [_], (congrArg (· ++ [_]) fields).trans (List.append_assoc _ _ _), ?_⟩
    intro field member
    obtain member | rfl := List.mem_append.mp member |>.imp_right List.mem_singleton.mp
    · exact ordinary field member
    · exact fresh
  · intro entry member
    obtain member | rfl := List.mem_append.mp member |>.imp_right List.mem_singleton.mp
    · exact localFields entry member
    · exact ⟨rfl, fresh⟩

/-- The fields with which the layout of an iterator begins. -/
theorem wellNamed_start
    (className : String) (element : Ty) (promotion : Promotion) (withProtocol : Bool)
    {outer : List FieldDef}
    (ordinary : ∀ field ∈ outer, IsOrdinary field.name)
    (outerField : Option FieldRef) :
    Layout.WellNamed
      { className
        element
        promotion
        fields := machineFields element withProtocol ++ outer
        localFields := []
        outerField } := by
  refine ⟨⟨(machineFields element withProtocol).drop 2 ++ outer, ?_, ?_⟩, nofun⟩
  · simp [machineFields]
  · intro field member
    obtain member | member := List.mem_append.mp member
    · have same : field.name = hasNextFieldName := by
        cases withProtocol <;> simp_all [machineFields]
      rw [same]
      constructor <;> decide
    · exact ordinary field member

/-- What laying out the class of an iterator leads to. -/
theorem layOut_ok
    {className : String} {method : MethodDecl} {element : Ty} {before after : ClassContext}
    (success : layOut className method element body before = .ok layout after) :
    before = after ∧ layout.WellNamed ∧ layout.className = className ∧
      layout.element = element ∧ layout.promotion = body.promotion method.params ∧
        ∀ id ∈ layout.promotion.resident, id ∈ layout.localFields.map Prod.fst := by
  have rest := Generation.get_bind_eq.mp success
  have ordinary : ∀ field ∈ (if (!method.isStatic && body.usesSelf) = true then
      [outerFieldDef before.name] else []), IsOrdinary field.name := by
    intro field member
    split at member
    · obtain rfl := List.mem_singleton.mp member
      exact isOrdinary_of_mem (by simp [outerFieldDef, outerFieldName])
    · contradiction
  obtain ⟨rfl, found, _, _, -, -, rfl, same, listed⟩ := addLocals_ok rest
  refine ⟨rfl, List.foldlRecOn found _ (wellNamed_start className element _ _ ordinary _)
    fun _ named decl _ => named.addLocal decl, ?_⟩
  rw [same]
  refine ⟨rfl, rfl, rfl, fun id member => ?_⟩
  rw [listed]
  exact List.mem_append_right _ (List.mem_append_right _ member)

end IteratorClass

namespace Emit

open IteratorClass

variable {before after : Emission} {machine : Suspension}

/-! ## Before the scope of the body -/

/-- Saying where locals live, one after the other. -/
theorem forM_setAccess_ok
    {α : Type} {entries : List α} {id : α → LocalId} {access : α → LocalAccess}
    (success : entries.forM (fun entry => setAccess (id entry) (access entry)) before =
      .ok () after) :
    after = before.mapMethod fun method =>
      { method with
        locals :=
          (entries.map fun entry => (id entry, access entry)).reverse ++ method.locals } := by
  induction entries generalizing before with
  | nil =>
    obtain ⟨-, rfl⟩ := pure_ok.mp success
    rfl
  | cons entry entries ih =>
    obtain ⟨_, set, rest⟩ := seq_ok.mp success
    obtain rfl := modifyMethod_ok.mp set
    rw [ih rest]
    simp [Emission.mapMethod]

/-- Where the resident locals of an iterator live. -/
def residentAccess (layout : Layout) : List (LocalId × LocalAccess) :=
  ((layout.fieldsOf layout.promotion.resident).map fun entry =>
    (entry.1, LocalAccess.captured .self [entry.2])).reverse

/-- The state in which the scope of the body of an iterator begins. -/
structure Begun (layout : Layout) (machine : Suspension) (state : Emission) : Prop where
  made : ∃ resume exhausted,
    machine = .ofClass layout.className layout.element resume exhausted
      (layout.fieldsOf layout.promotion.promoted)
  suspension : state.method.suspension = some machine
  locals : state.method.locals = residentAccess layout
  instructions : state.code.instructions = #[]
  bounded : state.code.Bounded
  yieldCount : state.method.yieldCount = 0

/-- An iteration begins with its labels and fields. -/
theorem begun_moveNextStart
    {layout : Layout} {debugInfo : Bool} {cls : ClassContext} {state : Emission}
    (success : moveNextStart layout body
      { method := .start layout.className name false .boolean debugInfo, cls } =
        .ok machine state) :
    Begun layout machine state := by
  obtain ⟨_, reserving, rest⟩ := seq_ok.mp success
  obtain ⟨_, locating, rest⟩ := seq_ok.mp rest
  obtain ⟨_, _, beginning, rest⟩ := bind_ok.mp rest
  obtain ⟨_, accessing, rest⟩ := seq_ok.mp rest
  obtain ⟨rfl, rfl⟩ := pure_ok.mp rest
  replace reserving := method_bind_eq.mp reserving
  obtain ⟨_, _, reserving, rest⟩ := bind_ok.mp reserving
  obtain ⟨-, rfl⟩ := takeCode_ok.mp reserving
  obtain ⟨-, rfl⟩ := pure_ok.mp rest
  obtain rfl := modifyMethod_ok.mp locating
  obtain ⟨resume, _, resuming, rest⟩ := bind_ok.mp beginning
  obtain ⟨exhausted, _, ending, rest⟩ := bind_ok.mp rest
  obtain ⟨_, set, rest⟩ := seq_ok.mp rest
  obtain rfl := modifyMethod_ok.mp set
  obtain ⟨rfl, rfl⟩ := pure_ok.mp rest
  obtain ⟨-, code, rfl, advances, instructions⟩ := newLabels_ok resuming
  obtain ⟨rfl, rfl⟩ := newLabel_ok.mp ending
  rw [forM_setAccess_ok accessing]
  have started : Code.Bounded (Code.allocate { debugInfo := debugInfo } (some "this")
      (.ofClass layout.className)).2 := by
    intro label position bound
    simp [Code.position?] at bound
  exact
    { made := ⟨_, _, rfl⟩
      suspension := rfl
      locals := List.append_nil _
      instructions := instructions
      bounded := (started.advances advances).advances (.newLabel code)
      yieldCount := rfl }

/-- A local that lives in a field of the receiver. -/
def Resident (state : Emission) (id : LocalId) : Prop :=
  ∃ path, state.method.locals.lookup id = some (.captured .self path)

namespace Begun

variable {layout : Layout} {machine : Suspension} {state : Emission}

theorem named (begun : Begun layout machine state) (wellNamed : layout.WellNamed) :
    machine.Named := by
  obtain ⟨resume, exhausted, rfl⟩ := begun.made
  refine ⟨rfl, ⟨_, rfl⟩, ?_⟩
  intro entry member _
  exact (wellNamed.localFields entry (List.mem_filter.mp member).1).2

/-- The method iterates once it has begun. -/
theorem iterating (begun : Begun layout machine state) (wellNamed : layout.WellNamed) :
    Iterating machine state := by
  obtain ⟨resume, exhausted, rfl⟩ := begun.made
  refine ⟨⟨?_, ?_, ?_, ?_⟩, begun.bounded⟩
  · rw [begun.suspension]
    rfl
  · rw [MethodContext.live, begun.suspension]
    exact fun _ member => (List.not_mem_nil member).elim
  · rw [MethodContext.spills, begun.suspension]
    rfl
  · intro id holder path field found last _
    rw [begun.locals] at found
    obtain ⟨first, second, split, -⟩ := List.lookup_eq_some_iff.mp found
    have member : (id, LocalAccess.captured holder path) ∈ residentAccess layout := by simp [split]
    obtain ⟨entry, inside, same⟩ := List.mem_map.mp (List.mem_reverse.mp member)
    cases same
    obtain rfl : entry.2 = field := Option.some.inj last
    exact (wellNamed.localFields entry (List.mem_filter.mp inside).1).2

/-- Locals that lambdas share live in fields from the start. -/
theorem resident
    (begun : Begun layout machine state)
    (covered : ∀ id ∈ layout.promotion.resident, id ∈ layout.localFields.map Prod.fst)
    {id : LocalId}
    (member : id ∈ layout.promotion.resident) :
    Resident state id := by
  obtain ⟨entry, inFields, rfl⟩ := List.mem_map.mp (covered id member)
  have inside : entry ∈ layout.fieldsOf layout.promotion.resident :=
    List.mem_filter.mpr ⟨inFields, by simpa using member⟩
  have listed : (entry.1, LocalAccess.captured .self [entry.2]) ∈ residentAccess layout :=
    List.mem_reverse.mpr (List.mem_map.mpr ⟨entry, inside, rfl⟩)
  unfold Resident
  rw [begun.locals]
  cases found : (residentAccess layout).lookup entry.1 with
  | none =>
    have absent := List.lookup_eq_none_iff.mp found _ listed
    simp at absent
  | some access =>
    obtain ⟨first, second, split, -⟩ := List.lookup_eq_some_iff.mp found
    have member : (entry.1, access) ∈ residentAccess layout := by simp [split]
    obtain ⟨other, -, same⟩ := List.mem_map.mp (List.mem_reverse.mp member)
    obtain ⟨-, rfl⟩ := Prod.mk.inj same
    exact ⟨_, rfl⟩

end Begun

/-! ## Before the body in its scope -/

/-- No instruction is emitted, and locals of the receiver stay where they live. -/
structure Settles (before after : Emission) : Prop where
  instructions : after.code.instructions = before.code.instructions
  resident : ∀ id, Resident before id → Resident after id

theorem Settles.trans {between : Emission} (first : Settles before between)
    (second : Settles between after) : Settles before after where
  instructions := second.instructions.trans first.instructions
  resident := fun id known => second.resident id (first.resident id known)

/-- Declaring a local emits nothing. -/
theorem settles_declareLocal
    {decl : LocalDecl} {access : LocalAccess}
    (success : declareLocal decl before = .ok access after) :
    Settles before after := by
  obtain ⟨_, _, -, -, rfl⟩ | ⟨elsewhere, declared⟩ := declareLocal_cases success
  · exact ⟨rfl, fun _ known => known⟩
  · obtain ⟨-, rfl⟩ := declareSlot_ok declared
    refine ⟨Code.instructions_allocate _ _ _, ?_⟩
    rintro id ⟨path, known⟩
    have apart : id ≠ decl.id := by
      rintro rfl
      exact elsewhere _ _ known
    refine ⟨path, ?_⟩
    simp only [Emission.method_mapMethod, List.lookup_cons, beq_false_of_ne apart]
    exact known

/-- Declaring the parameters that have fields emits nothing. -/
theorem settles_declareKept
    {layout : Layout} {params : List LocalDecl}
    (success : declareKept layout params before = .ok () after) :
    Settles before after := by
  induction params generalizing before with
  | nil =>
    obtain ⟨-, rfl⟩ := pure_ok.mp success
    exact ⟨rfl, fun _ known => known⟩
  | cons param params ih =>
    obtain ⟨between, declared, rest⟩ := seq_ok.mp success
    refine .trans ?_ (ih rest)
    dsimp only at declared
    split at declared
    · obtain ⟨_, declared, -⟩ := map_ok.mp declared
      exact settles_declareLocal declared
    · obtain ⟨-, rfl⟩ := pure_ok.mp declared
      exact ⟨rfl, fun _ known => known⟩

theorem drifting_declareKept
    (named : machine.Named) (layout : Layout) (params : List LocalDecl) :
    Drifting machine (declareKept layout params) := by
  refine forM_of_steps (.pure _) (fun first rest => .bind first fun _ => rest) fun param _ => ?_
  split
  · exact .bind (.declareLocal named param) fun _ => .pure _
  · exact .pure _

/-- The instructions that go to where an iterator was suspended. -/
def dispatching (machine : Suspension) : List Instruction :=
  [.load .reference 0, .getField machine.state,
    .tableSwitch 0 (.ofNat (machine.resume.length - 1)) machine.exhausted machine.resume]

/-- The start is bound right after the dispatch. -/
theorem dispatchState_ok
    {first : Label} {others : List Label}
    (resume : machine.resume = first :: others)
    (success : dispatchState machine before = .ok () after) :
    after.code.Holds before.size (dispatching machine) ∧
      after.code.position? first = some (before.size + 3) := by
  have emits : Emits (dispatching machine) (do
      loadRef 0
      getField machine.state
      emit (.tableSwitch 0
        (.ofNat (machine.resume.length - 1)) machine.exhausted machine.resume)) :=
    .seq (.emit _) (.seq (.emit _) (.emit _))
  have regrouped : ((do
      loadRef 0
      getField machine.state
      emit (.tableSwitch 0 (.ofNat (machine.resume.length - 1)) machine.exhausted machine.resume))
        >>= fun _ => do mark first; reloadLive) before = .ok () after := by
    simpa only [dispatchState, resume, List.head?_cons, option_forM_some, bind_assoc] using success
  obtain ⟨_, emitted, rest⟩ := seq_ok.mp regrouped
  rw [emits before, EStateM.Result.ok.injEq] at emitted
  obtain ⟨-, rfl⟩ := emitted
  obtain ⟨_, marking, reloading⟩ := seq_ok.mp rest
  obtain ⟨marked, mark, rfl⟩ := tryCode_ok.mp marking
  have plain : Plainly [] reloadLive := .reloadLive
  have reloads := (plain.advances (MethodContext.storesTo_all _) reloading).1
  constructor
  · refine reloads.holds ?_
    obtain ⟨-, marks⟩ := (Code.mark_eq_ok_iff _ _ _).mp mark
    simp only [Emission.code_mapCode, marks, Code.Holds, Code.toList_foldl_emit, Emission.size,
      Code.size, ← Array.length_toList, List.drop_left]
    exact List.prefix_rfl
  · refine reloads.grows.marks _ _ ?_
    rw [Emission.code_mapCode, Code.position?_of_mark_eq_ok mark]
    simp [Emission.size, dispatching]

/-! ## The lambdas of an iterator -/

section Lambdas

variable {before after : Emission}
variable {scope : ClosureScope} {decls : List LocalDecl}

/-- Nothing of the method changes but what is known of its lambdas. -/
def OnlyLambdas (before after : Emission) : Prop :=
  ∃ lambdas, after.method = { before.method with lambdas }

theorem OnlyLambdas.trans {between : Emission} (first : OnlyLambdas before between)
    (second : OnlyLambdas between after) : OnlyLambdas before after := by
  obtain ⟨_, first⟩ := first
  obtain ⟨lambdas, second⟩ := second
  exact ⟨lambdas, by rw [second, first]⟩

theorem OnlyLambdas.of_eq (same : after.method = before.method) : OnlyLambdas before after :=
  ⟨_, same⟩

/-- The state in which the method of a lambda begins. -/
def lambdaOpening (home : LambdaHome) (plan : LambdaPlan) (outside : Emission) : Emission :=
  let (name, named) := outside.cls.newLambdaName outside.method.methodName
  let cls := named.write .debug
    ("compiling lambda #" ++ toString plan.lambda.id.index ++ " as " ++ home.owner ++ "." ++ name)
  { method :=
      .start home.owner outside.method.methodName home.isStatic plan.lambda.ret
        cls.config.varDebugInfo
    cls }

/-- A lambda is compiled in a context of its own, which does not touch the method around it. -/
theorem compileLambda_ok
    {prepare : Preparation} {home : LambdaHome} {plan : LambdaPlan} {target : MethodRef}
    (success : compileLambda prepare home plan before = .ok target after) :
    after.method = before.method ∧ ∃ start entered,
      lambdaStart plan.lambda (capturedAccess home plan.captures)
          (home.path ++ before.method.selfPath) (lambdaOpening home plan before) =
        .ok () start ∧
      (do prepare plan.lambda.body plan.lambda.params; setParents plan.lambda.body) start =
        .ok () entered := by
  have rest := method_bind_eq.mp success
  obtain ⟨_, _, named, rest⟩ := bind_ok.mp rest
  obtain ⟨rfl, rfl⟩ := takeClass_ok.mp named
  obtain ⟨_, logged, rest⟩ := seq_ok.mp rest
  obtain rfl := modifyClass_ok.mp logged
  obtain ⟨_, _, read, rest⟩ := bind_ok.mp rest
  obtain ⟨rfl, rfl⟩ := pure_ok.mp read
  obtain ⟨_, _, compiled, rest⟩ := bind_ok.mp rest
  obtain ⟨_, generated, rfl⟩ := aside_ok.mp compiled
  obtain ⟨_, added, rest⟩ := seq_ok.mp rest
  obtain rfl := modifyClass_ok.mp added
  obtain ⟨-, rfl⟩ := pure_ok.mp rest
  obtain ⟨_, lowered, -⟩ := Generation.onMethod_ok.mp generated
  rw [lambdaBody_eq] at lowered
  obtain ⟨entered, entering, -⟩ := seq_ok.mp lowered
  obtain ⟨start, starting, entering⟩ := seq_ok.mp entering
  exact ⟨rfl, start, entered, starting, entering⟩

/-- A lambda lives in its scope, in the class of its method or in the class at hand. -/
theorem lambdaHome_cases
    {slot : Option Nat} {host : LambdaHost} {home : LambdaHome}
    (success : lambdaHome scope slot host before = .ok home after) :
    before = after ∧
      ((host = .scope ∧ ∃ owner, scope.name = some owner ∧
          home = { owner, isStatic := false, receiver := slot, path := scope.selfField.toList }) ∨
        (host = .receiver ∧ home =
          { owner := before.method.className, isStatic := false, receiver := some 0, path := [] }) ∨
        (host = .static ∧ home =
          { owner := before.cls.name, isStatic := true, receiver := none, path := [] })) := by
  cases host with
  | scope =>
    unfold lambdaHome at success
    cases named : scope.name with
    | some owner =>
      rw [named] at success
      obtain ⟨rfl, rfl⟩ := pure_ok.mp success
      exact ⟨rfl, .inl ⟨rfl, owner, rfl, rfl⟩⟩
    | none =>
      rw [named] at success
      exact (throw_ok.mp success).elim
  | receiver =>
    cases success
    exact ⟨rfl, .inr (.inl ⟨rfl, rfl⟩)⟩
  | static =>
    cases success
    exact ⟨rfl, .inr (.inr ⟨rfl, rfl⟩)⟩

/-- Compiling plans adds lambdas only. -/
theorem onlyLambdas_compilePlans
    {prepare : Preparation} {slot : Option Nat} {plans : List LambdaPlan}
    (success : plans.forM (compilePlan prepare scope slot) before = .ok () after) :
    OnlyLambdas before after := by
  induction plans generalizing before with
  | nil =>
    obtain ⟨-, rfl⟩ := pure_ok.mp success
    exact .of_eq rfl
  | cons plan plans ih =>
    obtain ⟨_, compiled, rest⟩ := seq_ok.mp success
    refine .trans ?_ (ih rest)
    obtain ⟨_, _, found, compiled⟩ := bind_ok.mp compiled
    obtain ⟨rfl, -⟩ := lambdaHome_cases found
    obtain ⟨_, _, compiled, registered⟩ := bind_ok.mp compiled
    refine .trans (.of_eq (compileLambda_ok compiled).1) ?_
    obtain rfl := modifyMethod_ok.mp registered
    exact ⟨_, rfl⟩

/-- A lambda that captures only what the receiver holds needs no scope. -/
theorem captureLocals_resident
    {span : Span} {ids : List LocalId} {state result : Captures × ClosureScope}
    (resident : ∀ id ∈ ids, Resident before id)
    (success : ids.foldlM (captureLocal decls span) state before = .ok result after) :
    before = after ∧ result.2 = state.2 ∧ result.1.locals = state.1.locals := by
  induction ids generalizing state with
  | nil =>
    obtain ⟨rfl, rfl⟩ := pure_ok.mp success
    exact ⟨rfl, rfl, rfl⟩
  | cons id ids ih =>
    rw [List.foldlM_cons] at success
    obtain ⟨next, _, captured, rest⟩ := bind_ok.mp success
    obtain ⟨path, known⟩ := resident id List.mem_cons_self
    replace captured := method_bind_eq.mp captured
    rw [known] at captured
    obtain ⟨rfl, rfl⟩ := pure_ok.mp captured
    have others := fun id member => resident id (List.mem_cons_of_mem _ member)
    obtain ⟨rfl, scope, locals⟩ := ih others rest
    exact ⟨rfl, scope, locals⟩

/-- A lambda over residents needs no scope object. -/
theorem planLambda_resident
    {next : ClosureScope} {lambda : Lambda} {plan : LambdaPlan}
    (resident : ∀ id ∈ lambda.freeLocals, Resident before id)
    (success : planLambda decls scope lambda before = .ok (plan, next) after) :
    before = after ∧ next = scope := by
  obtain ⟨⟨captures, inner⟩, _, captured, rest⟩ := bind_ok.mp success
  obtain ⟨⟨host, outer⟩, _, chosen, rest⟩ := bind_ok.mp rest
  obtain ⟨same, rfl⟩ := pure_ok.mp rest
  obtain ⟨-, rfl⟩ := Prod.mk.inj same
  obtain ⟨rfl, rfl, none⟩ := captureLocals_resident resident captured
  have empty : captures.locals = [] := none
  simp only [chooseHost, empty, List.isEmpty_nil, Bool.not_true, Bool.false_eq_true,
    if_false] at chosen
  split at chosen
  · replace chosen := method_bind_eq.mp chosen
    split at chosen
    · exact (throw_ok.mp chosen).elim
    · obtain ⟨same, rfl⟩ := pure_ok.mp chosen
      cases same
      exact ⟨rfl, rfl⟩
  · obtain ⟨same, rfl⟩ := pure_ok.mp chosen
    cases same
    exact ⟨rfl, rfl⟩

/-- Lambdas that use only what the receiver holds add nothing to the scope. -/
theorem planLambdas_resident
    {lambdas : List Lambda} {next : ClosureScope} {plans : List LambdaPlan}
    (resident : ∀ lambda ∈ lambdas, ∀ id ∈ lambda.freeLocals, Resident before id)
    (success : planLambdas decls lambdas scope before = .ok (plans, next) after) :
    before = after ∧ next = scope := by
  induction lambdas generalizing scope plans next with
  | nil =>
    obtain ⟨same, rfl⟩ := pure_ok.mp success
    cases same
    exact ⟨rfl, rfl⟩
  | cons lambda lambdas ih =>
    obtain ⟨⟨plan, inner⟩, _, planned, rest⟩ := bind_ok.mp success
    obtain ⟨⟨others, outer⟩, _, planning, rest⟩ := bind_ok.mp rest
    obtain ⟨same, rfl⟩ := pure_ok.mp rest
    cases same
    obtain ⟨rfl, rfl⟩ := planLambda_resident (resident lambda List.mem_cons_self) planned
    exact ih
      (fun lambda member => resident lambda (List.mem_cons_of_mem _ member)) planning

/-- The lambdas of an iterator need no scope object: what they capture lives in its fields. -/
theorem onlyLambdas_prepareLambdas
    (resident : ∀ id ∈ body.captured, Resident before id)
    (success : prepareLambdas body [] before = .ok () after) :
    OnlyLambdas before after := by
  unfold prepareLambdas at success
  cases depth : body.lambdaCount with
  | zero =>
    rw [depth] at success
    unfold prepareWithin at success
    split at success
    · obtain ⟨-, rfl⟩ := pure_ok.mp success
      exact .of_eq rfl
    · exact (throw_ok.mp success).elim
  | succ depth =>
    rw [depth] at success
    have rest := method_bind_eq.mp success
    obtain ⟨⟨plans, scope⟩, _, planned, rest⟩ := bind_ok.mp rest
    have within : ∀ lambda ∈ body.lambdas, ∀ id ∈ lambda.freeLocals, Resident before id := by
      intro lambda member id free
      refine resident id ?_
      rw [Stmt.captured, LocalId.mem_ascending]
      exact List.mem_flatMap.mpr ⟨lambda, member, free⟩
    obtain ⟨rfl, rfl⟩ := planLambdas_resident within planned
    obtain ⟨_, _, made, rest⟩ := bind_ok.mp rest
    obtain ⟨-, rfl⟩ := pure_ok.mp made
    obtain ⟨_, compiled, added⟩ := seq_ok.mp rest
    obtain ⟨-, rfl⟩ := pure_ok.mp added
    exact onlyLambdas_compilePlans compiled

end Lambdas

/-! ## The whole method -/

section Whole

variable {layout : Layout} {machine : Suspension} {method : MethodDecl} {body : Stmt}
variable {first : Label} {others : List Label}
variable {after before : Emission}

/-- What comes before the body of an iterator leaves the iteration alone. -/
theorem drifts_moveNextEntry
    (named : machine.Named)
    (resume : machine.resume = first :: others)
    (empty : before.code.instructions = #[])
    (resident : ∀ id ∈ body.captured, Resident before id)
    (iterating : Iterating machine before)
    (success : moveNextEntry layout method body machine before = .ok () after) :
    Drifts machine before after ∧ after.code.Holds 0 (dispatching machine) ∧
      after.code.position? first = some 3 := by
  obtain ⟨declared, declaring, rest⟩ := seq_ok.mp success
  obtain ⟨dispatched, dispatch, rest⟩ := seq_ok.mp rest
  obtain ⟨prepared, preparing, located⟩ := seq_ok.mp rest
  obtain rfl := modifyMethod_ok.mp located
  have declares := drifting_declareKept named layout _ _ _ _ iterating declaring
  have settles := settles_declareKept declaring
  have iteratingDeclared := declares.iterating iterating
  have dispatches := Drifting.plain (plain_dispatchState resume) _ _ _ iteratingDeclared dispatch
  obtain ⟨held, bound⟩ := dispatchState_ok resume dispatch
  have start : declared.size = 0 := by
    rw [Emission.size, Code.size, settles.instructions, empty]
    rfl
  rw [start] at held bound
  have plain : Plainly [first] (dispatchState machine) := plain_dispatchState resume
  have unchanged := plain.method_eq (MethodContext.storesTo_all _) dispatch
  have stillResident : ∀ id ∈ body.captured, Resident dispatched id := by
    intro id member
    unfold Resident
    rw [unchanged]
    exact settles.resident id (resident id member)
  obtain ⟨lambdas, prepares⟩ := onlyLambdas_prepareLambdas stillResident preparing
  have code : prepared.code = dispatched.code := by
    rw [Emission.code, prepares]
    rfl
  have drifts : Drifts machine dispatched
      (prepared.mapMethod fun method => { method with parents := .ofBody body }) := by
    refine
      { advances := ?_, writes := ?_, finallyDepth := ?_, yieldCount := ?_, iterates := ?_ }
    · rw [Emission.code_mapMethod]
      change dispatched.code.Advances prepared.code
      rw [code]
      exact .refl _
    · refine .of_eq ?_
      change prepared.code.instructions = _
      rw [code]
    · rw [Emission.method_mapMethod, prepares]
    · rw [Emission.method_mapMethod, prepares]
    · rw [Emission.method_mapMethod, prepares]
      exact fun iterates => { iterates with }
  refine ⟨declares.trans (dispatches.trans drifts), ?_, ?_⟩
  · exact drifts.advances.holds held
  · exact drifts.advances.grows.marks _ _ bound

/-- What the end of an iterator binds and emits. -/
theorem suspends_moveNextEnd
    {finished : MethodBody} {spills : List FieldDef}
    (iterating : Iterating machine before)
    (success : moveNextEnd machine before = .ok (finished, spills) after) :
    SuspendsAmong machine [] before after ∧ after.code.finish = .ok finished ∧
      spills = after.method.spills ∧
        ∃ position, after.code.position? machine.exhausted = some position ∧
          after.code.Holds position machine.ending := by
  obtain ⟨_, marking, rest⟩ := seq_ok.mp success
  obtain ⟨_, ending, rest⟩ := seq_ok.mp rest
  obtain ⟨closed, closing, rest⟩ := seq_ok.mp rest
  replace rest := method_bind_eq.mp rest
  obtain ⟨_, _, finishing, rest⟩ := bind_ok.mp rest
  obtain ⟨done, rfl⟩ := finish_ok.mp finishing
  obtain ⟨same, rfl⟩ := pure_ok.mp rest
  obtain ⟨rfl, rfl⟩ := Prod.mk.inj same
  have marks := Drifting.plain (.mark trivial (List.mem_singleton_self _)) _ _ _ iterating marking
  obtain ⟨marked, mark, rfl⟩ := tryCode_ok.mp marking
  have ends := suspends_finishIteration (marks.iterating iterating) ending
  have closes := Drifting.exitScope _ _ _ ends.1 closing
  refine ⟨?_, done, rfl, before.size, ?_, ?_⟩
  · have marking : SuspendsAmong machine [] before _ := .ofDrifts marks iterating
    have closing : SuspendsAmong machine [] _ closed := .ofDrifts closes ends.1
    exact (marking.trans ends).trans closing
  · obtain ⟨-, _, -, ends⟩ := ends
    exact (ends.advances.trans closes.advances).grows.marks _ _ (Code.position?_of_mark_eq_ok mark)
  · rw [emits_finishIteration machine, EStateM.Result.ok.injEq] at ending
    obtain ⟨-, rfl⟩ := ending
    refine closes.advances.holds ?_
    have size : before.size = marked.instructions.toList.length := by
      obtain ⟨-, marks⟩ := (Code.mark_eq_ok_iff _ _ _).mp mark
      rw [marks]
      rfl
    rw [size, Code.Holds, Emission.code_mapCode, Emission.code_mapCode, Code.toList_foldl_emit,
      List.drop_left]

/-- Code that numbers the suspension points of an iterator. -/
structure Numbers
    (machine : Suspension)
    (elements : List Stmt)
    (code : Code)
    (sites : List Site) :
    Prop where
  /-- There is a point of resumption for the start and for every suspension point. -/
  resume : machine.resume.length = elements.length + 1
  /-- The code begins with the dispatch, and the start is right after it. -/
  dispatch : code.Holds 0 (dispatching machine)
  start : ∃ first ∈ machine.resume.head?, code.position? first = some 3
  /-- A finished iteration is finished again. -/
  exhausted : ∃ position, code.position? machine.exhausted = some position ∧
    code.Holds position machine.ending
  /-- Every suspension point of the source has its place, in the order of the source. -/
  stmts : sites.map Site.stmt = elements
  ordered : sites.Pairwise fun first second => first.stop ≤ second.start
  numbered : ∀ index site, sites[index]? = some site →
    machine.SuspendsAt code (index + 1) site
  /-- Nothing else writes the fields of the iteration, but for the ends. -/
  writes : ∀ position field, code.instructions[position]? = some (.putField field) →
    field.isStatic = false →
      machine.Spares field ∨ machine.FinishesAt code position ∨
        ∃ site ∈ sites, position = site.write ∨ position = site.write - 3

/-- A label that is bound is not waiting to be bound. -/
theorem not_unbound_of_position?
    {state : Emission} {label : Label} {position : Nat}
    (bound : state.code.position? label = some position) :
    ¬state.Unbound label := by
  intro unbound
  rw [Code.position?, unbound] at bound
  contradiction

/-- Points of resumption that wait to be bound do so after a scope is closed. -/
theorem waiting_exitScope
    (success : exitScope before = .ok () after)
    (waiting : ∀ label ∈ before.unclaimed, before.Unbound label) :
    ∀ label ∈ after.unclaimed, after.Unbound label := by
  obtain ⟨scope, outer, -, ⟨-, rfl⟩ | ⟨_, _, _, suspended, -, rfl⟩⟩ := exitScope_cases success
  · exact waiting
  · intro label member
    refine waiting label ?_
    simpa [Emission.unclaimed, suspended] using member

/-- The end of an iterator leaves the points of resumption alone that no suspension has claimed. -/
theorem waiting_moveNextEnd
    {entered lowered : Emission} {depth : Nat} {result : MethodBody × List FieldDef}
    (bare : Bare body.ids [machine.exhausted] entered)
    (lowering : lowerWithin depth body entered = .ok () lowered)
    (success : moveNextEnd machine lowered = .ok result after) :
    ∀ label ∈ after.unclaimed, after.Unbound label := by
  obtain ⟨marked, marking, rest⟩ := seq_ok.mp success
  obtain ⟨ended, ending, rest⟩ := seq_ok.mp rest
  obtain ⟨closed, closing, rest⟩ := seq_ok.mp rest
  replace rest := method_bind_eq.mp rest
  obtain ⟨_, _, finishing, rest⟩ := bind_ok.mp rest
  obtain ⟨-, rfl⟩ := finish_ok.mp finishing
  obtain ⟨-, rfl⟩ := pure_ok.mp rest
  have ready : entered.Ready entered.method.setting (body.ids ++ []) ([] ++ [machine.exhausted])
      ([] ++ []) := by
    rw [List.append_nil]
    exact bare.ready
  have tidy := Tidy.lowerToEnd bare.distinguished depth machine
  have kept :=
    tidy.kept ready (seq_ok.mpr ⟨lowered, lowering, seq_ok.mpr ⟨marked, marking, ending⟩⟩)
  exact waiting_exitScope closing kept.orderly.waiting

/-- If all points of resumption are bound, every suspension point of the source was lowered. -/
theorem stmts_eq_of_bound
    {sites : List Site}
    (length : machine.resume.length = body.elements.length + 1)
    (none : before.method.yieldCount = 0)
    (iterating : Iterating machine after)
    (suspends : Suspends machine before after sites)
    (among : (sites.map Site.stmt).Sublist body.elements)
    (waiting : ∀ label ∈ after.unclaimed, after.Unbound label)
    (bound : ∀ label ∈ machine.resume, ∃ position, after.code.position? label = some position) :
    sites.map Site.stmt = body.elements := by
  have unclaimed : after.unclaimed = machine.resume.drop (sites.length + 1) := by
    have fixed := iterating.method.fixed
    obtain ⟨suspension, suspended, -⟩ := Option.map_eq_some_iff.mp fixed
    rw [Emission.unclaimed, suspended, Option.map_some, Option.getD_some,
      (iterating.method.agrees suspended).2.2.1, suspends.count, none, Nat.zero_add]
  refine among.eq_of_length_le ?_
  rw [List.length_map]
  by_contra fewer
  have inside : sites.length + 1 < machine.resume.length := by omega
  have member : machine.resume[sites.length + 1] ∈ after.unclaimed := by
    rw [unclaimed]
    exact List.mem_drop_iff_getElem.mpr ⟨0, by simpa using inside, by simp⟩
  obtain ⟨position, found⟩ := bound _ (List.getElem_mem inside)
  exact not_unbound_of_position? found (waiting _ member)

/-- The code of an iterator numbers its suspension points in the order of the source. -/
theorem numbers_moveNextBody
    (distinct : body.Distinct)
    (wellNamed : layout.WellNamed)
    (covered : ∀ id ∈ layout.promotion.resident, id ∈ layout.localFields.map Prod.fst)
    (promotion : layout.promotion = body.promotion method.params)
    {debugInfo : Bool} {cls : ClassContext} {finished : MethodBody} {spills : List FieldDef}
    (success : moveNextBody layout method body
      { method := .start layout.className name false .boolean debugInfo, cls } =
        .ok (finished, spills) after) :
    ∃ machine code sites,
      (∃ resume exhausted, machine = .ofClass layout.className layout.element resume exhausted
        (layout.fieldsOf layout.promotion.promoted)) ∧
      Numbers machine body.elements code sites ∧ code.finish = .ok finished ∧
        SpillsNumbered spills := by
  rw [moveNextBody_eq] at success
  obtain ⟨machine, begun, beginning, rest⟩ := bind_ok.mp success
  obtain ⟨opened, opening, rest⟩ := seq_ok.mp rest
  obtain ⟨entered, entering, rest⟩ := seq_ok.mp rest
  obtain ⟨lowered, lowering, ending⟩ := seq_ok.mp rest
  have start := begun_moveNextStart beginning
  have named := start.named wellNamed
  have iterating := start.iterating wellNamed
  have bareStart := bare_start distinct.nodup layout.className name false .boolean debugInfo cls
  obtain ⟨first, others, resume, length, bareBegun⟩ :=
    bare_moveNextStart bareStart rfl rfl beginning
  have opens := Drifting.enterScope _ _ _ iterating opening
  obtain rfl := enterScope_ok.mp opening
  have bareOpened : Bare body.ids [first, machine.exhausted]
      (begun.mapMethod MethodContext.enterScope) :=
    ⟨Tidy.ready_enterScope bareBegun.ready, bareBegun.frames⟩
  have resident : ∀ id ∈ body.captured, Resident (begun.mapMethod MethodContext.enterScope) id := by
    intro id member
    have known : id ∈ layout.promotion.resident := by rwa [promotion]
    exact start.resident covered known
  have iteratingOpened := opens.iterating iterating
  have empty : (begun.mapMethod MethodContext.enterScope).code.instructions = #[] :=
    start.instructions
  obtain ⟨enters, dispatch, bound⟩ := drifts_moveNextEntry named resume empty resident
    iteratingOpened entering
  obtain ⟨bare, -⟩ := bare_moveNextEntry distinct resume bareOpened entering
  have iteratingEntered := enters.iterating iteratingOpened
  have ready : entered.Ready entered.method.setting body.ids [] [] :=
    bare.ready.mono (List.Subperm.refl _) List.nil_subperm (List.Subperm.refl _)
  have lowers := callsSuspend_lowerWithin named _ _ _ _ bare.distinguished ready iteratingEntered
    lowering
  obtain ⟨ends, finishing, rfl, exhausted⟩ := suspends_moveNextEnd lowers.1 ending
  have advances : entered.code.Advances after.code := by
    obtain ⟨-, _, -, lowers⟩ := lowers
    obtain ⟨-, _, -, ends⟩ := ends
    exact lowers.advances.trans ends.advances
  have whole : SuspendsAmong machine body.elements begun after := by
    have before : SuspendsAmong machine [] begun entered :=
      .ofDrifts (opens.trans enters) iterating
    simpa using (before.trans lowers).trans ends
  obtain ⟨iteratingAfter, sites, among, suspends⟩ := whole
  have resumes : machine.resume.length = body.elements.length + 1 := by
    rw [resume, Stmt.length_elements, List.length_cons, length]
  have dispatches := advances.holds dispatch
  have finishes := Code.finishes_of_finish finishing
  have switches : .tableSwitch 0 (.ofNat (machine.resume.length - 1)) machine.exhausted
      machine.resume ∈ after.code.instructions := by
    refine Array.mem_def.mpr ?_
    refine List.IsPrefix.subset dispatches ?_
    simp [dispatching]
  have resumed : ∀ label ∈ machine.resume, ∃ position,
      after.code.position? label = some position :=
    fun label member => finishes.targets _ switches label (List.mem_cons_of_mem _ member)
  refine ⟨machine, after.code, sites, start.made, ?_, finishing, iteratingAfter.method.spills⟩
  exact
    { resume := resumes
      dispatch := dispatches
      start := ⟨first, by simp [resume], advances.grows.marks _ _ bound⟩
      exhausted := exhausted
      stmts := stmts_eq_of_bound resumes start.yieldCount iteratingAfter suspends among
        (waiting_moveNextEnd bare lowering ending) resumed
      ordered := suspends.ordered
      numbered := by
        intro index site found
        have numbered := suspends.numbered index site found
        rwa [start.yieldCount, Nat.zero_add] at numbered
      writes := by
        intro position field written isInstance
        refine suspends.writes position field ?_ written isInstance
        rw [Emission.size, Code.size, start.instructions]
        exact Nat.zero_le _ }

end Whole

end Emit
end StackCode
