import StackCode.Proofs.Plain

/-!
# What lowerings are composed of

A lowering is a sequence of few kinds of steps.  It adds to the code, it changes
what is kept track of beside the code, it may fail, and it lowers other statements.
What it reads is never the code itself: neither the instructions so far nor the
table of local variables decides how the lowering goes on.  Of the class it knows
neither the configuration nor the methods that were compiled before.

What a step refers to is known from outside or from what it has read before, and
the lambdas that it makes objects of have methods, where those are known.

Plain steps are composed ones that lower no statement.  This module says so once for
the other steps of lowering and for those that prepare a body.  What holds of the
kinds of steps then holds of all of them.
-/

namespace StackCode

/-! ## Changes of a method -/

namespace MethodContext

/-- Nothing that was made up is lost, and nothing unknown is referred to in addition. -/
structure Rewires
    (known : Reference → Prop)
    (targets : List (LambdaId × LambdaTarget))
    (before after : MethodContext) :
    Prop where
  refers : ∀ ref ∈ after.references, ref ∈ before.references ∨ known ref ∨ after.Spills ref
  lambdas : after.lambdas = before.lambdas
  frames : ∀ frame ∈ after.frames, frame ∈ before.frames ∨
    ∀ lambda, .lambda lambda ∈ frame.visits → (targets.lookup lambda.id).isSome
  spills : ∀ ref, before.Spills ref → after.Spills ref
  suspended : after.suspension.map Suspension.className =
    before.suspension.map Suspension.className

namespace Rewires

variable {known : Reference → Prop} {targets : List (LambdaId × LambdaTarget)}
variable {before after : MethodContext}

theorem mono {more : Reference → Prop} (rewires : before.Rewires known targets after)
    (weaker : ∀ ref, known ref → more ref) : before.Rewires more targets after :=
  { rewires with
    refers := fun ref member => (rewires.refers ref member).imp_right (.imp_left (weaker ref)) }

/-- Neither the lambdas nor the frames nor what is kept track of for suspensions changes. -/
theorem aside
    (refers : ∀ ref ∈ after.references, ref ∈ before.references ∨ known ref)
    (lambdas : after.lambdas = before.lambdas)
    (frames : after.frames = before.frames)
    (suspension : after.suspension = before.suspension) :
    before.Rewires known targets after where
  refers := fun ref member => (refers ref member).imp_right .inl
  lambdas := lambdas
  frames := fun _ member => .inl (frames ▸ member)
  spills := fun ref spilled => by simpa only [MethodContext.Spills, suspension] using spilled
  suspended := congrArg _ suspension

/-- What is kept track of for suspensions changes. -/
theorem ofSuspension
    {change : Suspension → Suspension} (method : MethodContext)
    (className : ∀ suspension, (change suspension).className = suspension.className)
    (spills : ∀ suspension, suspension.spills ⊆ (change suspension).spills)
    (refers : ∀ suspension, method.suspension = some suspension →
      ∀ ref ∈ (change suspension).references, ref ∈ suspension.references ∨ known ref ∨
        Spills { method with suspension := method.suspension.map change } ref) :
    method.Rewires known targets { method with suspension := method.suspension.map change } where
  refers := by
    intro ref member
    cases suspended : method.suspension with
    | none =>
      refine .inl ?_
      simpa only [MethodContext.references, suspended, Option.map_none] using member
    | some suspension =>
      have own := refers suspension suspended ref
      simp only [MethodContext.references, suspended, Option.map_some, Option.toList_some,
        List.flatMap_singleton, List.mem_append] at member own ⊢
      tauto
  lambdas := rfl
  frames := fun _ => .inl
  spills := by
    rintro ref ⟨suspension, spill, suspended, member, isInstance, rfl⟩
    refine ⟨change suspension, spill, ?_, spills suspension member, isInstance, ?_⟩
    · simp only [suspended, Option.map_some]
    · rw [className]
  suspended := by
    simp only [Option.map_map]
    exact Option.map_congr fun suspension _ => className suspension

/-- Frames are dropped, or put on top of the others. -/
theorem ofFrames
    {frames : List Frame} (method : MethodContext)
    (each : ∀ frame ∈ frames, frame ∈ method.frames ∨
      (∀ ref ∈ frame.references, known ref) ∧
        ∀ lambda, .lambda lambda ∈ frame.visits → (targets.lookup lambda.id).isSome) :
    method.Rewires known targets { method with frames } where
  refers := by
    intro ref member
    have listed : ref ∈ frames.flatMap Frame.references →
        ref ∈ method.frames.flatMap Frame.references ∨ known ref := by
      intro inside
      obtain ⟨frame, inside, refers⟩ := List.mem_flatMap.mp inside
      refine (each frame inside).imp (fun earlier => ?_) fun added => added.1 ref refers
      exact List.mem_flatMap.mpr ⟨frame, earlier, refers⟩
    simp only [MethodContext.references, List.mem_append] at member ⊢
    tauto
  lambdas := rfl
  frames := fun frame member => (each frame member).imp_right And.right
  spills := fun _ spilled => spilled
  suspended := rfl

end Rewires

end MethodContext

namespace Suspension

/-- One more temporary is kept in a field. -/
def spilling (suspension : Suspension) (slot : Nat) (type : Ty) : Suspension :=
  let name := "$tmp$" ++ toString suspension.spills.length
  let flags := AccessFlags.privateAccess ||| AccessFlags.synthetic
  let field := FieldRef.ofErased suspension.className name type.erasure
  { suspension with
    spills := suspension.spills ++ [{ name, type := type.erasure, flags }]
    live := suspension.live ++ [{ slot, kind := type.kind, field }] }

/-- The slots of the innermost scope are no longer saved. -/
def leaving (suspension : Suspension) : Suspension :=
  { suspension with
    live := suspension.live.take (suspension.scopeMarks.headD 0)
    scopeMarks := suspension.scopeMarks.tail }

end Suspension

namespace Emit

/-- The change of a method keeps its name and where its locals live, and does not see its code. -/
def ChangesUnseen (change : MethodContext → MethodContext) : Prop :=
  ∀ method code, change { method with code } =
    { change method with code, className := method.className, locals := method.locals }

namespace ChangesUnseen

variable {change : MethodContext → MethodContext}

theorem code_eq (unseen : ChangesUnseen change) (method : MethodContext) (code : Code) :
    change { method with code } = { change method with code } :=
  (unseen method code).trans
    (congrArg (fun changed : MethodContext => { changed with code })
      (unseen method method.code).symm)

theorem kept (unseen : ChangesUnseen change) (method : MethodContext) :
    (change method).className = method.className ∧ (change method).locals = method.locals := by
  have same := unseen method method.code
  exact ⟨congrArg (·.className) same, congrArg (·.locals) same⟩

end ChangesUnseen

/--
A step that depends on how statements are lowered, put together from elementary
ones.  It fails for want of a case only as its basis says.  It refers to nothing
but what is known before or read on the way; its value has the given references.
-/
inductive ComposedTo :
    Basis → {α : Type} → (refs : α → List Reference) → (Lowering → Emit α) → Prop where
  /-- Nothing happens. -/
  | pureTo {basis refs} {value : α} (valueKnown : ∀ ref ∈ refs value, basis.known ref) :
      ComposedTo basis refs fun _ => pure value
  /-- The step fails. -/
  | throw {basis refs} {error : Error}
      (missing : ∀ key span, error = .missingCaseLabel key span → basis.misses key span)
      (proper : basis.targets.isSome → error.breaksLink = false) :
      ComposedTo basis refs fun _ => (throw error : Emit α)
  /-- One step after the other. -/
  | bindTo {basis refs refs'} {first : Lowering → Emit α} {next : Lowering → α → Emit β}
      (firstComposed : ComposedTo basis refs first)
      (nextComposed : ∀ value,
        ComposedTo (basis.knowing (refs value)) refs' fun lower => next lower value) :
      ComposedTo basis refs' fun lower => first lower >>= next lower
  /-- The state of the method is read, but not its code. -/
  | reading {basis refs} {next : Lowering → MethodContext → Emit β}
      (unseen : ∀ lower method code, next lower { method with code } = next lower method)
      (nextComposed : ∀ method : MethodContext, (∀ found ∈ basis.targets, method.Resolves found) →
        ComposedTo (basis.knowing method.references) refs fun lower => next lower method) :
      ComposedTo basis refs fun lower => method >>= next lower
  /-- The state of the method is changed, but neither its code nor where its locals live. -/
  | modifyMethod {basis} {change : MethodContext → MethodContext}
      (unseen : ChangesUnseen change)
      (rewires : ∀ found ∈ basis.targets, ∀ method : MethodContext,
        method.Rewires basis.known found (change method)) :
      ComposedTo basis (fun _ => []) fun _ => modifyMethod change
  /-- A local gets its storage. -/
  | declareLocal {basis} (decl : LocalDecl) :
      ComposedTo basis LocalAccess.references fun _ => declareLocal decl
  /-- An instruction is appended. -/
  | emit {basis} {instruction : Instruction}
      (refers : ∀ ref ∈ instruction.references, basis.known ref) :
      ComposedTo basis (fun _ => []) fun _ => emit instruction
  /-- A label is handed out. -/
  | newLabel {basis} : ComposedTo basis (fun _ => []) fun _ => newLabel
  /-- A label is handed out for the current position. -/
  | here {basis} : ComposedTo basis (fun _ => []) fun _ => here
  /-- A label is bound. -/
  | mark {basis} (label : Label) : ComposedTo basis (fun _ => []) fun _ => mark label
  /-- Slots are reserved. -/
  | allocate {basis} (name : Option String) (type : Ty) :
      ComposedTo basis (fun _ => []) fun _ => takeCode fun code => code.allocate name type
  /-- A protected range is registered. -/
  | addRegion {basis} (region : Region) :
      ComposedTo basis (fun _ => []) fun _ => modifyCode fun code => code.addRegion region
  /-- A scope is opened. -/
  | openScope {basis} : ComposedTo basis (fun _ => []) fun _ => modifyCode Code.enterScope
  /-- A scope is closed. -/
  | closeScope {basis} : ComposedTo basis (fun _ => []) fun _ => tryCode Code.exitScope
  /-- The state of the class is read, but not what is generated for it. -/
  | readingClass {basis refs} {next : Lowering → ClassContext → Emit β}
      (unseen : ∀ lower cls config methods nested,
        next lower { cls with config, methods, nested } = next lower cls)
      (nextComposed : ∀ cls, ComposedTo basis refs fun lower => next lower cls) :
      ComposedTo basis refs fun lower => cls >>= next lower
  /-- Something is taken out of the class. -/
  | takeClass {basis refs} {take : ClassContext → α × ClassContext}
      (unseen : TakesUnseen take)
      (quiet : basis.targets.isSome → ∀ cls : ClassContext, cls.Quiet (take cls).2 ∧
        ∀ ref ∈ refs (take cls).1, (take cls).2.Provides ref) :
      ComposedTo basis refs fun _ => takeClass take
  /-- A message is left. -/
  | log {basis} (level : LogLevel) (text : String) :
      ComposedTo basis (fun _ => []) fun _ => log level text
  /-- A statement is lowered. -/
  | call {basis} {stmt : Stmt}
      (library : Library.KnownTo basis.known)
      (reads : Reads basis (stmt.visits false)) :
      ComposedTo basis (fun _ => []) fun lower => lower stmt

/-- A composed step whose value has no references. -/
abbrev Composed (basis : Basis) (step : Lowering → Emit α) : Prop :=
  ComposedTo basis (fun _ => []) step

/-- The lowering of a statement inside is composed. -/
abbrev Composes (basis : Basis) (stmt : Stmt) : Prop := Composed basis fun lower => lower stmt

namespace ComposedTo

variable {basis : Basis}
variable {refs : α → List Reference} {refs' : β → List Reference}
variable {values : List α}

/-! ## Sequences -/

/-- More may be known. -/
theorem mono {more : Reference → Prop} {step : Lowering → Emit α}
    (composed : ComposedTo basis refs step)
    (weaker : ∀ ref, basis.known ref → more ref) :
    ComposedTo { basis with known := more } refs step := by
  induction composed generalizing more with
  | pureTo valueKnown => exact .pureTo fun ref member => weaker ref (valueKnown ref member)
  | throw missing proper => exact .throw missing proper
  | bindTo _ _ firstHypothesis nextHypothesis =>
    exact .bindTo (firstHypothesis weaker) fun value =>
      nextHypothesis value fun ref => Or.imp_right (weaker ref)
  | reading unseen _ nextHypothesis =>
    exact .reading unseen fun method resolves =>
      nextHypothesis method resolves fun ref => Or.imp_right (weaker ref)
  | modifyMethod unseen rewires =>
    exact .modifyMethod unseen fun found member method => (rewires found member method).mono weaker
  | declareLocal decl => exact .declareLocal decl
  | emit refers => exact .emit fun ref member => weaker ref (refers ref member)
  | newLabel => exact .newLabel
  | here => exact .here
  | mark label => exact .mark label
  | allocate name type => exact .allocate name type
  | addRegion region => exact .addRegion region
  | openScope => exact .openScope
  | closeScope => exact .closeScope
  | readingClass unseen _ nextHypothesis =>
    exact .readingClass unseen fun cls => nextHypothesis cls weaker
  | takeClass unseen quiet => exact .takeClass unseen quiet
  | log level text => exact .log level text
  | call library reads =>
    exact .call (fun ref member => weaker ref (library ref member)) (reads.mono weaker)

/-- What the value of the first step refers to does not matter. -/
theorem andThen
    {first : Lowering → Emit α} {next : Lowering → α → Emit β}
    (firstComposed : ComposedTo basis refs first)
    (nextComposed : ∀ value, ComposedTo basis refs' fun lower => next lower value) :
    ComposedTo basis refs' fun lower => first lower >>= next lower :=
  .bindTo firstComposed fun value => (nextComposed value).mono fun _ => .inr

theorem bind
    {first : Lowering → Emit α} {next : Lowering → α → Emit β}
    (firstComposed : Composed basis first)
    (nextComposed : ∀ value, ComposedTo basis refs' fun lower => next lower value) :
    ComposedTo basis refs' fun lower => first lower >>= next lower :=
  andThen firstComposed nextComposed

theorem seq
    {first : Lowering → Emit PUnit} {next : Lowering → Emit β}
    (firstComposed : Composed basis first)
    (nextComposed : ComposedTo basis refs' next) :
    ComposedTo basis refs' fun lower => first lower >>= fun _ => next lower :=
  .bind firstComposed fun _ => nextComposed

theorem pure (value : α) : Composed basis fun _ => (pure value : Emit α) :=
  .pureTo nofun

end ComposedTo

/-- Plain steps are composed, whatever they are allowed to do. -/
theorem PlainTo.composed
    {basis : Basis} {allowed : Label → Prop} {bound : List Label}
    {refs : α → List Reference} {step : Emit α}
    (plain : PlainTo (fun _ => True) basis allowed bound refs step) :
    ComposedTo basis refs fun _ => step := by
  induction plain with
  | pureTo valueKnown => exact .pureTo valueKnown
  | throw proper linked =>
    refine .throw ?_ linked
    rintro _ _ rfl
    exact nomatch proper
  | bindTo _ _ _ firstHypothesis nextHypothesis => exact .bindTo firstHypothesis nextHypothesis
  | reading unseen _ nextHypothesis =>
    exact .reading (fun _ => unseen) fun method => nextHypothesis method method.storesTo_all
  | emit _ _ refers => exact .emit refers
  | fresh _ nextHypothesis => exact .bind .newLabel nextHypothesis
  | mark _ _ => exact .mark _
  | allocate name type => exact .allocate name type
  | takeClass unseen quiet => exact .takeClass unseen fun _ => quiet
  | log level text => exact .log level text

namespace ComposedTo

variable {basis : Basis}
variable {refs : α → List Reference} {refs' : β → List Reference}
variable {values : List α}

/-- The step fails, but neither for want of a case nor for want of a member. -/
theorem fail {error : Error} (proper : (error.missesCase || error.breaksLink) = false) :
    ComposedTo basis refs fun _ => (MonadExcept.throw error : Emit α) := by
  rw [Bool.or_eq_false_iff] at proper
  refine .throw ?_ fun _ => proper.2
  rintro _ _ rfl
  exact nomatch proper.1

/-- The state is read, and what is in it does not matter. -/
theorem looking
    {next : Lowering → MethodContext → Emit β}
    (unseen : ∀ lower method code, next lower { method with code } = next lower method)
    (nextComposed : ∀ method, ComposedTo basis refs' fun lower => next lower method) :
    ComposedTo basis refs' fun lower => method >>= next lower :=
  .reading unseen fun method _ => (nextComposed method).mono fun _ => .inr

theorem ite
    {condition : Prop}
    [Decidable condition]
    {first second : Lowering → Emit α}
    (firstComposed : ComposedTo basis refs first)
    (secondComposed : ComposedTo basis refs second) :
    ComposedTo basis refs
      fun lower => if condition then first lower else second lower := by
  by_cases holds : condition
  · simpa only [if_pos holds] using firstComposed
  · simpa only [if_neg holds] using secondComposed

/-- A step is taken before those that follow, or it is not. -/
theorem seqIf
    {condition : Prop}
    [Decidable condition]
    {first : Lowering → Emit Unit} {next : Lowering → Unit → Emit β}
    (firstComposed : Composed basis first)
    (nextComposed : ComposedTo basis refs' fun lower => next lower ()) :
    ComposedTo basis refs'
      fun lower => if condition then first lower >>= next lower else next lower () :=
  ite (bind firstComposed fun _ => nextComposed) nextComposed

theorem forM
    {step : Lowering → α → Emit PUnit}
    (stepComposed : ∀ value ∈ values, Composed basis fun lower => step lower value) :
    Composed basis fun lower => values.forM (step lower) := by
  induction values with
  | nil => exact pure _
  | cons value values ih =>
    rw [List.forall_mem_cons] at stepComposed
    exact seq stepComposed.1 (ih stepComposed.2)

theorem optionForM
    {value : Option α} {step : Lowering → α → Emit PUnit}
    (stepComposed : ∀ found ∈ value, Composed basis fun lower => step lower found) :
    Composed basis fun lower => value.forM (step lower) := by
  cases value with
  | none => exact pure _
  | some found => exact stepComposed found rfl

theorem mapM
    {step : Lowering → α → Emit β}
    (stepComposed : ∀ value ∈ values, Composed basis fun lower => step lower value) :
    Composed basis fun lower => values.mapM (step lower) := by
  induction values with
  | nil => exact pure _
  | cons value values ih =>
    rw [List.forall_mem_cons] at stepComposed
    simp only [List.mapM_cons]
    exact bind stepComposed.1 fun _ => bind (ih stepComposed.2) fun _ => pure _

/-! ## Code -/

/-- Plain steps lower no statement. -/
theorem code {step : Emit α}
    (plain : PlainTo (fun _ => True) basis (fun _ => True) [] refs step) :
    ComposedTo basis refs fun _ => step := plain.composed

theorem op (opcode : Opcode) : Composed basis fun _ => op opcode := .emit nofun

theorem push (value : Const) : Composed basis fun _ => push value := .emit nofun

theorem load (kind : ValueKind) (slot : Nat) :
    Composed basis fun _ => load kind slot := .emit nofun

theorem store (kind : ValueKind) (slot : Nat) :
    Composed basis fun _ => store kind slot := .emit nofun

theorem jump (op : Opcode) (target : Label) :
    Composed basis fun _ => jump op target := .emit nofun

theorem goto (target : Label) : Composed basis fun _ => goto target := .emit nofun

theorem checkCast (type : Erased) : Composed basis fun _ => checkCast type :=
  .emit nofun

theorem invoke {method : MethodRef} (found : basis.known (.method method)) :
    Composed basis fun _ => invoke method :=
  .emit fun _ member => List.mem_singleton.mp member ▸ found

theorem putField {field : FieldRef} (found : basis.known (.field field)) :
    Composed basis fun _ => putField field :=
  .emit fun _ member => List.mem_singleton.mp member ▸ found

/-! ## Changes beside the code -/

/-- The state of the method is changed, but for what it refers to. -/
theorem modifyAside {change : MethodContext → MethodContext}
    (aside : ∀ method code, change { method with code } =
      { change method with
        code
        className := method.className
        locals := method.locals
        selfPath := method.selfPath
        lambdas := method.lambdas
        frames := method.frames
        suspension := method.suspension }) :
    Composed basis fun _ => Emit.modifyMethod change := by
  refine .modifyMethod (fun method code => ?_) fun found _ method => ?_
  · have same := aside method method.code
    rw [aside]
    rw [show change method = _ from same]
  · have same : change method = _ := aside method method.code
    rw [same]
    exact .aside (fun _ => .inl) rfl rfl rfl

theorem labelsOf (id : StmtId) : Composed basis fun _ => labelsOf id := by
  refine looking (fun _ _ _ => rfl) fun found => bind ?_ fun _ => seq ?_ (pure _)
  · unfold LabelTable.getOrAllocate
    cases found.labels.get? id with
    | some labels => exact pure _
    | none =>
      exact bind .newLabel fun _ => bind .newLabel fun _ => bind .newLabel fun _ => pure _
  · exact modifyAside fun _ _ => rfl

theorem newLabels (count : Nat) : Composed basis fun _ => newLabels count := by
  induction count with
  | zero => exact pure _
  | succ count ih =>
    exact bind .newLabel fun _ => bind ih fun _ => pure _

/-- What is kept track of for suspensions changes. -/
theorem modifySuspension
    {change : Suspension → Suspension}
    (className : ∀ suspension, (change suspension).className = suspension.className)
    (spills : ∀ suspension, (change suspension).spills = suspension.spills)
    (refers : ∀ suspension, ∀ ref ∈ (change suspension).references,
      ref ∈ suspension.references ∨ basis.known ref) :
    Composed basis fun _ => Emit.modifyMethod fun method =>
      { method with suspension := method.suspension.map change } := by
  refine .modifyMethod (fun _ _ => rfl) fun _ _ method => .ofSuspension method className ?_ ?_
  · exact fun suspension _ member => (spills suspension).symm ▸ member
  · exact fun suspension _ ref member => (refers suspension ref member).imp_right .inl

theorem enterScope : Composed basis fun _ => enterScope :=
  seq .openScope (modifySuspension (fun _ => rfl) (fun _ => rfl) fun _ _ => .inl)

/-- Leaving a scope is one change of what is kept track of. -/
theorem exitScope_eq :
    exitScope = (do
      tryCode Code.exitScope
      let method ← method
      if method.suspension.any (·.scopeMarks.isEmpty) then MonadExcept.throw .scopeUnderflow
      else Emit.modifyMethod fun method =>
        { method with suspension := method.suspension.map Suspension.leaving }) := by
  unfold exitScope
  congr 1
  funext _ state
  rw [method_bind, method_bind]
  obtain ⟨method, cls⟩ := state
  cases suspended : method.suspension with
  | none =>
    obtain ⟨⟩ := method
    cases suspended
    rfl
  | some suspension =>
    cases marks : suspension.scopeMarks with
    | nil => simp [marks]
    | cons mark outer =>
      simp only [Option.any_some, marks, List.isEmpty_cons, Bool.false_eq_true, if_false]
      refine modifyMethod_ok.mpr ?_
      simp [Emission.mapMethod, suspended, marks, Suspension.leaving]

theorem exitScope : Composed basis fun _ => exitScope := by
  rw [exitScope_eq]
  refine seq .closeScope (looking (fun _ _ _ => rfl) fun _ => ite (fail rfl) ?_)
  refine modifySuspension (fun _ => rfl) (fun _ => rfl) fun suspension ref member => .inl ?_
  simp only [Suspension.references, Suspension.leaving, List.mem_append, List.mem_map] at member ⊢
  refine member.imp_right ?_
  rintro ⟨saved, inside, same⟩
  exact ⟨saved, List.mem_of_mem_take inside, same⟩

theorem inScope {step : Lowering → Emit Unit} (stepComposed : Composed basis step) :
    Composed basis fun lower => inScope (step lower) :=
  seq enterScope (seq stepComposed exitScope)

theorem newTemp (type : Ty) : Composed basis fun _ => newTemp type :=
  .allocate none type

/-- Keeping a temporary is one change of what is kept track of. -/
theorem newSpillTemp_eq (type : Ty) (spans : Bool) :
    newSpillTemp type spans = (do
      let slot ← Emit.newTemp type
      if spans then
        Emit.modifyMethod fun method =>
          { method with
            suspension := method.suspension.map fun suspension => suspension.spilling slot type }
      return slot) := by
  unfold newSpillTemp
  congr 1
  funext slot state
  rw [method_bind]
  obtain ⟨method, cls⟩ := state
  cases suspended : method.suspension with
  | none =>
    obtain ⟨⟩ := method
    cases suspended
    cases spans <;> rfl
  | some suspension =>
    cases spans with
    | false => rfl
    | true =>
      refine bind_ok.mpr
        ⟨(), _, modifyMethod_ok.mpr rfl, bind_ok.mpr ⟨(), _, modifyMethod_ok.mpr rfl, ?_⟩⟩
      simp only [Emission.mapMethod, suspended, Option.map_some]
      rfl

/-- A temporary that spans a suspension is kept in a field that is made up for it. -/
theorem newSpillTemp (type : Ty) (spans : Bool) :
    Composed basis fun _ => newSpillTemp type spans := by
  rw [newSpillTemp_eq]
  refine bind (newTemp type) fun slot => seqIf ?_ (pure slot)
  refine .modifyMethod (fun _ _ => rfl) fun _ _ method => .ofSuspension method (fun _ => rfl) ?_ ?_
  · exact fun _ => List.subset_append_left _ _
  · intro suspension suspended ref member
    simp only [Suspension.references, Suspension.spilling, List.map_append, List.map_cons,
      List.map_nil, List.mem_append, List.mem_singleton] at member ⊢
    obtain member | member | rfl := member
    · exact .inl (.inl member)
    · exact .inl (.inr member)
    · refine .inr (.inr ⟨suspension.spilling slot type, _, ?_,
        List.mem_append_right _ (List.mem_singleton_self _), ?_, rfl⟩)
      · exact congrArg (Option.map _) suspended
      · change ((AccessFlags.privateAccess ||| AccessFlags.synthetic) &&& AccessFlags.static != 0)
          = false
        decide

theorem reserveSelf : Composed basis fun _ => reserveSelf := by
  refine looking (fun _ _ _ => rfl) fun found => ite ?_ (pure _)
  exact bind (.allocate _ _) fun _ => pure _

/-! ## Frames and protected regions -/

/-- Frames are put on top of the others. -/
theorem restoreFrames
    {detached : List Frame}
    (refers : ∀ frame ∈ detached, ∀ ref ∈ frame.references, basis.known ref)
    (compiled : ∀ frame ∈ detached, ∀ lambda, .lambda lambda ∈ frame.visits →
      ∀ found ∈ basis.targets, (found.lookup lambda.id).isSome) :
    Composed basis fun _ => restoreFrames detached := by
  refine .modifyMethod (fun _ _ => rfl) fun found listed method => .ofFrames method ?_
  intro frame member
  obtain member | member := List.mem_append.mp member
  · exact .inr ⟨refers frame member, fun lambda inside =>
      compiled frame member lambda inside found listed⟩
  · exact .inl member

/-- A frame may refer to what is known only. -/
theorem pushFrame
    {kind : FrameKind} (id : StmtId)
    (refers : ∀ ref ∈ Frame.references ⟨id, kind⟩, basis.known ref)
    (compiled : ∀ lambda, .lambda lambda ∈ Frame.visits ⟨id, kind⟩ →
      ∀ found ∈ basis.targets, (found.lookup lambda.id).isSome) :
    Composed basis fun _ => pushFrame id kind := by
  have restored : Composed basis fun _ => Emit.restoreFrames [⟨id, kind⟩] :=
    restoreFrames (List.forall_mem_singleton.mpr refers) (List.forall_mem_singleton.mpr compiled)
  exact restored

/-- Frames are dropped. -/
theorem dropFrames (change : List Frame → List Frame) (fewer : ∀ frames, change frames ⊆ frames) :
    Composed basis fun _ =>
      Emit.modifyMethod fun method => { method with frames := change method.frames } :=
  .modifyMethod (fun _ _ => rfl) fun _ _ method =>
    .ofFrames method fun _ member => .inl (fewer _ member)

theorem popFrame : Composed basis fun _ => popFrame :=
  dropFrames List.tail fun _ => List.tail_subset _

theorem pushLoop (id : StmtId) : Composed basis fun _ => Emit.pushFrame id .loop :=
  pushFrame id nofun nofun

/-- A step runs with fewer frames, and then they are all there again. -/
theorem withOuterFrames
    {step : Lowering → Emit Unit} (depth : Nat)
    (stepComposed : Composed basis step) :
    Composed basis fun lower => withOuterFrames depth (step lower) := by
  have composed : Composed basis fun lower => (do
      let method ← method
      let inner := method.frames.length - depth
      Emit.modifyMethod fun method =>
        { method with frames := method.frames.drop (method.frames.length - depth) }
      step lower
      Emit.restoreFrames (method.frames.take inner)) := by
    refine .reading (fun _ _ _ => rfl) fun method resolves => ?_
    have taken : ∀ frame ∈ method.frames.take (method.frames.length - depth),
        frame ∈ method.frames := fun _ => List.mem_of_mem_take
    refine seq (dropFrames (fun frames => frames.drop (frames.length - depth)) ?_) ?_
    · exact fun _ => List.drop_subset _ _
    · refine seq (stepComposed.mono fun _ => .inr) (restoreFrames ?_ ?_)
      · exact fun frame member ref inside =>
          .inl (MethodContext.mem_references_of_frame (taken frame member) ref inside)
      · exact fun frame member lambda inside found given =>
          (resolves found given).frames frame (taken frame member) lambda inside
  exact composed

theorem modifyRegion (region : RegionId) (change : OpenRegion → OpenRegion) :
    Composed basis fun _ => modifyRegion region change := by
  refine looking (fun _ _ _ => rfl) fun found => ?_
  cases found.regions[region]? with
  | some known => exact modifyAside fun _ _ => rfl
  | none => exact fail rfl

theorem openRegion : Composed basis fun _ => openRegion :=
  bind .here fun _ => looking (fun _ _ _ => rfl) fun _ => seq (modifyAside fun _ _ => rfl) (pure _)

theorem suspendRegion (region : RegionId) : Composed basis fun _ => suspendRegion region :=
  bind .here fun _ => modifyRegion _ _

theorem resumeRegion (region : RegionId) : Composed basis fun _ => resumeRegion region :=
  bind .here fun _ => modifyRegion _ _

theorem closeRegion (region : RegionId) : Composed basis fun _ => closeRegion region :=
  seq (suspendRegion region) (looking (fun _ _ _ => rfl) fun _ => seq (modifyRegion _ _) (pure _))

theorem protect (segments : List (Label × Label)) (handler : Label) (catchType : Option Ty) :
    Composed basis fun _ => protect segments handler catchType :=
  forM fun _ _ => .addRegion _

/-! ## Storage of locals -/

theorem declareLocals (decls : List LocalDecl) :
    Composed basis fun _ => decls.forM fun decl => discard (Emit.declareLocal decl) :=
  forM fun decl _ => andThen (.declareLocal decl) fun _ => pure _

theorem declareKept (layout : IteratorClass.Layout) (params : List LocalDecl) :
    Composed basis fun _ => IteratorClass.declareKept layout params :=
  forM fun param _ => ite (andThen (.declareLocal param) fun _ => pure _) (pure ())

theorem isPromoted (id : LocalId) : Composed basis fun _ => isPromoted id :=
  bind (looking (fun _ _ _ => rfl) fun _ => pure _) fun _ => pure _

theorem storeDeclared (decl : LocalDecl) (span : Span) :
    Composed basis fun _ => storeDeclared decl span := by
  refine andThen (.declareLocal decl) fun access => ?_
  cases access with
  | slot slot kind => exact seq (store kind slot) (pure slot)
  | captured holder path =>
    refine seq (op .dup) (bind (newTemp _) fun temp => seq (store _ temp) ?_)
    exact seq (code (.storeLocal _ _ _)) (pure temp)

end ComposedTo
end Emit
end StackCode
