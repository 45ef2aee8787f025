import StackCode.Proofs.ComposedLowering
import StackCode.Proofs.Growth

/-!
# Lowering refers to known members

While a body is lowered, everything that its code refers to is known from outside
or has been made up before.  A composed step that is given known references makes
no other ones, and it finds the methods of the lambdas that it is given.
-/

namespace StackCode

variable {σ : Type} {before after : Emission}

/-- A sequence fails where its first step fails, and goes on where that succeeds. -/
theorem bind_cases
    {Holds : EStateM.Result Error σ β → Prop} {first : EStateM Error σ α}
    {next : α → EStateM Error σ β} {before : σ}
    (failed : ∀ error after, first before = .error error after → Holds (.error error after))
    (went : ∀ value between, first before = .ok value between → Holds (next value between)) :
    Holds ((first >>= next) before) := by
  change Holds (EStateM.bind first next before)
  unfold EStateM.bind
  cases ran : first before with
  | ok value between => exact went value between ran
  | error error after => exact failed error after ran

/-- What holds of the result of its first step is known where a sequence goes on. -/
theorem bind_of_result
    {First : EStateM.Result Error σ α → Prop} {Holds : EStateM.Result Error σ β → Prop}
    {first : EStateM Error σ α} {next : α → EStateM Error σ β} {before : σ}
    (firstResult : First (first before))
    (failed : ∀ error after, First (.error error after) → Holds (.error error after))
    (went : ∀ value between, first before = .ok value between → First (.ok value between) →
      Holds (next value between)) :
    Holds ((first >>= next) before) := by
  refine bind_cases (fun error after ran => ?_) fun value between ran => ?_
  · exact failed error after (ran ▸ firstResult)
  · exact went value between ran (ran ▸ firstResult)

/-- A result that holds in one sense holds in another. -/
theorem result_imp
    {Holds Other : EStateM.Result Error σ α → Prop} {result : EStateM.Result Error σ α}
    (holds : Holds result)
    (failed : ∀ error after, Holds (.error error after) → Other (.error error after))
    (went : ∀ value after, Holds (.ok value after) → Other (.ok value after)) :
    Other result := by
  cases result with
  | ok value after => exact went value after holds
  | error error after => exact failed error after holds

section

variable {known : Reference → Prop} {targets : List (LambdaId × LambdaTarget)}

/-- What is known in a state, and that the lambdas around it have methods. -/
structure Emission.Linked (known : Reference → Prop) (targets : List (LambdaId × LambdaTarget))
    (state : Emission) : Prop where
  refers : ∀ ref ∈ state.method.references, known ref ∨ state.Provides ref
  lambdas : state.method.lambdas = targets
  frames : ∀ frame ∈ state.method.frames, ∀ lambda, .lambda lambda ∈ frame.visits →
    (targets.lookup lambda.id).isSome

/-- More is known. -/
theorem Emission.Linked.mono {more : Reference → Prop} {state : Emission}
    (linked : state.Linked known targets) (weaker : ∀ ref, known ref → more ref) :
    state.Linked more targets :=
  { linked with refers := fun ref member => (linked.refers ref member).imp_left (weaker ref) }

end

theorem MethodContext.not_spills
    {method : MethodContext}
    (unsuspended : method.suspension.map Suspension.className = none)
    (ref : Reference) :
    ¬method.Spills ref := by
  rintro ⟨suspension, _, suspended, -⟩
  simp [suspended] at unsuspended

theorem ClassContext.Quiet.provides {before after : ClassContext} (quiet : before.Quiet after)
    {ref : Reference} (provides : before.Provides ref) : after.Provides ref := by
  cases provides with
  | field owner member answers =>
    exact .field (owner.trans quiet.name.symm) (quiet.fields.subset member) answers
  | method member answers => exact .method (quiet.methods ▸ member) answers
  | nested member defines => exact .nested (quiet.nested ▸ member) defines

/-- Nothing that was made up is lost, and no method or class is finished on the way. -/
structure Emission.Grows (before after : Emission) : Prop where
  quiet : before.cls.Quiet after.cls
  spills : ∀ ref, before.method.Spills ref → after.method.Spills ref
  suspended : after.method.suspension.map Suspension.className =
    before.method.suspension.map Suspension.className
  className : after.method.className = before.method.className

namespace Emission.Grows

theorem refl (state : Emission) : state.Grows state :=
  ⟨.refl _, fun _ spilled => spilled, rfl, rfl⟩

theorem trans {between : Emission} (first : before.Grows between)
    (second : between.Grows after) : before.Grows after where
  quiet := first.quiet.trans second.quiet
  spills ref spilled := second.spills ref (first.spills ref spilled)
  suspended := second.suspended.trans first.suspended
  className := second.className.trans first.className

theorem provides (grows : before.Grows after) {ref : Reference}
    (provided : before.Provides ref) : after.Provides ref :=
  provided.imp grows.quiet.provides (grows.spills ref)

theorem mapMethod (before : Emission) (change : MethodContext → MethodContext)
    (suspension : (change before.method).suspension = before.method.suspension)
    (className : (change before.method).className = before.method.className) :
    before.Grows (before.mapMethod change) where
  quiet := .refl _
  spills := by
    rintro ref ⟨found, spill, suspended, rest⟩
    exact ⟨found, spill, suspension.trans suspended, rest⟩
  suspended := congrArg _ suspension
  className := className

end Emission.Grows

namespace Emit

/-- The result of a step: what it refers to is known, and nothing that was made up is lost. -/
def Result.Links
    (known : Reference → Prop)
    (targets : List (LambdaId × LambdaTarget))
    (refs : α → List Reference)
    (before : Emission) :
    EStateM.Result Error Emission α → Prop
  | .ok value after =>
    after.Linked known targets ∧ before.Grows after ∧
      ∀ ref ∈ refs value, known ref ∨ after.Provides ref
  | .error error _ => error.breaksLink = false

/-- A step that refers to nothing unknown; so does its value, which has the given references. -/
def LinksTo
    (known : Reference → Prop)
    (targets : List (LambdaId × LambdaTarget))
    (refs : α → List Reference)
    (step : Emit α) :
    Prop :=
  ∀ before, before.Linked known targets → Result.Links known targets refs before (step before)

/-- A step that refers to nothing unknown. -/
abbrev Links
    (known : Reference → Prop)
    (targets : List (LambdaId × LambdaTarget))
    (step : Emit α) :
    Prop :=
  LinksTo known targets (fun _ => []) step

variable {known : Reference → Prop} {targets : List (LambdaId × LambdaTarget)}

namespace LinksTo

variable {refs : α → List Reference} {refs' : β → List Reference}
variable {first : Emit α} {next : α → Emit β}

/-- The value of the first step is known to the second one. -/
theorem bindAt
    (firstResult : Result.Links known targets refs before (first before))
    (nextLinks : ∀ value,
      LinksTo (fun ref => ref ∈ refs value ∨ known ref) targets refs' (next value)) :
    Result.Links known targets refs' before ((first >>= next) before) := by
  refine bind_of_result firstResult (fun _ _ => id) fun value between _ firstResult => ?_
  obtain ⟨linkedBetween, grows, valueKnown⟩ := firstResult
  refine result_imp (nextLinks value between (linkedBetween.mono fun _ => .inr))
    (fun _ _ => id) fun _ after nextResult => ?_
  obtain ⟨linkedAfter, growsNext, resultKnown⟩ := nextResult
  have settle : ∀ ref, (ref ∈ refs value ∨ known ref) ∨ after.Provides ref →
      known ref ∨ after.Provides ref := by
    rintro ref ((member | found) | provided)
    · exact (valueKnown ref member).imp_right growsNext.provides
    · exact .inl found
    · exact .inr provided
  refine ⟨{ linkedAfter with refers := ?_ }, grows.trans growsNext, ?_⟩
  · exact fun ref member => settle ref (linkedAfter.refers ref member)
  · exact fun ref member => settle ref (resultKnown ref member)

theorem bindTo
    (firstLinks : LinksTo known targets refs first)
    (nextLinks : ∀ value,
      LinksTo (fun ref => ref ∈ refs value ∨ known ref) targets refs' (next value)) :
    LinksTo known targets refs' (first >>= next) :=
  fun before linked => bindAt (firstLinks before linked) nextLinks

theorem bind
    (firstLinks : Links known targets first)
    (nextLinks : ∀ value, LinksTo known targets refs' (next value)) :
    LinksTo known targets refs' (first >>= next) := by
  refine bindTo firstLinks fun value => ?_
  have same : (fun ref => ref ∈ ([] : List Reference) ∨ known ref) = known := by simp
  rw [same]
  exact nextLinks value

theorem seq
    {first : Emit PUnit} {next : Emit β}
    (firstLinks : Links known targets first)
    (nextLinks : LinksTo known targets refs' next) :
    LinksTo known targets refs' (first >>= fun _ => next) :=
  bind firstLinks fun _ => nextLinks

theorem pureTo {value : α} (valueKnown : ∀ ref ∈ refs value, known ref) :
    LinksTo known targets refs (pure value) :=
  fun before linked => ⟨linked, .refl before, fun ref member => .inl (valueKnown ref member)⟩

theorem pure (value : α) : Links known targets (pure value : Emit α) := pureTo nofun

theorem throw {error : Error} (proper : error.breaksLink = false) :
    LinksTo known targets refs (throw error : Emit α) :=
  fun _ _ => proper

theorem forM {values : List α} {step : α → Emit PUnit}
    (stepLinks : ∀ value ∈ values, Links known targets (step value)) :
    Links known targets (values.forM step) :=
  forM_of_steps (pure _) seq stepLinks

theorem ite {condition : Prop} [Decidable condition] {step other : Emit α}
    (stepLinks : condition → LinksTo known targets refs step)
    (otherLinks : ¬condition → LinksTo known targets refs other) :
    LinksTo known targets refs (if condition then step else other) :=
  iteInduction stepLinks otherLinks

end LinksTo

/-! ## Elementary steps -/

/-- What a method refers to stays known, and nothing that was made up is lost. -/
theorem linked_of_rewires
    (after : Emission)
    (linked : before.Linked known targets)
    (rewires : before.method.Rewires known targets after.method)
    (className : after.method.className = before.method.className)
    (quiet : before.cls.Quiet after.cls) :
    after.Linked known targets ∧ before.Grows after := by
  have grows : before.Grows after := ⟨quiet, rewires.spills, rewires.suspended, className⟩
  refine ⟨⟨fun ref member => ?_, rewires.lambdas.trans linked.lambdas,
    fun frame member => ?_⟩, grows⟩
  · obtain earlier | found | spilled := rewires.refers ref member
    · exact (linked.refers ref earlier).imp_right grows.provides
    · exact .inl found
    · exact .inr (.inr spilled)
  · exact (rewires.frames frame member).elim (linked.frames frame) id

namespace LinksTo

variable {refs : α → List Reference} {refs' : β → List Reference}

/-- A method is changed so that it refers to nothing unknown. -/
theorem modifyMethod {change : MethodContext → MethodContext}
    (rewires : ∀ method : MethodContext, method.Rewires known targets (change method))
    (className : ∀ method : MethodContext, (change method).className = method.className) :
    Links known targets (modifyMethod change) := by
  intro before linked
  obtain ⟨linkedAfter, grows⟩ := linked_of_rewires (before.mapMethod change) linked
    (rewires before.method) (className before.method) (.refl _)
  exact ⟨linkedAfter, grows, List.forall_mem_nil _⟩

/-- Instructions are appended that refer to nothing unknown. -/
theorem modifyCode {change : Code → Code}
    (refers : ∀ code : Code,
      ∀ ref ∈ (change code).instructions.toList.flatMap Instruction.references,
      ref ∈ code.instructions.toList.flatMap Instruction.references ∨ known ref) :
    Links known targets (modifyCode change) := by
  refine modifyMethod (fun method => .aside (fun ref member => ?_) rfl rfl rfl) fun _ => rfl
  have inside := refers method.code ref
  simp only [MethodContext.references, List.mem_append] at member ⊢
  tauto

/-- The code changes, but its instructions do not. -/
theorem linked_mapCode
    (change : Code → Code)
    (linked : before.Linked known targets)
    (same : (change before.method.code).instructions = before.method.code.instructions) :
    (before.mapCode change).Linked known targets ∧ before.Grows (before.mapCode change) := by
  refine linked_of_rewires _ linked (.aside (fun _ member => .inl ?_) rfl rfl rfl) rfl (.refl _)
  simpa only [MethodContext.references, Emission.mapCode, Emission.mapMethod, same] using member

theorem takeCode {take : Code → α × Code}
    (same : ∀ code, (take code).2.instructions = code.instructions) :
    Links known targets (takeCode take) := by
  intro before linked
  obtain ⟨linkedAfter, grows⟩ := linked_mapCode (fun code => (take code).2) linked (same _)
  exact ⟨linkedAfter, grows, List.forall_mem_nil _⟩

/-- A change of the code adds no instructions, or fails. -/
theorem tryCode
    {change : Code → Except Error Code}
    (same : ∀ code result, change code = .ok result → result.instructions = code.instructions)
    (proper : ∀ code error, change code = .error error → error.breaksLink = false) :
    Links known targets (tryCode change) := by
  intro before linked
  rw [Emit.tryCode, method_bind]
  cases changed : change before.method.code with
  | error error => exact proper _ _ changed
  | ok code =>
    obtain ⟨linkedAfter, grows⟩ := linked_mapCode (fun _ => code) linked (same _ _ changed)
    exact ⟨linkedAfter, grows, List.forall_mem_nil _⟩

theorem mark (label : Label) : Links known targets (mark label) := by
  refine tryCode ?_ ?_
  · intro code result marked
    obtain ⟨-, rfl⟩ := (Code.mark_eq_ok_iff code result label).mp marked
    rfl
  · intro code error failed
    unfold Code.mark at failed
    split at failed
    · cases failed
      rfl
    · cases failed
      rfl
    · contradiction

theorem closeScope : Links known targets (Emit.tryCode Code.exitScope) := by
  refine tryCode ?_ ?_
  · intro code result exited
    unfold Code.exitScope at exited
    split at exited
    · contradiction
    · cases exited
      rfl
  · intro code error failed
    obtain ⟨-, rfl⟩ := (Code.exitScope_eq_error_iff code error).mp failed
    rfl

theorem emit {instruction : Instruction} (refers : ∀ ref ∈ instruction.references, known ref) :
    Links known targets (emit instruction) := by
  refine modifyCode fun code ref member => ?_
  simp only [Code.emit, Array.toList_push, List.flatMap_append, List.flatMap_singleton,
    List.mem_append] at member
  exact member.imp_right (refers ref)

/-- What is made up in the class is provided by it. -/
theorem takeClass {take : ClassContext → α × ClassContext}
    (quiet : ∀ cls : ClassContext, cls.Quiet (take cls).2 ∧
      ∀ ref ∈ refs (take cls).1, (take cls).2.Provides ref) :
    LinksTo known targets refs (takeClass take) := by
  intro before linked
  obtain ⟨linkedAfter, grows⟩ := linked_of_rewires { before with cls := (take before.cls).2 } linked
    (.aside (fun _ => .inl) rfl rfl rfl) rfl (quiet before.cls).1
  exact ⟨linkedAfter, grows, fun ref member => .inr (.inl ((quiet before.cls).2 ref member))⟩

theorem log (level : LogLevel) (text : String) : Links known targets (log level text) := by
  have written : Links known targets (Emit.takeClass fun cls => ((), cls.write level text)) :=
    takeClass fun cls => ⟨{ ClassContext.Quiet.refl cls with }, List.forall_mem_nil _⟩
  exact written

/-- The state is read. -/
theorem reading
    {next : MethodContext → Emit β} {refs' : β → List Reference}
    (nextLinks : ∀ method : MethodContext, method.lambdas = targets →
      (∀ frame ∈ method.frames, ∀ lambda, .lambda lambda ∈ frame.visits →
        (targets.lookup lambda.id).isSome) →
      LinksTo (fun ref => ref ∈ method.references ∨ known ref) targets refs' (next method)) :
    LinksTo known targets refs' (method >>= next) := by
  intro before linked
  have result := nextLinks before.method linked.lambdas linked.frames
  have read : Result.Links known targets (fun _ => before.method.references) before
      ((Pure.pure () : Emit Unit) before) :=
    ⟨linked, .refl before, linked.refers⟩
  have continued := bindAt read fun _ => result
  exact continued

/-- The state is read, and what is in it does not matter. -/
theorem looking
    {next : MethodContext → Emit β} {refs' : β → List Reference}
    (nextLinks : ∀ method : MethodContext, LinksTo known targets refs' (next method)) :
    LinksTo known targets refs' (method >>= next) :=
  fun before linked => nextLinks before.method before linked

/-! ## Storage of locals -/

theorem setAccess
    {access : LocalAccess} (id : LocalId)
    (refers : ∀ ref ∈ access.references, known ref) :
    Links known targets (setAccess id access) := by
  refine modifyMethod (fun method => .aside (fun ref member => ?_) rfl rfl rfl) fun _ => rfl
  simp only [MethodContext.references, List.flatMap_cons, List.mem_append] at member ⊢
  have := refers ref
  tauto

/-- A slot is saved in a field that is known. -/
theorem saveSlot {saved : SavedSlot} (found : known (.field saved.field)) :
    Links known targets (saveSlot saved) := by
  refine modifyMethod (fun method => .ofSuspension method (fun _ => rfl) ?_ ?_) fun _ => rfl
  · exact fun _ => List.Subset.refl _
  · intro suspension _ ref member
    simp only [Suspension.references, List.map_append, List.map_cons, List.map_nil, List.mem_append,
      List.mem_singleton] at member ⊢
    obtain member | member | rfl := member
    · exact .inl (.inl member)
    · exact .inl (.inr member)
    · exact .inr (.inl found)

/-- The field of a promoted local is known. -/
theorem promotedField? (id : LocalId) :
    LinksTo known targets (fun field => field.toList.map Reference.field) (promotedField? id) := by
  refine reading fun method _ _ => pureTo ?_
  intro ref member
  obtain ⟨field, found, rfl⟩ := List.mem_map.mp member
  obtain ⟨suspension, suspended, promoted⟩ :=
    Option.bind_eq_some_iff.mp (Option.mem_toList.mp found)
  have listed : .field field ∈ suspension.references := by
    refine List.mem_append_left _ (List.mem_append_right _ ?_)
    exact List.mem_map.mpr ⟨(id, field), mem_of_lookup promoted, rfl⟩
  refine .inl ?_
  simp only [MethodContext.references, suspended, List.mem_append, Option.toList_some,
    List.flatMap_singleton]
  exact .inr listed

/-- A declared local is saved in the field that is promoted for it. -/
theorem declareSlot (decl : LocalDecl) :
    LinksTo known targets LocalAccess.references (declareSlot decl) := by
  refine bind (takeCode fun _ => by simp) fun slot =>
    bindTo (promotedField? decl.id) fun field => ?_
  have declared : LinksTo (fun ref => ref ∈ field.toList.map Reference.field ∨ known ref) targets
      LocalAccess.references (do
        Emit.setAccess decl.id (.slot slot decl.type.kind)
        Pure.pure (LocalAccess.slot slot decl.type.kind)) :=
    seq (setAccess _ nofun) (pureTo nofun)
  cases field with
  | none => exact declared
  | some field => exact seq (saveSlot (.inl (List.mem_singleton_self _))) declared

theorem declareLocal (decl : LocalDecl) :
    LinksTo known targets LocalAccess.references (declareLocal decl) := by
  refine reading fun method _ _ => ?_
  split
  · next holder path found =>
    exact pureTo fun ref member => .inl (MethodContext.mem_references_of_access found ref member)
  · exact declareSlot decl

end LinksTo

/-! ## Composed steps -/

/-- How statements are lowered refers to nothing unknown. -/
def Lowers (targets : List (LambdaId × LambdaTarget)) (lower : Lowering) : Prop :=
  ∀ (known : Reference → Prop) (stmt : Stmt), Library.KnownTo known →
    Reads (.linked known targets) (stmt.visits false) → Links known targets (lower stmt)

namespace ComposedTo

variable {basis : Basis} {refs : α → List Reference}

/-- A composed step refers to nothing unknown. -/
theorem linksTo
    {lower : Lowering} {step : Lowering → Emit α}
    (lowers : Lowers targets lower)
    (composed : ComposedTo basis refs step)
    (given : targets ∈ basis.targets) :
    LinksTo basis.known targets refs (step lower) := by
  induction composed with
  | pureTo valueKnown => exact .pureTo valueKnown
  | throw _ proper => exact .throw (proper (Option.isSome_of_mem given))
  | bindTo _ _ firstLinks nextLinks =>
    exact .bindTo (firstLinks given) fun value => nextLinks value given
  | reading _ _ nextLinks =>
    refine .reading fun method lambdas frames => nextLinks method (fun found listed => ?_) given
    obtain rfl := Option.mem_unique given listed
    exact ⟨lambdas, frames⟩
  | modifyMethod unseen rewires =>
    exact .modifyMethod (rewires targets given) fun method => (unseen.kept method).1
  | declareLocal decl => exact .declareLocal decl
  | emit refers => exact .emit refers
  | newLabel => exact .takeCode fun _ => rfl
  | here => exact .takeCode fun _ => rfl
  | mark label => exact .mark label
  | allocate name type => exact .takeCode fun _ => by simp
  | addRegion region => exact .modifyCode fun _ _ => .inl
  | openScope => exact .modifyCode fun _ _ => .inl
  | closeScope => exact .closeScope
  | readingClass _ _ nextLinks =>
    exact fun before linked => nextLinks before.cls given before linked
  | takeClass _ quiet => exact .takeClass (quiet (Option.isSome_of_mem given))
  | log level text => exact .log level text
  | call library reads =>
    refine lowers _ _ library ⟨reads.mentions, fun lambda member found listed => ?_⟩
    obtain rfl := Option.mem_unique (show targets ∈ some targets from rfl) listed
    exact reads.compiled lambda member targets given

/-- The step lowers no statement. -/
theorem links {step : Emit α}
    (composed : ComposedTo (.linked known targets) refs fun _ => step) :
    LinksTo known targets refs step := by
  let refuse : Lowering := fun _ => MonadExcept.throw .scopeUnderflow
  have lowers : Lowers targets refuse := fun _ _ _ _ => .throw rfl
  exact composed.linksTo lowers rfl

end ComposedTo

theorem lowers_lowerWithin (targets : List (LambdaId × LambdaTarget)) (depth : Nat) :
    Lowers targets (lowerWithin depth) := by
  induction depth with
  | zero => exact fun _ _ _ _ => .throw rfl
  | succ depth ih =>
    intro known stmt library reads
    have composed : Composed (.linked known targets) fun lower => lowerReachable lower stmt :=
      .lowerReachable library reads fun _ _ _ _ => trivial
    exact .ite (fun _ => composed.linksTo ih rfl) fun _ => .pure ()

theorem LinksTo.setParents (body : Stmt) : Links known targets (setParents body) :=
  ComposedTo.links (.modifyAside fun _ _ => rfl)

/-- The body of a method refers to what it mentions, to the library and to what it makes up. -/
theorem LinksTo.lowerBody
    {body : Stmt}
    (library : Library.KnownTo known)
    (reads : Reads (.linked known targets) (body.visits false)) :
    Links known targets (lowerBody body) := by
  refine .seq (.setParents body) (.seq ?_ ?_)
  · exact .looking fun method => lowers_lowerWithin targets _ known body library reads
  · refine .ite (fun _ => .looking fun method => ?_) fun _ => .pure ()
    exact .ite (fun _ => .emit nofun) fun _ => .throw rfl

end Emit
end StackCode
