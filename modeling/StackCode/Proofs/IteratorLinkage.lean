import StackCode.Proofs.CompiledLambdas
import StackCode.Proofs.Generating

/-!
# Iterator classes define what refers to them

The body of an iterator and the method that makes its state object refer to the
fields of its class before the class is there.  Once the class is added, it has
all of them, the fields for the temporaries included.
-/

namespace StackCode

/-! ## Steps outside of methods -/

namespace Generation

variable {next : α → Generation β}

/-- The result of a step that finishes no method and no class. -/
def Result.Keeps (before : ClassContext) : EStateM.Result Error ClassContext α → Prop
  | .ok _ after => before.Quiet after
  | .error error _ => error.breaksLink = false

/-- A step that finishes no method and no class. -/
def Keeps (step : Generation α) : Prop := ∀ before, Result.Keeps before (step before)

namespace Keeps

theorem pure (value : α) : Keeps (pure value) := fun before => .refl before

theorem throw {error : Error} (proper : error.breaksLink = false) :
    Keeps (throw error : Generation α) :=
  fun _ => proper

theorem get : Keeps get := fun before => .refl before

theorem log (level : LogLevel) (text : String) : Keeps (log level text) :=
  fun before => { ClassContext.Quiet.refl before with }

theorem bind
    {first : Generation α}
    (firstKeeps : Keeps first)
    (nextKeeps : ∀ value, Keeps (next value)) :
    Keeps (first >>= next) := by
  intro before
  have firstResult := firstKeeps before
  refine bind_of_result firstResult (fun _ _ => id) fun value between _ firstResult => ?_
  refine result_imp (nextKeeps value between) (fun _ _ => id) fun _ after nextResult => ?_
  exact ClassContext.Quiet.trans firstResult nextResult

theorem foldlM {values : List α} {step : β → α → Generation β}
    (stepKeeps : ∀ state value, Keeps (step state value)) (start : β) :
    Keeps (values.foldlM step start) := by
  induction values generalizing start with
  | nil => exact pure _
  | cons value values ih =>
    rw [List.foldlM_cons]
    exact bind (stepKeeps start value) ih

theorem forM {values : List α} {step : α → Generation PUnit}
    (stepKeeps : ∀ value, Keeps (step value)) : Keeps (values.forM step) :=
  forM_of_steps (pure _) (fun first rest => bind first fun _ => rest) fun value _ =>
    stepKeeps value

end Keeps

/-- The result of a step that compiles `every` lambda once; its value refers to nothing unknown. -/
def Result.Compiles
    (known : Reference → Prop)
    (every : List Lambda)
    (refs : α → List Reference)
    (before : ClassContext) :
    EStateM.Result Error ClassContext α → Prop
  | .ok value after => ∃ compiled, after.Sound known [] ∧ before.Gains after compiled ∧
      (compiled.map CompiledLambda.lambda).Perm every ∧
      ∀ ref ∈ refs value, known ref ∨ after.Provides ref
  | .error error _ => error.breaksLink = false

namespace Result.Compiles

variable {known : Reference → Prop} {every : List Lambda} {refs : α → List Reference}
  {refs' : β → List Reference} {before : ClassContext}
variable {first : Generation α}

/-- A step that compiles nothing comes first. -/
theorem afterKeeps
    (keeps : Generation.Keeps first)
    (sound : before.Sound known [])
    (rest : ∀ value between, first before = .ok value between → between.Sound known [] →
      before.Quiet between → Result.Compiles known every refs' between (next value between)) :
    Result.Compiles known every refs' before ((first >>= next) before) := by
  have firstResult := keeps before
  refine bind_of_result firstResult (fun _ _ => id) fun value between ran firstResult => ?_
  refine result_imp (rest value between ran (sound.quiet firstResult) firstResult)
    (fun _ _ => id) fun _ after nextResult => ?_
  obtain ⟨compiled, soundAfter, gains, once, refers⟩ := nextResult
  exact ⟨compiled, soundAfter, firstResult.gains.trans gains, once, refers⟩

/-- The second step knows what the first one has left; the lambdas of both are compiled. -/
theorem chain
    {every' : List Lambda}
    (compiles : Result.Compiles known every refs before (first before))
    (rest : ∀ value between compiled, between.Sound known [] → before.Gains between compiled →
      (∀ ref ∈ refs value, known ref ∨ between.Provides ref) →
      Result.Compiles known every' refs' between (next value between)) :
    Result.Compiles known (every ++ every') refs' before ((first >>= next) before) := by
  refine bind_of_result compiles (fun _ _ => id) fun value between _ compiles => ?_
  obtain ⟨compiled, sound, gains, once, refers⟩ := compiles
  refine result_imp (rest value between compiled sound gains refers)
    (fun _ _ => id) fun _ after nextResult => ?_
  obtain ⟨compiled', soundAfter, gains', once', resultRefers⟩ := nextResult
  refine ⟨compiled ++ compiled', soundAfter, gains.trans gains', ?_, resultRefers⟩
  rw [List.map_append]
  exact once.append once'

/-- A value is given back that refers to nothing more. -/
theorem thenPure
    {value : α → β}
    (compiles : Result.Compiles known every refs before (first before))
    (fewer : ∀ result, refs' (value result) ⊆ refs result) :
    Result.Compiles known every refs' before
      ((first >>= fun result => pure (value result)) before) := by
  rw [← List.append_nil every]
  refine chain compiles fun result between compiled sound _ refers => ?_
  refine ⟨[], sound, (ClassContext.Quiet.refl between).gains, .nil, ?_⟩
  exact fun ref member => refers ref (fewer result member)

/-- A method that cannot suspend itself is generated in a state of its own. -/
theorem ofMethod
    {context : MethodContext} {step : Emit α} {met : List Lambda}
    (unsuspended : context.suspension = none)
    (compiles : Emit.Result.Compiles known [] met every refs { method := context, cls := before }
      (step { method := context, cls := before })) :
    Result.Compiles known every refs before (Emit.onMethod context step before) := by
  unfold Emit.onMethod
  cases ran : step { method := context, cls := before } with
  | error error after =>
    rw [ran] at compiles
    exact compiles
  | ok value after =>
    rw [ran] at compiles
    obtain ⟨added, compiled, ⟨-, sound, gains⟩, -, once, refers⟩ := compiles
    have unspilled := MethodContext.not_spills (gains.suspended.trans (by simp [unsuspended]))
    refine ⟨compiled, ?_, gains.cls, once, ?_⟩
    · refine ClassContext.Sound.settle sound ?_ fun home member => .inl member
      rintro ref (found | spilled)
      · exact .inl found
      · exact (unspilled ref spilled).elim
    · intro ref member
      obtain found | provided | spilled := refers ref member
      · exact .inl found
      · exact .inr provided
      · exact (unspilled ref spilled).elim

/-- A method that compiles nothing may refer to what is made up by then. -/
theorem ofLinks
    {context : MethodContext} {step : Emit α}
    (unsuspended : context.suspension = none)
    (linked : Emission.Linked (fun ref => before.Provides ref ∨ known ref) []
      { method := context, cls := before })
    (sound : before.Sound known [])
    (links : Emit.LinksTo (fun ref => before.Provides ref ∨ known ref) [] refs step) :
    Result.Compiles known [] refs before (Emit.onMethod context step before) := by
  have result := links { method := context, cls := before } linked
  unfold Emit.onMethod
  cases ran : step { method := context, cls := before } with
  | error error after =>
    rw [ran] at result
    exact result
  | ok value after =>
    rw [ran] at result
    obtain ⟨-, grows, refers⟩ := result
    refine ⟨[], sound.quiet grows.quiet, grows.quiet.gains, .nil, ?_⟩
    intro ref member
    have unspilled := MethodContext.not_spills (grows.suspended.trans (by simp [unsuspended]))
    obtain (provided | found) | provided | spilled := refers ref member
    · exact .inr (grows.quiet.provides provided)
    · exact .inl found
    · exact .inr provided
    · exact (unspilled ref spilled).elim

end Result.Compiles

end Generation

/-! ## Layouts -/

namespace IteratorClass

open Emit

variable {layout : Layout}
variable {withProtocol : Bool} {before after : ClassContext} {body : Stmt}

/-- The class of an iterator without the methods that run it and the fields for temporaries. -/
def Layout.shell (layout : Layout) : ClassDef := .synthetic layout.className layout.fields

/-- The fields that an iterator refers to belong to its class. -/
structure Layout.Furnished (layout : Layout) (withProtocol : Bool) : Prop where
  machine : machineFields layout.element withProtocol ⊆ layout.fields
  localFields : ∀ entry ∈ layout.localFields, layout.shell.Defines (.field entry.2)
  outerField : ∀ field ∈ layout.outerField, layout.shell.Defines (.field field)

/-- A field of the class of an iterator answers to its reference. -/
theorem Layout.defines_field (layout : Layout) {field : FieldDef} (member : field ∈ layout.fields)
    (isInstance : field.isStatic = false) :
    layout.shell.Defines (.field (.ofErased layout.className field.name field.type)) :=
  ⟨rfl, field, member, field.answers_ofErased _ isInstance⟩

/-- A further local gets its field. -/
theorem Layout.Furnished.addLocal
    (furnished : layout.Furnished withProtocol) (decl : LocalDecl) :
    (addLocal layout decl).Furnished withProtocol := by
  have grown :
      ∀ {ref}, layout.shell.Defines ref → (IteratorClass.addLocal layout decl).shell.Defines ref :=
    fun defines => defines.mono rfl (List.subset_append_left _ _) (List.Subset.refl _)
  refine ⟨List.Subset.trans furnished.machine (List.subset_append_left _ _), ?_, ?_⟩
  · intro entry member
    obtain member | member := List.mem_append.mp member
    · exact grown (furnished.localFields entry member)
    · obtain rfl := List.mem_singleton.mp member
      refine Layout.defines_field (IteratorClass.addLocal layout decl)
        (List.mem_append_right _ (List.mem_singleton_self _)) ?_
      change (AccessFlags.synthetic &&& AccessFlags.static != 0) = false
      decide
  · exact fun field member => grown (furnished.outerField field member)

/-- Laying out the class of an iterator gives it all its fields. -/
theorem layOut_furnished
    {className : String} {method : MethodDecl} {element : Ty}
    (success : layOut className method element body before = .ok layout after) :
    layout.Furnished before.config.iteratorProtocol ∧ layout.className = className ∧
      layout.element = element := by
  have rest := Generation.get_bind_eq.mp success
  obtain ⟨-, found, _, _, -, -, rfl, same, -⟩ := addLocals_ok rest
  refine ⟨List.foldlRecOn (motive := (Layout.Furnished · _)) found _ ?_
    fun _ furnished decl _ => furnished.addLocal decl, ?_⟩
  rotate_left
  · rw [same]
    exact ⟨rfl, rfl⟩
  refine ⟨List.subset_append_left _ _, fun _ member => (List.not_mem_nil member).elim, ?_⟩
  intro field member
  obtain ⟨found, head, rfl⟩ := Option.map_eq_some_iff.mp member
  have listed := List.mem_of_head? head
  have isInstance : found.isStatic = false := by
    split at listed
    · obtain rfl := List.mem_singleton.mp listed
      change ((AccessFlags.final ||| AccessFlags.synthetic) &&& AccessFlags.static != 0) = false
      decide
    · contradiction
  exact ⟨rfl, found, List.mem_append_right _ listed, found.answers_ofErased _ isInstance⟩

theorem keeps_layOut (className : String) (method : MethodDecl) (element : Ty) (body : Stmt) :
    Generation.Keeps (layOut className method element body) := by
  refine .bind .get fun cls => .foldlM (fun layout id => ?_) _
  split
  · exact .pure _
  · exact .throw rfl

namespace Layout.Furnished

variable {layout : Layout} {withProtocol : Bool}

/-- The fields of the iteration itself. -/
theorem defines_machine (furnished : layout.Furnished withProtocol) {field : FieldDef}
    (member : field ∈ machineFields layout.element withProtocol) :
    layout.shell.Defines (.field (.ofErased layout.className field.name field.type)) := by
  refine layout.defines_field (furnished.machine member) ?_
  have flags : field.flags = AccessFlags.synthetic := by
    simp only [machineFields] at member
    split at member
    · simp only [List.mem_append, List.mem_cons, List.not_mem_nil, or_false] at member
      obtain (rfl | rfl) | rfl := member
      · rfl
      · rfl
      · rfl
    · simp only [List.mem_append, List.mem_cons, List.not_mem_nil, or_false] at member
      obtain rfl | rfl := member
      · rfl
      · rfl
  rw [FieldDef.isStatic, flags]
  decide

theorem defines_state (furnished : layout.Furnished withProtocol) :
    layout.shell.Defines (.field (.ofErased layout.className stateFieldName (.prim .int))) :=
  furnished.defines_machine (List.mem_append_left _ List.mem_cons_self)

theorem defines_current (furnished : layout.Furnished withProtocol) :
    layout.shell.Defines (.field (currentField layout.className layout.element)) :=
  furnished.defines_machine
    (List.mem_append_left _ (List.mem_cons_of_mem _ (List.mem_singleton_self _)))

theorem defines_hasNext (furnished : layout.Furnished true) :
    layout.shell.Defines (.field (hasNextField layout.className)) :=
  furnished.defines_machine (List.mem_append_right _ (List.mem_singleton_self _))

end Layout.Furnished

/-! ## The method that runs an iterator -/

section

variable {layout : Layout} {withProtocol : Bool} {known : Reference → Prop}
variable {body : Stmt}

/-- What is known while the body of an iterator is lowered. -/
def Layout.Knows (layout : Layout) (known : Reference → Prop) (ref : Reference) : Prop :=
  layout.shell.Defines ref ∨ known ref

theorem Layout.Furnished.fieldsOf (furnished : layout.Furnished withProtocol)
    (ids : List LocalId) :
    ∀ entry ∈ layout.fieldsOf ids, layout.Knows known (.field entry.2) :=
  fun entry member => .inl (furnished.localFields entry (List.mem_filter.mp member).1)

/-- The result of what comes before the scope of the body. -/
def Result.Begins (layout : Layout) (known : Reference → Prop) (before : Emission) :
    EStateM.Result Error Emission Suspension → Prop
  | .ok suspension after =>
    after.Linked (layout.Knows known) before.method.lambdas ∧ before.cls.Quiet after.cls ∧
      after.method.suspension.map Suspension.className = some layout.className ∧
      after.method.className = before.method.className ∧
      ∀ ref ∈ suspension.references, layout.Knows known ref
  | .error error _ => error.breaksLink = false

/-- What begins an iteration refers to fields of its class. -/
theorem moveNextStart_links
    (furnished : layout.Furnished withProtocol)
    (body : Stmt) {before : Emission}
    (unsuspended : before.method.suspension = none)
    (linked : before.Linked (layout.Knows known) before.method.lambdas) :
    Result.Begins layout known before (moveNextStart layout body before) := by
  let promoted := layout.fieldsOf layout.promotion.promoted
  have entering : Links (layout.Knows known) before.method.lambdas (do
      reserveSelf
      setSelfPath layout.outerField.toList
      let resume ← newLabels (body.countYields + 1)
      let exhausted ← newLabel
      pure (resume, exhausted)) := by
    refine .seq (ComposedTo.links .reserveSelf) (.seq (.setSelfPath ?_) (ComposedTo.links ?_))
    · exact fun field member => .inl (furnished.outerField field (Option.mem_toList.mp member))
    · exact .bind (.newLabels _) fun _ => .bind .newLabel fun _ => .pure _
  have split : moveNextStart layout body = (do
      let labels ← (do
        reserveSelf
        setSelfPath layout.outerField.toList
        let resume ← newLabels (body.countYields + 1)
        let exhausted ← newLabel
        pure (resume, exhausted))
      let suspension :=
        Suspension.ofClass layout.className layout.element labels.1 labels.2 promoted
      modifyMethod fun method => { method with suspension := some suspension }
      (layout.fieldsOf layout.promotion.resident).forM fun entry =>
        setAccess entry.1 (.captured .self [entry.2])
      return suspension) := by
    simp only [moveNextStart, beginSuspension, bind_assoc, pure_bind, promoted]
  rw [split]
  refine bind_of_result (entering before linked) (fun _ _ => id) ?_
  rintro ⟨resume, exhausted⟩ between _ result
  obtain ⟨linkedBetween, grows, -⟩ := result
  let suspension := Suspension.ofClass layout.className layout.element resume exhausted promoted
  let suspended := between.mapMethod fun method => { method with suspension := some suspension }
  have none : between.method.suspension = none := by
    have same := grows.suspended
    rwa [unsuspended, Option.map_none, Option.map_eq_none_iff] at same
  have refers : ∀ ref ∈ suspension.references, layout.Knows known ref := by
    intro ref member
    simp only [Suspension.references, suspension, Suspension.ofClass, List.map_nil,
      List.append_nil, List.mem_append, List.mem_cons, List.not_mem_nil, or_false,
      List.mem_map] at member
    obtain (rfl | rfl) | ⟨entry, member, rfl⟩ := member
    · exact .inl furnished.defines_state
    · exact .inl furnished.defines_current
    · exact furnished.fieldsOf _ entry member
  have linkedSuspended : suspended.Linked (layout.Knows known) before.method.lambdas := by
    refine ⟨?_, linkedBetween.lambdas, linkedBetween.frames⟩
    intro ref member
    have listed : ref ∈ between.method.references ∨ ref ∈ suspension.references := by
      simp only [suspended, Emission.mapMethod, MethodContext.references, List.mem_append,
        Option.toList_some, List.flatMap_singleton] at member ⊢
      tauto
    obtain earlier | own := listed
    · obtain found | provided | ⟨_, _, found, -⟩ := linkedBetween.refers ref earlier
      · exact .inl found
      · exact .inr (.inl provided)
      · rw [none] at found
        contradiction
    · exact .inl (refers ref own)
  have residents : Links (layout.Knows known) before.method.lambdas
      ((layout.fieldsOf layout.promotion.resident).forM fun entry =>
        setAccess entry.1 (.captured .self [entry.2])) := by
    refine .forM fun entry member => .setAccess _ fun ref inside => ?_
    obtain rfl := List.mem_singleton.mp inside
    exact furnished.fieldsOf _ entry member
  refine bind_cases (fun _ _ failed => by cases failed) fun _ next changed => ?_
  obtain rfl := modifyMethod_ok.mp changed
  refine bind_of_result (residents suspended linkedSuspended)
    (fun _ _ => id) fun _ after _ result => ?_
  obtain ⟨linkedAfter, growsAfter, -⟩ := result
  exact ⟨linkedAfter, grows.quiet.trans growsAfter.quiet, growsAfter.suspended,
    growsAfter.className.trans grows.className, refers⟩

/-- The scope of the body of an iterator, with everything that happens in it. -/
def moveNextScope
    (layout : Layout)
    (method : MethodDecl)
    (body : Stmt)
    (suspension : Suspension) :
    Emit Unit := do
  enterScope
  moveNextEntry layout method body suspension
  lower body
  mark suspension.exhausted
  finishIteration suspension.state
  exitScope

theorem moveNextBody_eq_scope (layout : Layout) (method : MethodDecl) (body : Stmt) :
    moveNextBody layout method body = (do
      let suspension ← moveNextStart layout body
      moveNextScope layout method body suspension
      let spills := ((← Emit.method).suspension.map Suspension.spills).getD []
      return (← finish, spills)) := by
  simp only [moveNextBody_eq, moveNextScope, moveNextEnd, bind_assoc]

/-- The lambdas of the body are compiled, and it refers to nothing unknown. -/
theorem moveNextScope_compiles
    {homes : List String} {before : Emission} {suspension : Suspension} (layout : Layout)
    (method : MethodDecl)
    (library : Library.KnownTo known)
    (mentions : body.MentionsKnown known)
    (refers : ∀ ref ∈ suspension.references, known ref)
    (linked : before.Linked known before.method.lambdas)
    (sound : before.Sound known homes)
    (home : before.method.className = before.cls.name ∨ before.method.className ∈ homes) :
    Emit.Result.Compiles known homes body.lambdas body.allLambdas (fun _ => []) before
      (moveNextScope layout method body suspension before) := by
  have stateKnown : known (.field suspension.state) := refers _ (by simp [Suspension.references])
  have entering : Links known before.method.lambdas (do
      enterScope
      declareKept layout method.params
      dispatchState suspension) :=
    ComposedTo.links (.seq .enterScope
      (.seq (.declareKept _ _) (PlainTo.dispatchState stateKnown).composed))
  have split : moveNextScope layout method body suspension = (do
      (do
        enterScope
        declareKept layout method.params
        dispatchState suspension)
      prepareLambdas body []
      setParents body
      lower body
      mark suspension.exhausted
      finishIteration suspension.state
      exitScope) := by
    simp only [moveNextScope, moveNextEntry, bind_assoc]
  rw [split]
  refine Prepares.afterEntry
    (prepares_prepareWithin _) _ library mentions linked sound home entering
    fun targets reads => .seq (.setParents body) (.seq ?_ (ComposedTo.links ?_))
  · exact .looking fun _ => lowers_lowerWithin _ _ _ body library reads
  · exact .seq (.mark _) (.seq (.code (.finishIteration stateKnown trivial)) .exitScope)

/-- The class of an iterator with the fields for its temporaries, without its methods. -/
def Layout.spilled (layout : Layout) (spills : List FieldDef) : ClassDef :=
  .synthetic layout.className (layout.fields ++ spills)

/-- `every` lambda of a body with the given references was compiled, and these are known. -/
def Layout.Moves
    (layout : Layout)
    (known : Reference → Prop)
    (every : List Lambda)
    (spills : List FieldDef)
    (refs : List Reference)
    (before after : ClassContext) :
    Prop :=
  ∃ compiled,
    after.Sound (fun ref => (layout.spilled spills).Defines ref ∨ known ref)
      [layout.className] ∧
    before.Gains after compiled ∧ (compiled.map CompiledLambda.lambda).Perm every ∧
    ∀ ref ∈ refs, ((layout.spilled spills).Defines ref ∨ known ref) ∨ after.Provides ref

/-- The result of lowering the body of an iterator. -/
def Result.MovesNext
    (layout : Layout)
    (known : Reference → Prop)
    (every : List Lambda)
    (before : ClassContext) :
    EStateM.Result Error Emission (MethodBody × List FieldDef) → Prop
  | .ok value after => layout.Moves known every value.2 value.1.references before after.cls
  | .error error _ => error.breaksLink = false

/-- The body of an iterator refers to its class, which gets the fields for the temporaries. -/
theorem moveNextBody_movesNext
    {cls : ClassContext} (method : MethodDecl) (debugInfo : Bool)
    (furnished : layout.Furnished withProtocol)
    (library : Library.KnownTo known)
    (mentions : body.MentionsKnown known)
    (sound : cls.Sound known []) :
    Result.MovesNext layout known body.allLambdas cls (moveNextBody layout method body
      { method := .start layout.className method.name false .boolean debugInfo, cls }) := by
  let start : Emission :=
    { method := .start layout.className method.name false .boolean debugInfo, cls }
  have startLinked : start.Linked (layout.Knows known) start.method.lambdas := ⟨nofun, rfl, nofun⟩
  have begins := moveNextStart_links furnished body rfl startLinked
  rw [moveNextBody_eq_scope]
  refine bind_of_result begins (fun _ _ => id) fun suspension between _ begins => ?_
  obtain ⟨linked, quiet, suspended, className, refers⟩ := begins
  have soundBetween : between.Sound (layout.Knows known) [layout.className] := by
    refine (sound.quiet quiet).settle (fun ref found => .inl (.inl (.inr found))) nofun
  have home : between.method.className = between.cls.name ∨
      between.method.className ∈ [layout.className] :=
        .inr (by simp [className, start, MethodContext.start])
  have compiles := moveNextScope_compiles layout method
    (fun ref member => .inr (library ref member))
    (fun visit member ref mentioned => .inr (mentions visit member ref mentioned)) refers
    (linked.lambdas.symm ▸ linked) soundBetween home
  refine bind_of_result compiles (fun _ _ => id) fun _ final _ compiles => ?_
  obtain ⟨added, compiled, ⟨linkedFinal, soundFinal, gains⟩, -, once, -⟩ := compiles
  have finishes := LinksTo.finish final linkedFinal
  refine bind_cases (fun _ _ failed => by cases failed) fun _ _ read => ?_
  obtain ⟨rfl, rfl⟩ := method_ok.mp read
  refine bind_of_result finishes (fun _ _ => id) fun finished after success finishes => ?_
  obtain ⟨-, rfl⟩ := finish_ok.mp success
  let spills := (final.method.suspension.map Suspension.spills).getD []
  have spilled : ∀ ref, final.method.Spills ref → (layout.spilled spills).Defines ref := by
    rintro ref ⟨found, spill, isSuspended, member, isInstance, rfl⟩
    have owner : found.className = layout.className := by
      have same := gains.suspended.trans suspended
      rw [isSuspended] at same
      exact Option.some.inj same
    have listed : spill ∈ spills := by simpa [spills, isSuspended] using member
    exact ⟨owner.symm, spill, List.mem_append_right _ listed, spill.answers_ofErased _ isInstance⟩
  have settle : ∀ ref, layout.Knows known ref ∨ final.method.Spills ref →
      (layout.spilled spills).Defines ref ∨ known ref := by
    rintro ref ((defines | found) | spill)
    · exact .inl (defines.mono rfl (List.subset_append_left _ _) (List.Subset.refl _))
    · exact .inr found
    · exact .inl (spilled ref spill)
  refine ⟨compiled, ?_, quiet.gains.trans gains.cls, once, ?_⟩
  · exact ClassContext.Sound.settle soundFinal (fun ref found => .inl (settle ref found))
      fun home member => .inl member
  · intro ref member
    obtain found | provided | spill := finishes.2.2 ref member
    · exact .inl (settle ref (.inl found))
    · exact .inr provided
    · exact .inl (settle ref (.inr spill))

/-- A public method without parameters answers to its reference. -/
theorem answers_member
    {method : MethodDef} {name : String} {ret : Ty} (className : String)
    (named : method.name = name)
    (flags : method.flags = AccessFlags.publicAccess)
    (params : method.params = [])
    (returns : method.ret = ret.erasure) :
    method.Answers (member className name ret) where
  name := named
  descriptor := by simp [MethodDef.descriptor, MethodRef.descriptor, member, params, returns]
  isStatic := by
    have isInstance : method.isStatic = false := by
      rw [MethodDef.isStatic, flags]
      decide
    simp [isInstance, member]

/-- The result of generating the method that runs an iterator. -/
def Result.Runs
    (layout : Layout)
    (known : Reference → Prop)
    (every : List Lambda)
    (before : ClassContext) :
    EStateM.Result Error ClassContext (MethodDef × List FieldDef) → Prop
  | .ok value after => value.1.name = moveNextName ∧
      value.1.Answers (moveNext layout.className) ∧
        layout.Moves known every value.2 value.1.references before after
  | .error error _ => error.breaksLink = false

/-- The method that runs an iterator is generated from its body. -/
theorem moveNextMethod_runs
    (method : MethodDecl)
    (furnished : layout.Furnished withProtocol)
    (library : Library.KnownTo known)
    (mentions : body.MentionsKnown known)
    (sound : before.Sound known []) :
    Result.Runs layout known body.allLambdas before
      (moveNextMethod layout method body before) := by
  have moves := moveNextBody_movesNext method before.config.varDebugInfo furnished library mentions
    sound
  refine bind_cases (fun _ _ failed => by cases failed) fun cls _ read => ?_
  obtain ⟨rfl, rfl⟩ := Generation.get_ok.mp read
  refine bind_cases ?_ ?_
  · intro error after failed
    obtain ⟨state, stopped⟩ := onMethod_error failed
    rw [stopped] at moves
    exact moves
  · rintro ⟨finished, spills⟩ after success
    obtain ⟨state, lowered, rfl⟩ := Generation.onMethod_ok.mp success
    rw [lowered] at moves
    obtain ⟨compiled, soundAfter, gains, once, refers⟩ := moves
    refine ⟨rfl, answers_member _ rfl rfl rfl rfl, compiled, soundAfter, gains, once, ?_⟩
    intro ref member
    exact refers ref (by simpa [MethodDef.references] using member)

end

/-! ## The methods by which a loop draws elements -/

section

variable {className : String} {element : Ty} {known : Reference → Prop}
variable {basis : Basis}

/-- What the methods by which a loop draws elements refer to in their own class. -/
def protocolReferences (className : String) (element : Ty) : List Reference :=
  [.field (hasNextField className), .field (currentField className element),
    .method (moveNext className), .method (hasNext className), .method (next className element)]

/-- The result of generating methods: which they are, and that they refer to nothing unknown. -/
inductive Result.Methods
    (known : Reference → Prop)
    (methods : α → List MethodDef)
    (Holds : α → Prop)
    (before : ClassContext) :
    EStateM.Result Error ClassContext α → Prop
  | ok {value : α} {after : ClassContext}
      (quiet : before.Quiet after)
      (holds : Holds value)
      (refers : ∀ method ∈ methods value, ∀ ref ∈ method.references,
        known ref ∨ after.Provides ref) :
      Result.Methods known methods Holds before (.ok value after)
  | error {error : Error} {after : ClassContext} (proper : error.breaksLink = false) :
      Result.Methods known methods Holds before (.error error after)

theorem Result.Methods.proper
    {result : EStateM.Result Error ClassContext α} {methods : α → List MethodDef} {Holds : α → Prop}
    {error : Error}
    (failed : result = .error error after)
    (made : Result.Methods known methods Holds before result) :
    error.breaksLink = false := by
  subst failed
  cases made with
  | error proper => exact proper

/-- What the methods that draw elements refer to is in the library or in their own class. -/
theorem known_of_mem_drawingMethods
    (library : Library.KnownTo known)
    (own : ∀ ref ∈ protocolReferences className element, known ref) :
    ∀ method ∈ drawingMethods className element, ∀ ref ∈ method.references, known ref := by
  intro method member ref inside
  have listed : ref ∈ Library.members ∨ ref ∈ protocolReferences className element := by
    simp only [drawingMethods, List.mem_cons, List.not_mem_nil, or_false] at member
    obtain rfl | rfl := member
    · simp [publicDef, MethodDef.references, MethodBody.references, hasNextBody,
        Instruction.references] at inside
      simp [protocolReferences]
      tauto
    · simp [publicDef, MethodDef.references, MethodBody.references, nextBody,
        Instruction.references] at inside
      simp [protocolReferences, Library.members]
      tauto
  exact listed.elim (library ref) (own ref)

/-- An element is boxed by a method of the library, if at all. -/
theorem boxElement_cases (className : String) (type : Erased) (before : ClassContext) :
    (∃ error, boxElement className type before = .error error before ∧ error.breaksLink = false) ∨
      ∃ box, boxElement className type before = .ok box before ∧
        ∀ instruction ∈ box, ∀ ref ∈ instruction.references, ref ∈ Library.members := by
  unfold boxElement
  split
  · next primitive =>
    cases found : Library.box? primitive with
    | none => exact .inl ⟨_, rfl, rfl⟩
    | some method =>
      refine .inr ⟨_, rfl, ?_⟩
      intro instruction member ref inside
      obtain rfl := List.mem_singleton.mp member
      obtain rfl := List.mem_singleton.mp inside
      exact Library.mem_members_of_box found
  · exact .inr ⟨[], rfl, fun _ member => (List.not_mem_nil member).elim⟩

/-- The bridge to the method that takes an element. -/
theorem nextBridge?_links
    (library : Library.KnownTo known)
    (own : ∀ ref ∈ protocolReferences className element, known ref)
    (before : ClassContext) :
    Result.Methods known Option.toList (fun bridge => ∀ method ∈ bridge, method.name = nextName)
      before (nextBridge? className element before) := by
  unfold nextBridge?
  dsimp only
  split
  · refine .ok (.refl before) (fun _ member => ?_) fun _ member => ?_
    · contradiction
    · exact (List.not_mem_nil member).elim
  · obtain ⟨error, failed, proper⟩ | ⟨box, boxed, boxKnown⟩ :=
      boxElement_cases className element.erasure before
    · refine bind_cases (fun _ _ failure => ?_) fun _ _ success => ?_
      · rw [failed] at failure
        cases failure
        exact .error proper
      · rw [failed] at success
        contradiction
    · refine bind_cases (fun _ _ failure => ?_) fun _ _ success => ?_
      · rw [boxed] at failure
        contradiction
      · rw [boxed] at success
        cases success
        refine .ok { ClassContext.Quiet.refl before with } ?_ ?_
        · rintro method ⟨⟩
          rfl
        · intro method member ref inside
          obtain rfl := List.mem_singleton.mp member
          refine .inl ?_
          simp only [MethodDef.references, MethodBody.references, MethodBody.straight,
            Option.toList_some, List.flatMap_append, List.mem_append, List.flatMap_cons,
            List.flatMap_nil, List.append_nil] at inside
          obtain ((loads | calls) | boxes) | returns := inside
          · contradiction
          · obtain rfl := List.mem_singleton.mp calls
            exact own _ (by simp [protocolReferences])
          · obtain ⟨instruction, member, inside⟩ := List.mem_flatMap.mp boxes
            exact library ref (boxKnown instruction member ref inside)
          · contradiction

/-- The methods by which a loop draws elements. -/
theorem protocolMethods_links
    (library : Library.KnownTo known)
    (own : ∀ ref ∈ protocolReferences className element, known ref)
    (before : ClassContext) :
    Result.Methods known (fun methods => methods)
      (fun methods => (∃ method ∈ methods, method.Answers (hasNext className)) ∧
        (∃ method ∈ methods, method.Answers (next className element)) ∧
        ∀ method ∈ methods, method.name ∈ ClassDef.machinery)
      before (protocolMethods className element before) := by
  rw [protocolMethods_eq]
  have bridgeLinks := nextBridge?_links library own before
  refine bind_cases (fun _ _ failed => .error (Result.Methods.proper failed bridgeLinks))
    fun bridge after made => ?_
  obtain ⟨quiet, bridgeName, refers⟩ := made ▸ bridgeLinks
  refine .ok quiet ⟨?_, ?_, ?_⟩ ?_
  · exact ⟨_, List.mem_cons_self, answers_member className rfl rfl rfl rfl⟩
  · exact ⟨_, List.mem_cons_of_mem _ List.mem_cons_self,
      answers_member className rfl rfl rfl (by simp [publicDef])⟩
  · intro method member
    simp only [drawingMethods, List.mem_append, List.mem_cons, List.not_mem_nil, or_false,
      Option.mem_toList] at member
    obtain ((rfl | rfl) | member) | rfl := member
    · simp [ClassDef.machinery, publicDef]
    · simp [ClassDef.machinery, publicDef]
    · rw [bridgeName method member]
      simp [ClassDef.machinery]
    · simp [ClassDef.machinery, iteratorMethod]
  · intro method member ref inside
    obtain member | member := List.mem_append.mp member
    · obtain member | member := List.mem_append.mp member
      · exact .inl (known_of_mem_drawingMethods library own method member ref inside)
      · exact refers method member ref inside
    · obtain rfl := List.mem_singleton.mp member
      simp [MethodDef.references, iteratorMethod, MethodBody.references, MethodBody.straight,
        Instruction.references] at inside

end

/-! ## The class and the method that makes its object -/

section

variable {layout : Layout} {known : Reference → Prop}

/-- The class of an iterator with all its members. -/
def Layout.filled
    (layout : Layout)
    (spills : List FieldDef)
    (interfaces : List String)
    (methods : List MethodDef) :
    ClassDef :=
  { layout.spilled spills with
    interfaces
    methods := (layout.spilled spills).methods ++ methods }

theorem Layout.filled_defines
    {spills : List FieldDef} {methods : List MethodDef} {ref : Reference} (interfaces : List String)
    (defines : (layout.spilled spills).Defines ref) :
    (layout.filled spills interfaces methods).Defines ref :=
  defines.mono rfl (List.Subset.refl _) (List.subset_append_left _ _)

/-- The class of an iterator defines the fields of its layout. -/
theorem Layout.Furnished.defines_references
    (furnished : layout.Furnished withProtocol) :
    ∀ ref ∈ layout.references, layout.shell.Defines ref := by
  intro ref member
  simp only [Layout.references, List.mem_append, List.mem_cons, List.not_mem_nil, or_false,
    List.mem_map, Option.mem_toList] at member
  obtain ((rfl | rfl) | ⟨field, member, rfl⟩) | ⟨entry, member, rfl⟩ := member
  · rfl
  · exact ⟨rfl, _, List.mem_singleton_self _, MethodDef.answers_constructor _⟩
  · exact furnished.outerField field member
  · exact furnished.localFields entry member

/-- The methods that a loop uses are among the methods. -/
structure Layout.Draws (layout : Layout) (methods : List MethodDef) : Prop where
  hasNext : ∃ method ∈ methods, method.Answers (hasNext layout.className)
  next : ∃ method ∈ methods, method.Answers (next layout.className layout.element)

/-- The methods that a loop uses refer to nothing that the class does not have. -/
theorem Layout.filled_defines_protocol
    {moveNext : MethodDef} {protocol : List MethodDef} (spills : List FieldDef)
    (interfaces : List String)
    (furnished : layout.Furnished true)
    (answers : moveNext.Answers (IteratorClass.moveNext layout.className))
    (draws : layout.Draws protocol) :
    ∀ ref ∈ protocolReferences layout.className layout.element,
      (layout.filled spills interfaces (moveNext :: protocol)).Defines ref := by
  have ofShell : ∀ {ref}, layout.shell.Defines ref →
      (layout.filled spills interfaces (moveNext :: protocol)).Defines ref := fun defines =>
    defines.mono rfl (List.subset_append_left _ _) (List.subset_append_left _ _)
  have ofProtocol : ∀ {method}, method ∈ protocol →
      method ∈ (layout.filled spills interfaces (moveNext :: protocol)).methods := fun member =>
    List.mem_append_right _ (List.mem_cons_of_mem _ member)
  intro ref member
  simp only [protocolReferences, List.mem_cons, List.not_mem_nil, or_false] at member
  obtain rfl | rfl | rfl | rfl | rfl := member
  · exact ofShell furnished.defines_hasNext
  · exact ofShell furnished.defines_current
  · exact ⟨rfl, moveNext, List.mem_append_right _ List.mem_cons_self, answers⟩
  · obtain ⟨method, member, answers⟩ := draws.hasNext
    exact ⟨rfl, method, ofProtocol member, answers⟩
  · obtain ⟨method, member, answers⟩ := draws.next
    exact ⟨rfl, method, ofProtocol member, answers⟩

/-- The methods for loops, if loops are supported. -/
def Layout.protocol (layout : Layout) (withProtocol : Bool) : Generation (List MethodDef) :=
  if withProtocol then protocolMethods layout.className layout.element else pure []

/-- The methods that draw elements refer to the library and to their class. -/
theorem protocol_links (layout : Layout) (withProtocol : Bool) (before : ClassContext) :
    Result.Methods
      (fun ref => ref ∈ Library.members ∨
        withProtocol = true ∧ ref ∈ protocolReferences layout.className layout.element)
      (fun methods => methods)
      (fun methods => (withProtocol = true → layout.Draws methods) ∧
        ∀ method ∈ methods, method.name ∈ ClassDef.machinery)
      before (layout.protocol withProtocol before) := by
  unfold Layout.protocol
  cases withProtocol with
  | false => exact .ok (.refl before) ⟨nofun, nofun⟩ nofun
  | true =>
    let known : Reference → Prop := fun ref => ref ∈ Library.members ∨
      true = true ∧ ref ∈ protocolReferences layout.className layout.element
    have library : Library.KnownTo known := fun _ => .inl
    have own : ∀ ref ∈ protocolReferences layout.className layout.element, known ref :=
      fun _ member => .inr ⟨rfl, member⟩
    have links := protocolMethods_links library own before
    rw [if_pos rfl]
    generalize protocolMethods layout.className layout.element before = result at links
    cases links with
    | error proper => exact .error proper
    | ok quiet holds refers =>
      obtain ⟨hasNext, next, names⟩ := holds
      exact .ok quiet ⟨fun _ => ⟨hasNext, next⟩, names⟩ refers

/-- The class is added when its methods are there. -/
theorem addClass_eq (layout : Layout) (method : MethodDecl) (body : Stmt) :
    addClass layout method body = (do
      let (moveNext, spills) ← moveNextMethod layout method body
      let withProtocol := (← get).config.iteratorProtocol
      let protocol ← layout.protocol withProtocol
      let interfaces := if withProtocol then [Library.iterator, Library.iterable] else []
      modify fun context =>
        { context with
          nested := context.nested.push
            (layout.filled spills interfaces (moveNext :: protocol)) }) := by
  unfold addClass Layout.protocol
  refine congrArg _ (funext fun (moveNext, spills) => ?_)
  dsimp only
  refine congrArg _ (funext fun cls => ?_)
  cases cls.config.iteratorProtocol with
  | false => simp [Layout.filled, Layout.spilled]
  | true => simp [Layout.filled, Layout.spilled]

/-- The class is added, and with it everything that was assumed of it. -/
theorem addClass_compiles
    (method : MethodDecl)
    (furnished : layout.Furnished before.config.iteratorProtocol)
    (library : Library.KnownTo known)
    (mentions : body.MentionsKnown known)
    (sound : before.Sound known []) :
    Generation.Result.Compiles known body.allLambdas (fun _ => layout.references) before
      (addClass layout method body before) := by
  have runs := moveNextMethod_runs method furnished library mentions sound
  rw [addClass_eq]
  refine bind_of_result runs (fun _ _ => id) ?_
  rintro ⟨moveNext, spills⟩ between - runs
  obtain ⟨name, answers, compiled, soundBetween, gains, once, refers⟩ := runs
  refine bind_cases (fun _ _ failed => by cases failed) fun cls _ read => ?_
  obtain ⟨rfl, rfl⟩ := Generation.get_ok.mp read
  rw [gains.config]
  have protocolLinks := protocol_links layout before.config.iteratorProtocol between
  refine bind_cases ?_ fun protocol after made => ?_
  · intro error _ failed
    exact Result.Methods.proper failed protocolLinks
  obtain ⟨quiet, ⟨draws, names⟩, protocolRefers⟩ := made ▸ protocolLinks
  let interfaces :=
    if before.config.iteratorProtocol then [Library.iterator, Library.iterable] else []
  let other := layout.filled spills interfaces (moveNext :: protocol)
  let final : ClassContext := { after with nested := after.nested.push other }
  have provides : ∀ {ref}, other.Defines ref → final.Provides ref :=
    fun defines => .nested (by simp [final]) defines
  have assumed : after.Sound (fun ref => other.Defines ref ∨ known ref) [layout.className] := by
    refine (soundBetween.quiet quiet).settle ?_ fun home member => .inl member
    rintro ref (defines | found)
    · exact .inl (.inl (Layout.filled_defines interfaces defines))
    · exact .inl (.inr found)
  have soundFinal : final.Sound (fun ref => other.Defines ref ∨ known ref) [layout.className] := by
    refine assumed.pushNested ?_ ?_
    · intro method member ref inside
      simp only [other, Layout.filled, Layout.spilled, ClassDef.synthetic, List.cons_append,
        List.nil_append, List.mem_cons] at member
      obtain rfl | rfl | member := member
      · exact .inl (.inr (MethodDef.known_of_mem_defaultConstructor library inside))
      · obtain (defines | found) | provided := refers ref inside
        · exact .inl (.inl (Layout.filled_defines interfaces defines))
        · exact .inl (.inr found)
        · exact .inr (quiet.provides provided)
      · obtain (listed | ⟨withProtocol, listed⟩) | provided :=
          protocolRefers method member ref inside
        · exact .inl (.inr (library ref listed))
        · refine .inl (.inl (Layout.filled_defines_protocol spills interfaces ?_ answers
            (draws withProtocol) ref listed))
          rwa [withProtocol] at furnished
        · exact .inr provided
    · intro method member
      simp only [other, Layout.filled, Layout.spilled, ClassDef.synthetic, List.cons_append,
        List.nil_append, List.mem_cons] at member
      obtain rfl | rfl | member := member
      · exact List.mem_cons_self
      · rw [name]
        simp [ClassDef.machinery]
      · exact names method member
  have gained := (gains.trans quiet.gains).trans (.pushNested after other)
  simp only [List.append_nil] at gained
  refine ⟨compiled, soundFinal.settle ?_ ?_, gained, once, ?_⟩
  · rintro ref (defines | found)
    · exact .inr (provides defines)
    · exact .inl found
  · intro home member
    obtain rfl := List.mem_singleton.mp member
    exact .inr (List.mem_map.mpr ⟨other, by simp [final], rfl⟩)
  · intro ref member
    have defines := furnished.defines_references ref member
    exact .inr (provides (defines.mono rfl (List.subset_append_left _ _)
      (List.subset_append_left _ _)))

theorem entryBody_links
    {targets : List (LambdaId × LambdaTarget)} (method : MethodDecl)
    (refers : ∀ ref ∈ layout.references, known ref) :
    LinksTo known targets MethodBody.references (entryBody layout method) := by
  rw [entryBody_eq]
  refine .seq (ComposedTo.links (.seq (.seq .reserveSelf (.declareLocals _)) (.code ?_))) .finish
  exact plain_stateCode method refers

/-- An iterator method refers to nothing unknown, and its lambdas are compiled. -/
theorem compile_compiles
    (method : MethodDecl) (element : Ty)
    (library : Library.KnownTo known)
    (mentions : body.MentionsKnown known)
    (sound : before.Sound known []) :
    Generation.Result.Compiles known body.allLambdas MethodBody.references before
      (compile method element body before) := by
  have naming : Generation.Keeps (modifyGet ClassContext.newIteratorName) :=
    fun cls => { ClassContext.Quiet.refl cls with }
  refine .afterKeeps naming sound fun className named _ sound _ => ?_
  refine .afterKeeps .get sound fun cls _ _ sound _ => ?_
  refine .afterKeeps (.log _ _) sound fun _ logged _ sound _ => ?_
  refine .afterKeeps (keeps_layOut _ _ _ _) sound fun layout laid success sound quiet => ?_
  obtain ⟨furnished, -, -⟩ := layOut_furnished success
  refine .afterKeeps (.log _ _) sound fun _ before written sound quiet' => ?_
  rw [← quiet.config, ← quiet'.config] at furnished
  rw [← List.append_nil body.allLambdas]
  refine .chain (addClass_compiles method furnished library mentions sound)
    fun _ between compiled soundBetween _ refers => ?_
  refine .ofLinks rfl ⟨nofun, rfl, nofun⟩ soundBetween (entryBody_links method fun ref member => ?_)
  exact (refers ref member).symm

end

end IteratorClass

end StackCode
