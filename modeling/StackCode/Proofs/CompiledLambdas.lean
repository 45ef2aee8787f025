import StackCode.Proofs.CapturePlans
import StackCode.Proofs.Entry

/-!
# Lambdas are compiled once

Preparing a body compiles every lambda in it into one method, those inside other
lambdas included.  What the finished methods refer to is known from outside or
is made up on the way, and the class of each of them is there in the end.
-/

namespace StackCode

variable {ref : Reference} {id : LocalId}

/-! ## Finished methods -/

/-- What the instructions of a body refer to. -/
def MethodBody.references (body : MethodBody) : List Reference :=
  body.instructions.toList.flatMap Instruction.references

/-- What the body of a method refers to. -/
def MethodDef.references (method : MethodDef) : List Reference :=
  method.body.toList.flatMap MethodBody.references

/-- The constructor of a synthetic class calls that of its superclass. -/
theorem MethodDef.known_of_mem_defaultConstructor {known : Reference → Prop}
    (library : Library.KnownTo known)
    (member : ref ∈ MethodDef.defaultConstructor.references) : known ref := by
  obtain rfl : ref = .method (Library.constructor objectName) := by
    simpa [MethodDef.references, MethodDef.defaultConstructor, MethodBody.references,
      MethodBody.straight, Instruction.references] using member
  exact library _ (by simp [Library.members])

/-- A lambda that was compiled, with the class that its method belongs to. -/
structure CompiledLambda where
  /-- The lambda. -/
  lambda : Lambda
  /-- The class of the method. -/
  owner : String
  /-- The method. -/
  method : MethodDef
  name : ∃ (source : String) (number : Nat),
    method.name = "lambda$" ++ source ++ "$" ++ toString number
  params : method.params = lambda.params.map fun param => param.type.erasure
  ret : method.ret = lambda.ret.erasure
  /-- The body is that of the lambda, lowered in its class. -/
  body : ∃ depth access selfPath before body after,
    Emit.lambdaBody (Emit.prepareWithin depth) lambda access selfPath before = .ok body after ∧
      before.method.className = owner ∧ method.body = some body

/-- The method of a compiled lambda, with its class. -/
def CompiledLambda.entry (compiled : CompiledLambda) : String × MethodDef :=
  (compiled.owner, compiled.method)

/-- The names of the methods of synthetic classes, those of lambdas left out. -/
def ClassDef.machinery : List String :=
  [Library.constructorName, moveNextName, IteratorClass.hasNextName, IteratorClass.nextName,
    IteratorClass.iteratorName]

namespace ClassContext

/-- The synthetic methods that are finished. -/
def finished (cls : ClassContext) : List MethodDef :=
  cls.methods.toList.map Prod.snd ++ cls.nested.toList.flatMap ClassDef.methods

/-- The finished methods refer to what is known or made up, and have classes to go to. -/
structure Sound (known : Reference → Prop) (homes : List String) (cls : ClassContext) : Prop where
  refers : ∀ method ∈ cls.finished, ∀ ref ∈ method.references, known ref ∨ cls.Provides ref
  homed : ∀ entry ∈ cls.methods.toList, entry.1 = cls.name ∨ entry.1 ∈ homes ∨
    entry.1 ∈ cls.nested.toList.map ClassDef.name
  named : ∀ other ∈ cls.nested.toList, ∀ method ∈ other.methods, method.name ∈ ClassDef.machinery

/-- Lambdas were compiled and synthetic classes were added. -/
structure Gains (before after : ClassContext) (compiled : List CompiledLambda) : Prop where
  name : after.name = before.name
  config : after.config = before.config
  fields : before.fields.toList <+: after.fields.toList
  methods : after.methods.toList = before.methods.toList ++ compiled.map CompiledLambda.entry
  nested : before.nested.toList <+: after.nested.toList

variable {before between after cls : ClassContext} {known more : Reference → Prop}
  {homes left : List String} {compiled added : List CompiledLambda}

theorem Quiet.gains (quiet : before.Quiet after) : before.Gains after [] where
  name := quiet.name
  config := quiet.config
  fields := quiet.fields
  methods := by simp [quiet.methods]
  nested := by rw [quiet.nested]

theorem Gains.trans (first : before.Gains between compiled) (second : between.Gains after added) :
    before.Gains after (compiled ++ added) where
  name := second.name.trans first.name
  config := second.config.trans first.config
  fields := first.fields.trans second.fields
  methods := by rw [second.methods, first.methods, List.map_append, List.append_assoc]
  nested := first.nested.trans second.nested

/-- Nothing that was made up is lost. -/
theorem Gains.provides (gains : before.Gains after compiled)
    (provided : before.Provides ref) : after.Provides ref := by
  cases provided with
  | field owner member answers =>
    exact .field (owner.trans gains.name.symm) (gains.fields.subset member) answers
  | method member answers =>
    refine .method ?_ answers
    rw [gains.methods]
    exact List.mem_append_left _ member
  | nested member defines => exact .nested (gains.nested.subset member) defines

theorem Gains.pushMethod (cls : ClassContext) (own : CompiledLambda) :
    cls.Gains { cls with methods := cls.methods.push own.entry } [own] where
  name := rfl
  config := rfl
  fields := List.prefix_rfl
  methods := by simp
  nested := List.prefix_rfl

theorem Gains.pushNested (cls : ClassContext) (other : ClassDef) :
    cls.Gains { cls with nested := cls.nested.push other } [] where
  name := rfl
  config := rfl
  fields := List.prefix_rfl
  methods := by simp
  nested := by simp

/-- Making up names changes nothing about what is sound. -/
theorem Sound.quiet (sound : before.Sound known homes) (quiet : before.Quiet after) :
    after.Sound known homes := by
  have finished : after.finished = before.finished := by
    simp only [ClassContext.finished, quiet.methods, quiet.nested]
  refine ⟨?_, ?_, ?_⟩
  · intro method member ref inside
    rw [finished] at member
    exact (sound.refers method member ref inside).imp_right quiet.provides
  · rw [quiet.methods, quiet.name, quiet.nested]
    exact sound.homed
  · rw [quiet.nested]
    exact sound.named

/-- What was known is known to fewer assumptions or made up. -/
theorem Sound.settle (sound : cls.Sound known homes)
    (settled : ∀ ref, known ref → more ref ∨ cls.Provides ref)
    (housed : ∀ home ∈ homes, home ∈ left ∨ home ∈ cls.nested.toList.map ClassDef.name) :
    cls.Sound more left where
  refers := by
    intro method member ref inside
    obtain found | provided := sound.refers method member ref inside
    · exact settled ref found
    · exact .inr provided
  homed := by
    intro entry member
    obtain own | home | nested := sound.homed entry member
    · exact .inl own
    · exact .inr (housed entry.1 home)
    · exact .inr (.inr nested)
  named := sound.named

/-- A lambda is compiled. -/
theorem Sound.pushMethod (sound : cls.Sound known homes) {own : CompiledLambda}
    (home : own.owner = cls.name ∨ own.owner ∈ homes)
    (refers : ∀ ref ∈ own.method.references, known ref ∨ cls.Provides ref) :
    Sound known homes { cls with methods := cls.methods.push own.entry } := by
  have grown := Gains.pushMethod cls own
  refine ⟨?_, ?_, sound.named⟩
  · intro other member ref inside
    have listed : other = own.method ∨ other ∈ cls.finished := by
      simp only [finished, Array.toList_push, List.map_append, List.map_cons, List.map_nil,
        List.mem_append, List.mem_singleton] at member ⊢
      tauto
    obtain rfl | member := listed
    · exact (refers ref inside).imp_right grown.provides
    · exact (sound.refers other member ref inside).imp_right grown.provides
  · intro entry member
    obtain member | rfl : entry ∈ cls.methods.toList ∨ entry = own.entry := by
      simpa using member
    · exact sound.homed entry member
    · exact home.imp_right .inl

/-- A synthetic class is added. -/
theorem Sound.pushNested (sound : cls.Sound known homes) {other : ClassDef}
    (refers : ∀ method ∈ other.methods, ∀ ref ∈ method.references, known ref ∨ cls.Provides ref)
    (named : ∀ method ∈ other.methods, method.name ∈ ClassDef.machinery) :
    Sound known homes { cls with nested := cls.nested.push other } := by
  have grown := Gains.pushNested cls other
  refine ⟨?_, ?_, ?_⟩
  · intro method member ref inside
    have listed : method ∈ other.methods ∨ method ∈ cls.finished := by
      simp only [finished, Array.toList_push, List.flatMap_append, List.flatMap_singleton,
        List.mem_append] at member ⊢
      tauto
    obtain member | member := listed
    · exact (refers method member ref inside).imp_right grown.provides
    · exact (sound.refers method member ref inside).imp_right grown.provides
  · intro entry member
    obtain own | home | nested := sound.homed entry member
    · exact .inl own
    · exact .inr (.inl home)
    · refine .inr (.inr ?_)
      simp only [Array.toList_push, List.map_append, List.mem_append]
      exact .inl nested
  · intro found member
    obtain member | rfl : found ∈ cls.nested.toList ∨ found = other := by simpa using member
    · exact sound.named found member
    · exact named

end ClassContext

/-! ## While a body is prepared -/

namespace Emission

/-- The finished methods refer to nothing unknown. -/
def Sound (known : Reference → Prop) (homes : List String) (state : Emission) : Prop :=
  state.cls.Sound (fun ref => known ref ∨ state.method.Spills ref) homes

/-- Lambdas were compiled, and nothing that was made up is lost. -/
structure Gains (before after : Emission) (compiled : List CompiledLambda) : Prop where
  cls : before.cls.Gains after.cls compiled
  spills : ∀ ref, before.method.Spills ref → after.method.Spills ref
  suspended : after.method.suspension.map Suspension.className =
    before.method.suspension.map Suspension.className
  className : after.method.className = before.method.className

variable {before between after state : Emission} {known more : Reference → Prop}
  {homes left : List String} {compiled added : List CompiledLambda}

theorem Grows.gains (grows : before.Grows after) : before.Gains after [] :=
  ⟨grows.quiet.gains, grows.spills, grows.suspended, grows.className⟩

theorem Gains.trans (first : before.Gains between compiled) (second : between.Gains after added) :
    before.Gains after (compiled ++ added) where
  cls := first.cls.trans second.cls
  spills ref spilled := second.spills ref (first.spills ref spilled)
  suspended := second.suspended.trans first.suspended
  className := second.className.trans first.className

theorem Gains.provides (gains : before.Gains after compiled)
    (provided : before.Provides ref) : after.Provides ref :=
  provided.imp gains.cls.provides (gains.spills ref)

theorem Sound.grows (sound : before.Sound known homes) (grows : before.Grows after) :
    after.Sound known homes := by
  refine (ClassContext.Sound.quiet sound grows.quiet).settle ?_ fun home member => .inl member
  rintro ref (found | spilled)
  · exact .inl (.inl found)
  · exact .inl (.inr (grows.spills ref spilled))

/-- What was known is known further, or made up by now. -/
theorem Sound.settle (sound : state.Sound known homes)
    (settled : ∀ ref, known ref → more ref ∨ state.Provides ref)
    (housed : ∀ home ∈ homes, home ∈ left ∨ home ∈ state.cls.nested.toList.map ClassDef.name) :
    state.Sound more left := by
  refine ClassContext.Sound.settle sound ?_ housed
  rintro ref (found | spilled)
  · obtain found | provided | spilled := settled ref found
    · exact .inl (.inl found)
    · exact .inr provided
    · exact .inl (.inr spilled)
  · exact .inl (.inr spilled)

theorem Linked.settle {targets : List (LambdaId × LambdaTarget)}
    (linked : state.Linked known targets)
    (settled : ∀ ref, known ref → more ref ∨ state.Provides ref) : state.Linked more targets :=
  { linked with
    refers := fun ref member => (linked.refers ref member).elim (settled ref) .inr }

/-- What preparing a body or a part of it comes to. -/
structure Compiles
    (known : Reference → Prop)
    (homes : List String)
    (before after : Emission)
    (added : List (LambdaId × LambdaTarget))
    (compiled : List CompiledLambda) :
    Prop where
  linked : after.Linked known (added ++ before.method.lambdas)
  sound : after.Sound known homes
  gains : before.Gains after compiled

/-- A method that is finished aside knows whatever is there outside, and is added to its class. -/
theorem Compiles.pushMethod
    {start : Emission} {lambdas : List (LambdaId × LambdaTarget)}
    (compiles :
      Compiles (fun ref => known ref ∨ before.Provides ref) homes start after lambdas compiled)
    (unsuspended : start.method.suspension = none)
    (sameClass : start.cls = before.cls)
    (linked : before.Linked known before.method.lambdas)
    {own : CompiledLambda}
    (homed : own.owner = before.cls.name ∨ own.owner ∈ homes)
    (refers : ∀ ref ∈ own.method.references,
      (known ref ∨ before.Provides ref) ∨ after.Provides ref) :
    Compiles known homes before
      { before with cls := { after.cls with methods := after.cls.methods.push own.entry } } []
      (compiled ++ [own]) := by
  obtain ⟨-, sound, gains⟩ := compiles
  have unspilled := MethodContext.not_spills (gains.suspended.trans (by simp [unsuspended]))
  have gained := gains.cls
  rw [sameClass] at gained
  have pushes := ClassContext.Gains.pushMethod after.cls own
  have outside : before.Gains
      { before with cls := { after.cls with methods := after.cls.methods.push own.entry } }
      (compiled ++ [own]) :=
    ⟨gained.trans pushes, fun _ spilled => spilled, rfl, rfl⟩
  refine ⟨?_, ?_, outside⟩
  · exact { linked with
      refers := fun ref member => (linked.refers ref member).imp_right outside.provides }
  · have grown : ClassContext.Sound
        (fun ref => (known ref ∨ before.Provides ref) ∨ after.method.Spills ref) homes
        { after.cls with methods := after.cls.methods.push own.entry } := by
      refine ClassContext.Sound.pushMethod sound (by rwa [gained.name]) fun ref member => ?_
      obtain found | provided | spilled := refers ref member
      · exact .inl (.inl found)
      · exact .inr provided
      · exact .inl (.inr spilled)
    refine grown.settle ?_ fun home member => .inl member
    rintro ref ((found | provided) | spilled)
    · exact .inl (.inl found)
    · obtain provided | spilled := outside.provides provided
      · exact .inr provided
      · exact .inl (.inr spilled)
    · exact (unspilled ref spilled).elim

end Emission

namespace Emit

/--
The result of a step that compiles `every` lambda once.  The ones that are `met`
have targets then, and the value refers to nothing unknown.
-/
def Result.Compiles
    (known : Reference → Prop)
    (homes : List String)
    (met every : List Lambda)
    (refs : α → List Reference)
    (before : Emission) :
    EStateM.Result Error Emission α → Prop
  | .ok value after => ∃ added compiled, Emission.Compiles known homes before after added compiled ∧
      (∀ lambda ∈ met, (added.lookup lambda.id).isSome) ∧
      (compiled.map CompiledLambda.lambda).Perm every ∧
      ∀ ref ∈ refs value, known ref ∨ after.Provides ref
  | .error error _ => error.breaksLink = false

namespace Result.Compiles

variable {known : Reference → Prop} {homes : List String} {met every : List Lambda}
  {refs : α → List Reference} {refs' : β → List Reference} {before : Emission}

/-- A step that compiles nothing comes first. -/
theorem afterLinks
    {first : Emit α} {next : α → Emit β}
    (links : Result.Links known before.method.lambdas refs before (first before))
    (sound : before.Sound known homes)
    (rest : ∀ value between, first before = .ok value between →
      between.Linked known between.method.lambdas → between.Sound known homes →
      before.Grows between → Result.Compiles known homes met every refs' between
        (next value between)) :
    Result.Compiles known homes met every refs' before ((first >>= next) before) := by
  refine bind_of_result links (fun _ _ => id) fun value between ran links => ?_
  obtain ⟨linked, grows, -⟩ := links
  refine result_imp
    (rest value between ran (linked.lambdas.symm ▸ linked) (sound.grows grows) grows)
    (fun _ _ => id) fun _ after nextResult => ?_
  obtain ⟨added, compiled, compiles, lookups, once, known⟩ := nextResult
  refine ⟨added, compiled, ⟨?_, compiles.sound, ?_⟩, lookups, once, known⟩
  · exact linked.lambdas ▸ compiles.linked
  · exact grows.gains.trans compiles.gains

/-- A step that compiles nothing comes last. -/
theorem thenLinks
    {first : Emit α} {next : α → Emit β}
    (compiles : Result.Compiles known homes met every refs before (first before))
    (rest : ∀ value added, (∀ lambda ∈ met, (added.lookup lambda.id).isSome) →
      LinksTo (fun ref => ref ∈ refs value ∨ known ref) (added ++ before.method.lambdas) refs'
        (next value)) :
    Result.Compiles known homes met every refs' before ((first >>= next) before) := by
  refine bind_of_result compiles (fun _ _ => id) fun value between _ compiles => ?_
  obtain ⟨added, compiled, compiles, lookups, once, valueKnown⟩ := compiles
  refine result_imp (rest value added lookups between (compiles.linked.mono fun _ => .inr))
    (fun _ _ => id) fun _ after nextResult => ?_
  obtain ⟨linked, grows, resultKnown⟩ := nextResult
  have settle : ∀ ref, ref ∈ refs value ∨ known ref → known ref ∨ after.Provides ref := by
    rintro ref (member | found)
    · exact (valueKnown ref member).imp_right grows.provides
    · exact .inl found
  refine ⟨added, compiled, ⟨linked.settle settle, compiles.sound.grows grows, ?_⟩, lookups, once,
    ?_⟩
  · have gains := compiles.gains.trans grows.gains
    rwa [List.append_nil] at gains
  · exact fun ref member => (resultKnown ref member).elim (settle ref) .inr

/-- The order in which lambdas are compiled does not matter. -/
theorem ofPerm
    {every' : List Lambda} {result : EStateM.Result Error Emission α}
    (compiles : Result.Compiles known homes met every refs before result)
    (same : every.Perm every') :
    Result.Compiles known homes met every' refs before result := by
  cases result with
  | error error after => exact compiles
  | ok value after =>
    obtain ⟨added, compiled, compiles, lookups, once, refers⟩ := compiles
    exact ⟨added, compiled, compiles, lookups, once.trans same, refers⟩

end Result.Compiles

variable {lambda : Lambda}

/-! ## Steps that compile nothing -/

namespace LinksTo

variable {known : Reference → Prop} {targets : List (LambdaId × LambdaTarget)}

theorem takeQuiet {take : ClassContext → α × ClassContext}
    (quiet : ∀ cls : ClassContext, cls.Quiet (take cls).2) :
    Links known targets (Emit.takeClass take) :=
  takeClass fun cls => ⟨quiet cls, List.forall_mem_nil _⟩

/-- The scope object is made from the class of the scope. -/
theorem makeScope?
    {scope : ClosureScope}
    (wellFormed : scope.WellFormed)
    (defined : ∀ ref, scope.Defines ref → known ref)
    (params : List LocalDecl) :
    Links known targets (makeScope? scope params) := by
  unfold Emit.makeScope?
  split
  · next name named =>
    have made : scope.toClass? = some (.synthetic name scope.fields) := by
      rw [ClosureScope.toClass?, named]
      rfl
    rw [makeScope_eq]
    refine bind (bind (ComposedTo.links (.code (.scopeCode ?_ ?_ ?_ ?_ (fun _ => trivial) params)))
      fun slot => seq ?_ (pure _)) fun _ => pure _
    · exact defined _ ⟨_, made, rfl⟩
    · exact defined _ ⟨_, made, rfl, _, List.mem_singleton_self _,
        MethodDef.answers_constructor name⟩
    · exact fun field member => defined _ (wellFormed.selfField field member)
    · exact fun id field found => defined _ (wellFormed.captured _ (mem_of_lookup found))
    · refine forM fun entry member => setAccess _ fun ref inside => ?_
      obtain rfl := List.mem_singleton.mp inside
      exact defined _ (wellFormed.captured entry member)
  · exact pure _

theorem setSelfPath {path : List FieldRef} (refers : ∀ field ∈ path, known (.field field)) :
    Links known targets (setSelfPath path) := by
  refine modifyMethod (fun method => .aside (fun ref member => ?_) rfl rfl rfl) fun _ => rfl
  have pathKnown : ref ∈ path.map Reference.field → known ref := by
    intro inside
    obtain ⟨field, listed, rfl⟩ := List.mem_map.mp inside
    exact refers field listed
  simp only [MethodContext.references, List.mem_append] at member ⊢
  tauto

/-- The finished body refers to what the code refers to. -/
theorem finish : LinksTo known targets MethodBody.references finish := by
  refine reading fun method _ _ => ?_
  split
  · next body finished =>
    refine pureTo fun ref member => .inl ?_
    rw [MethodBody.references, (Code.finishes_of_finish finished).instructions] at member
    simp only [MethodContext.references, List.mem_append]
    tauto
  · next error failed =>
    obtain ⟨label, rfl, -⟩ := Code.finish_error failed
    exact throw rfl

theorem method : Links known targets method := fun before linked => ⟨linked, .refl before, nofun⟩

theorem cls : Links known targets cls := fun before linked => ⟨linked, .refl before, nofun⟩

end LinksTo

/-! ## Compiling lambdas -/

/-- A preparation that compiles every lambda of a body once. -/
def Prepares (prepare : Preparation) : Prop :=
  ∀ (known : Reference → Prop) (homes : List String) (body : Stmt) (params : List LocalDecl)
    (before : Emission),
    Library.KnownTo known →
    body.MentionsKnown known →
    before.Linked known before.method.lambdas → before.Sound known homes →
    (before.method.className = before.cls.name ∨ before.method.className ∈ homes) →
    Result.Compiles known homes body.lambdas body.allLambdas (fun _ => []) before
      (prepare body params before)

section

variable {known : Reference → Prop} {homes : List String} {before : Emission}
variable {depth : Nat} {home : LambdaHome} {scope : ClosureScope} {every : List Lambda}

/-- Once its lambdas are compiled, a body can be lowered. -/
theorem reads_of_compiled
    {body : Stmt} {added targets : List (LambdaId × LambdaTarget)}
    (mentions : body.MentionsKnown known)
    (lookups : ∀ lambda ∈ body.lambdas, (added.lookup lambda.id).isSome) :
    Reads (.linked known (added ++ targets)) (body.visits false) where
  mentions visit member := mentions visit (body.visits_subset member)
  compiled lambda member := by
    rintro _ ⟨⟩
    have found := lookups lambda (Stmt.mem_lambdas_of_mem_visits member)
    obtain ⟨target, found⟩ := Option.isSome_iff_exists.mp found
    simp [List.lookup_append, found]

/-- A body is prepared and lowered after a step that compiles nothing. -/
theorem Prepares.afterEntry
    {prepare : Preparation} {body : Stmt} {entry : Emit Unit} {rest : Emit α}
    {refs : α → List Reference}
    (prepares : Prepares prepare) (params : List LocalDecl)
    (library : Library.KnownTo known)
    (mentions : body.MentionsKnown known)
    (linked : before.Linked known before.method.lambdas)
    (sound : before.Sound known homes)
    (home : before.method.className = before.cls.name ∨ before.method.className ∈ homes)
    (enters : Links known before.method.lambdas entry)
    (lowers : ∀ targets, Reads (.linked known targets) (body.visits false) →
      LinksTo known targets refs rest) :
    Result.Compiles known homes body.lambdas body.allLambdas refs before
      ((do entry; prepare body params; rest) before) := by
  refine .afterLinks (enters before linked) sound fun _ between _ linkedBetween soundBetween
    grows => ?_
  have homeBetween : between.method.className = between.cls.name ∨
      between.method.className ∈ homes := by
    rw [grows.className, grows.quiet.name]
    exact home
  refine .thenLinks (prepares known homes body params between library mentions linkedBetween
    soundBetween homeBetween) fun _ added lookups => ?_
  simp only [List.not_mem_nil, false_or]
  exact lowers _ (reads_of_compiled mentions lookups)

/-- The body of a lambda. -/
theorem Prepares.lambdaBody
    {prepare : Preparation}
    (prepares : Prepares prepare)
    {access : List (LocalId × LocalAccess)} {selfPath : List FieldRef}
    (library : Library.KnownTo known)
    (mentions : lambda.body.MentionsKnown known)
    (accessKnown : ∀ entry ∈ access, ∀ ref ∈ entry.2.references, known ref)
    (pathKnown : ∀ field ∈ selfPath, known (.field field))
    (linked : before.Linked known before.method.lambdas)
    (sound : before.Sound known homes)
    (home : before.method.className = before.cls.name ∨ before.method.className ∈ homes) :
    Result.Compiles known homes lambda.body.lambdas lambda.body.allLambdas MethodBody.references
      before (lambdaBody prepare lambda access selfPath before) := by
  have accesses : Links known before.method.lambdas
      (access.forM fun entry => setAccess entry.1 entry.2) :=
    .forM fun entry member => .setAccess _ (accessKnown entry member)
  have entering : Links known before.method.lambdas (lambdaStart lambda access selfPath) :=
    .seq (ComposedTo.links (.seq .reserveSelf (.declareLocals _)))
      (.seq accesses (.setSelfPath pathKnown))
  have split : Emit.lambdaBody prepare lambda access selfPath = (do
      lambdaStart lambda access selfPath
      prepare lambda.body lambda.params
      lowerBody lambda.body
      finish) := by
    simp only [Emit.lambdaBody, lambdaStart, declareParams, bind_assoc]
  rw [split]
  exact prepares.afterEntry _ library mentions linked sound home entering fun _ reads =>
    .seq (.lowerBody library reads) .finish

/-- The reference to the method of a lambda. -/
def lambdaRef (home : LambdaHome) (name : String) (lambda : Lambda) : MethodRef :=
  { owner := home.owner
    name
    params := (lambda.params.map fun param => param.type.erasure).map Ty.ofErased
    ret := .ofErased lambda.ret.erasure
    invoke := if home.isStatic then .static else .virtual }

/-- The method of a lambda. -/
def lambdaMethod (home : LambdaHome) (name : String) (lambda : Lambda) (body : MethodBody) :
    MethodDef :=
  { name
    flags := lambdaFlags home.isStatic
    params := lambda.params.map fun param => param.type.erasure
    ret := lambda.ret.erasure
    body := some body }

/-- The method of a lambda answers the reference to it. -/
theorem answers_lambdaRef (home : LambdaHome) (name : String) (lambda : Lambda)
    (body : MethodBody) : (lambdaMethod home name lambda body).Answers (lambdaRef home name lambda)
    where
  name := rfl
  descriptor := by
    simp [MethodDef.descriptor, MethodRef.descriptor, lambdaMethod, lambdaRef, List.map_map,
      Function.comp_def]
  isStatic := by
    have static : (lambdaFlags true &&& AccessFlags.static != 0) = true := by decide
    have instance' : (lambdaFlags false &&& AccessFlags.static != 0) = false := by decide
    cases isStatic : home.isStatic with
    | true => simp [lambdaMethod, lambdaRef, MethodDef.isStatic, isStatic, static]
    | false => simp [lambdaMethod, lambdaRef, MethodDef.isStatic, isStatic, instance']

/-- Finish the method of a lambda in a state of its own, and add it to its class. -/
theorem compiles_aside
    {access : List (LocalId × LocalAccess)} {selfPath : List FieldRef} {context : MethodContext}
    (prepares : Prepares (prepareWithin depth))
    (source : String) (number : Nat)
    (started : ∃ methodName returnType debugInfo, context =
      .start home.owner methodName home.isStatic returnType debugInfo)
    (library : Library.KnownTo known)
    (mentions : lambda.body.MentionsKnown known)
    (accessKnown : ∀ entry ∈ access, ∀ ref ∈ entry.2.references, known ref ∨ before.Provides ref)
    (pathKnown : ∀ field ∈ selfPath, known (.field field) ∨ before.Provides (.field field))
    (linked : before.Linked known before.method.lambdas)
    (sound : before.Sound known homes)
    (homed : home.owner = before.cls.name ∨ home.owner ∈ homes) :
    let name := "lambda$" ++ source ++ "$" ++ toString number
    Result.Compiles known homes [] (lambda :: lambda.body.allLambdas)
      (fun target => [.method target]) before ((do
        let body ← aside
            (onMethod context (lambdaBody (prepareWithin depth) lambda access selfPath))
        modifyClass fun cls =>
          { cls with methods := cls.methods.push (home.owner, lambdaMethod home name lambda body) }
        return lambdaRef home name lambda : Emit MethodRef) before) := by
  intro name
  obtain ⟨methodName, returnType, debugInfo, rfl⟩ := started
  let start : Emission :=
    { method := .start home.owner methodName home.isStatic returnType debugInfo, cls := before.cls }
  -- Whatever is there outside is known inside.
  let inside : Reference → Prop := fun ref => known ref ∨ before.Provides ref
  have startLinked : start.Linked inside start.method.lambdas := ⟨nofun, rfl, nofun⟩
  have startSound : start.Sound inside homes := by
    refine ClassContext.Sound.settle sound ?_ fun home member => .inl member
    rintro ref (found | spilled)
    · exact .inl (.inl (.inl found))
    · exact .inl (.inl (.inr (.inr spilled)))
  have result := prepares.lambdaBody (fun ref member => .inl (library ref member))
    (fun visit member ref mentioned => .inl (mentions visit member ref mentioned)) accessKnown
    pathKnown startLinked startSound homed
  refine bind_cases (fun error _ failed => ?_) fun body _ went => ?_
  · obtain ⟨_, failed⟩ := aside_error failed
    obtain ⟨_, failed⟩ := onMethod_error failed
    rw [failed] at result
    exact result
  · obtain ⟨_, finished, rfl⟩ := aside_ok.mp went
    obtain ⟨after, ran, rfl⟩ := Generation.onMethod_ok.mp finished
    rw [ran] at result
    obtain ⟨added, compiled, compiles, -, once, refers⟩ := result
    let own : CompiledLambda :=
      { lambda
        owner := home.owner
        method := lambdaMethod home name lambda body
        name := ⟨source, number, rfl⟩
        params := rfl
        ret := rfl
        body := ⟨depth, access, selfPath, start, body, after, ran, rfl, rfl⟩ }
    have ownRefers : ∀ ref ∈ own.method.references, inside ref ∨ after.Provides ref := by
      intro ref member
      refine refers ref ?_
      simpa [MethodDef.references, own, lambdaMethod] using member
    refine ⟨[], compiled ++ [own],
      compiles.pushMethod rfl rfl linked homed ownRefers, nofun, ?_, ?_⟩
    · rw [List.map_append]
      exact (once.append_right _).trans (List.perm_append_singleton _ _)
    · intro ref member
      obtain rfl := List.mem_singleton.mp member
      refine .inr (.inl (.method ?_ (answers_lambdaRef home name lambda body)))
      simp [lambdaRef]

/-- A lambda becomes one method, and so do the lambdas inside it. -/
theorem Prepares.compileLambda
    {plan : LambdaPlan}
    (prepares : Prepares (prepareWithin depth))
    (library : Library.KnownTo known)
    (mentions : plan.lambda.body.MentionsKnown known)
    (capturesKnown : ∀ ref ∈ plan.captures.references, known ref)
    (pathKnown : ∀ field ∈ home.path, known (.field field))
    (linked : before.Linked known before.method.lambdas)
    (sound : before.Sound known homes)
    (homed : home.owner = before.cls.name ∨ home.owner ∈ homes) :
    Result.Compiles known homes [] (plan.lambda :: plan.lambda.body.allLambdas)
      (fun target => [.method target]) before
      (compileLambda (prepareWithin depth) home plan before) := by
  refine .afterLinks (LinksTo.method before linked) sound ?_
  intro outside _ read _ _ _
  obtain ⟨rfl, rfl⟩ := method_ok.mp read
  have newName : ∀ cls : ClassContext,
      cls.Quiet (cls.newLambdaName before.method.methodName).2 :=
    fun cls => { ClassContext.Quiet.refl cls with }
  refine .afterLinks (LinksTo.takeQuiet newName before linked) sound ?_
  intro name between took linkedBetween soundBetween growsBetween
  obtain ⟨rfl, -⟩ := takeClass_ok.mp took
  refine .afterLinks (LinksTo.log _ _ between linkedBetween) soundBetween ?_
  intro _ logged _ linkedLogged soundLogged growsLogged
  refine .afterLinks (LinksTo.cls logged linkedLogged) soundLogged ?_
  intro _ _ read _ _ _
  cases read
  have grows := growsBetween.trans growsLogged
  refine compiles_aside prepares _ _
    ⟨_, _, _, rfl⟩ library mentions ?_ ?_ linkedLogged soundLogged ?_
  · intro entry member ref inside
    refine .inl ?_
    obtain member | member := List.mem_append.mp member
    · obtain ⟨captured, listed, rfl⟩ := List.mem_map.mp member
      obtain rfl := List.mem_singleton.mp inside
      exact capturesKnown _ (List.mem_append_left _ (List.mem_map.mpr ⟨captured, listed, rfl⟩))
    · obtain ⟨captured, listed, rfl⟩ := List.mem_map.mp member
      obtain ⟨field, fieldMember, rfl⟩ := List.mem_map.mp inside
      obtain onPath | outer := List.mem_append.mp fieldMember
      · exact pathKnown field onPath
      · refine capturesKnown _
          (List.mem_append_right _ (List.mem_flatMap.mpr ⟨captured, listed, ?_⟩))
        exact List.mem_map_of_mem outer
  · intro field member
    obtain onPath | outer := List.mem_append.mp member
    · exact .inl (pathKnown field onPath)
    · have listed : Reference.field field ∈ before.method.references := by
        have inside : Reference.field field ∈ before.method.selfPath.map Reference.field :=
          List.mem_map_of_mem outer
        simp only [MethodContext.references, List.mem_append]
        tauto
      exact (linked.refers _ listed).imp_right grows.provides
  · rw [grows.quiet.name]
    exact homed

/-- A compiled lambda has a target from then on. -/
theorem Result.Compiles.register
    {first : Emit MethodRef} (lambda : Lambda) (receiver : Option Nat)
    (compiles : Result.Compiles known homes [] every (fun target => [.method target]) before
      (first before)) :
    Result.Compiles known homes [lambda] every (fun _ => []) before
      ((first >>= fun method => registerLambda lambda.id { method, receiver }) before) := by
  refine bind_of_result compiles (fun _ _ => id) fun method between _ compiles => ?_
  obtain ⟨added, compiled, ⟨linked, sound, gains⟩, -, once, refers⟩ := compiles
  let target : LambdaTarget := { method, receiver }
  let after := between.mapMethod fun method =>
    { method with lambdas := (lambda.id, target) :: method.lambdas }
  have grows : between.Grows after := .mapMethod between _ rfl rfl
  have linkedAfter :
      after.Linked known ((lambda.id, target) :: added ++ before.method.lambdas) := by
    refine ⟨?_, congrArg ((lambda.id, target) :: ·) linked.lambdas, ?_⟩
    · intro ref member
      have listed : ref = .method method ∨ ref ∈ between.method.references := by
        simp only [after, Emission.mapMethod, MethodContext.references, List.map_cons,
          List.mem_append, List.mem_cons] at member ⊢
        tauto
      obtain rfl | listed := listed
      · exact refers _ (List.mem_singleton_self _)
      · exact linked.refers ref listed
    · intro frame member other visited
      have found := linked.frames frame member other visited
      rw [List.cons_append, List.lookup_cons]
      split
      · rfl
      · exact found
  have gained := gains.trans grows.gains
  rw [List.append_nil] at gained
  refine ⟨(lambda.id, target) :: added, compiled,
    ⟨linkedAfter, sound.grows grows, gained⟩, ?_, once,
    List.forall_mem_nil _⟩
  intro other member
  obtain rfl := List.mem_singleton.mp member
  simp

/-- One step that compiles lambdas follows another. -/
theorem Result.Compiles.chain
    {first next : Emit PUnit} {met met' every' : List Lambda} {refs : PUnit → List Reference}
    (compiles : Result.Compiles known homes met every refs before (first before))
    (rest : ∀ between compiled, between.Linked known between.method.lambdas →
      between.Sound known homes → before.Gains between compiled →
      Result.Compiles known homes met' every' (fun _ => []) between (next between)) :
    Result.Compiles known homes (met ++ met') (every ++ every') (fun _ => []) before
      ((first >>= fun _ => next) before) := by
  refine bind_of_result compiles (fun _ _ => id) fun _ between _ compiles => ?_
  obtain ⟨added, compiled, ⟨linked, sound, gains⟩, lookups, once, -⟩ := compiles
  refine result_imp (rest between compiled (linked.lambdas.symm ▸ linked) sound gains)
    (fun _ _ => id) fun _ after nextResult => ?_
  obtain ⟨added', compiled', compiles', lookups', once', -⟩ := nextResult
  refine ⟨added' ++ added, compiled ++ compiled', ⟨?_, compiles'.sound, ?_⟩, ?_, ?_, nofun⟩
  · rw [List.append_assoc, ← linked.lambdas]
    exact compiles'.linked
  · exact gains.trans compiles'.gains
  · intro lambda member
    rw [List.lookup_append, Option.isSome_or]
    obtain member | member := List.mem_append.mp member
    · simp [lookups lambda member]
    · simp [lookups' lambda member]
  · rw [List.map_append]
    exact once.append once'

/-- The planned lambdas are compiled one after the other. -/
theorem Prepares.compilePlans
    {plans : List LambdaPlan}
    (prepares : Prepares (prepareWithin depth))
    (slot : Option Nat)
    (library : Library.KnownTo known)
    (mentions : ∀ plan ∈ plans, plan.lambda.body.MentionsKnown known)
    (capturesKnown : ∀ plan ∈ plans, ∀ ref ∈ plan.captures.references, known ref)
    (selfKnown : ∀ field ∈ scope.selfField, known (.field field))
    (scopeHome : ∀ name ∈ scope.name, name ∈ homes)
    (linked : before.Linked known before.method.lambdas)
    (sound : before.Sound known homes)
    (home : before.method.className = before.cls.name ∨ before.method.className ∈ homes) :
    Result.Compiles known homes (plans.map LambdaPlan.lambda)
      (plans.flatMap fun plan => plan.lambda :: plan.lambda.body.allLambdas) (fun _ => []) before
      (plans.forM (compilePlan (prepareWithin depth) scope slot) before) := by
  induction plans generalizing before with
  | nil => exact ⟨[], [], ⟨linked, sound, (Emission.Grows.refl before).gains⟩, nofun, .nil, nofun⟩
  | cons plan plans ih =>
    rw [List.forall_mem_cons] at mentions capturesKnown
    have first : Result.Compiles known homes [plan.lambda]
        (plan.lambda :: plan.lambda.body.allLambdas) (fun _ => []) before
        (compilePlan (prepareWithin depth) scope slot plan before) := by
      refine .afterLinks ((ComposedTo.lambdaHome scope slot plan.host).links before linked) sound ?_
      intro found between chosen linkedBetween soundBetween grows
      refine .register plan.lambda found.receiver ?_
      refine prepares.compileLambda library mentions.1 capturesKnown.1 ?_ linkedBetween
        soundBetween ?_
      · intro field member
        obtain ⟨-, ⟨-, _, -, rfl⟩ | ⟨-, rfl⟩ | ⟨-, rfl⟩⟩ := lambdaHome_cases chosen
        · exact selfKnown field (Option.mem_toList.mp member)
        all_goals contradiction
      · rw [grows.quiet.name]
        obtain ⟨-, ⟨-, _, named, rfl⟩ | ⟨-, rfl⟩ | ⟨-, rfl⟩⟩ := lambdaHome_cases chosen
        · exact .inr (scopeHome _ named)
        · exact home
        · exact .inl rfl
    refine .chain first fun between compiled linkedBetween soundBetween gains => ?_
    refine ih mentions.2 capturesKnown.2 linkedBetween soundBetween ?_
    rw [gains.className, gains.cls.name]
    exact home

/-- Once its class is added, what the scope defines is made up and no longer assumed. -/
theorem Result.Compiles.addScopeClass
    {first : Emit PUnit} {met : List Lambda}
    (library : Library.KnownTo known)
    (compiles : Result.Compiles (fun ref => scope.Defines ref ∨ before.Provides ref ∨ known ref)
      (scope.name.toList ++ homes) met every (fun _ => []) before (first before)) :
    Result.Compiles known homes met every (fun _ => []) before
      ((first >>= fun _ => addScopeClass scope) before) := by
  refine bind_of_result compiles (fun _ _ => id) fun _ between _ compiles => ?_
  obtain ⟨added, compiled, ⟨linked, sound, gains⟩, lookups, once, -⟩ := compiles
  cases made : scope.toClass? with
  | none =>
    have unnamed : scope.name = none := Option.map_eq_none_iff.mp made
    have settled : ∀ ref, scope.Defines ref ∨ before.Provides ref ∨ known ref →
        known ref ∨ between.Provides ref := by
      rintro ref (⟨cls, found, -⟩ | provided | found)
      · rw [made] at found
        contradiction
      · exact .inr (gains.provides provided)
      · exact .inl found
    have unchanged : Emit.addScopeClass scope between = .ok () between := by
      rw [Emit.addScopeClass, made]
      rfl
    rw [unchanged]
    refine ⟨added, compiled, ⟨linked.settle settled, sound.settle settled ?_, gains⟩, lookups, once,
      nofun⟩
    rw [unnamed]
    exact fun home member => .inl member
  | some cls =>
    obtain ⟨name, named, same⟩ := Option.map_eq_some_iff.mp made
    let text := "closure scope " ++ cls.name ++ " with " ++ toString cls.fields.length ++ " fields"
    let written := between.cls.write .debug text
    have quiet : between.cls.Quiet written := { ClassContext.Quiet.refl between.cls with }
    let pushed : ClassContext := { written with nested := written.nested.push cls }
    let after : Emission := { between with cls := pushed }
    have grown : between.Gains after [] :=
      ⟨quiet.gains.trans (.pushNested written cls), fun _ spilled => spilled, rfl, rfl⟩
    have gained := gains.trans grown
    rw [List.append_nil] at gained
    have settled : ∀ ref, scope.Defines ref ∨ before.Provides ref ∨ known ref →
        known ref ∨ after.Provides ref := by
      rintro ref (⟨other, found, defines⟩ | provided | found)
      · rw [made] at found
        cases found
        exact .inr (.inl (.nested (by simp [after, pushed]) defines))
      · exact .inr (gained.provides provided)
      · exact .inl found
    have constructs : ∀ method ∈ cls.methods, method = .defaultConstructor := by
      rw [← same]
      exact fun method member => List.mem_singleton.mp member
    have soundAfter : after.Sound (fun ref => scope.Defines ref ∨ before.Provides ref ∨ known ref)
        (scope.name.toList ++ homes) := by
      refine (ClassContext.Sound.quiet sound quiet).pushNested ?_ ?_
      · intro method member ref inside
        rw [constructs method member] at inside
        exact .inl (.inl (.inr (.inr (MethodDef.known_of_mem_defaultConstructor library inside))))
      · intro method member
        rw [constructs method member]
        exact List.mem_cons_self
    have ranScope : Emit.addScopeClass scope between = .ok () after := by
      rw [Emit.addScopeClass, made]
      rfl
    rw [ranScope]
    refine ⟨added, compiled, ⟨?_, soundAfter.settle settled ?_, gained⟩, lookups, once, nofun⟩
    · refine { linked with refers := fun ref member => ?_ }
      obtain found | provided := linked.refers ref member
      · exact settled ref found
      · exact .inr (grown.provides provided)
    · intro home member
      obtain own | member := List.mem_append.mp member
      · refine .inr (List.mem_map.mpr ⟨cls, by simp [after, pushed], ?_⟩)
        have found := Option.mem_toList.mp own
        rw [named] at found
        cases found
        rw [← same]
        rfl
      · exact .inl member

/-- Preparing a body compiles its lambdas, with the scope that they share. -/
theorem Prepares.prepareWith (prepares : Prepares (prepareWithin depth)) :
    Prepares (prepareWith (prepareWithin depth)) := by
  intro known homes body params before library mentions linked sound home
  refine .afterLinks (LinksTo.method before linked) sound ?_
  intro outside _ read _ _ _
  obtain ⟨rfl, rfl⟩ := method_ok.mp read
  refine .afterLinks (ComposedTo.links (.code (.planLambdas _ _ _)) before linked) sound ?_
  rintro ⟨plans, scope⟩ planned success linkedPlanned soundPlanned grows
  have lambdas := planLambdas_ok success
  obtain ⟨-, serves, -, fits⟩ := planLambdas_fits (ClosureScope.serves_start _ _) success
  have wellFormed := serves.wellFormed
  have every : (plans.flatMap fun plan => plan.lambda :: plan.lambda.body.allLambdas).Perm
      body.allLambdas := by
    have all := body.perm_allLambdas.symm
    rwa [← lambdas, List.flatMap_map] at all
  -- What the scope will define is known while its lambdas are compiled.
  let inside : Reference → Prop := fun ref => scope.Defines ref ∨ planned.Provides ref ∨ known ref
  have insideLibrary : Library.KnownTo inside :=
    fun ref member => .inr (.inr (library ref member))
  have insideLinked : planned.Linked inside planned.method.lambdas :=
    linkedPlanned.mono fun ref found => .inr (.inr found)
  have insideSound : planned.Sound inside (scope.name.toList ++ homes) := by
    refine soundPlanned.settle (fun ref found => .inl (.inr (.inr found))) ?_
    exact fun home member => .inl (List.mem_append_right _ member)
  have compiled : Result.Compiles inside (scope.name.toList ++ homes) body.lambdas
      body.allLambdas (fun _ => []) planned ((do
        let slot ← makeScope? scope params
        plans.forM (compilePlan (prepareWithin depth) scope slot)) planned) := by
    have scopeLinks : Links inside planned.method.lambdas (makeScope? scope params) :=
      .makeScope? wellFormed (fun ref defines => .inl defines) params
    refine .afterLinks (scopeLinks planned insideLinked) insideSound ?_
    intro slot between _ linkedBetween soundBetween growsBetween
    rw [← lambdas]
    refine Result.Compiles.ofPerm ?_ every
    refine prepares.compilePlans slot insideLibrary ?_ ?_ ?_ ?_ linkedBetween soundBetween ?_
    · intro plan member visit visited ref mentioned
      have listed : plan.lambda ∈ body.lambdas := lambdas ▸ List.mem_map_of_mem member
      have inner : plan.lambda.body.visits true ⊆ plan.lambda.visits true := by
        obtain ⟨id, params, ret, lambdaBody, interface⟩ := plan.lambda
        exact List.subset_append_right _ _
      have visitedOutside := Stmt.visits_subset_of_mem_lambdas listed (inner visited)
      exact .inr (.inr (mentions visit visitedOutside ref mentioned))
    · intro plan member ref captured
      obtain defines | outer := (fits plan member).reaches wellFormed ref captured
      · exact .inl defines
      · obtain found | provided := linked.refers ref outer
        · exact .inr (.inr found)
        · exact .inr (.inl (grows.provides provided))
    · exact fun field member => .inl (wellFormed.selfField field member)
    · exact fun name named => List.mem_append_left _ (Option.mem_toList.mpr named)
    · rw [growsBetween.className, growsBetween.quiet.name, grows.className, grows.quiet.name]
      exact home.imp_right (List.mem_append_right _)
  have result := Result.Compiles.addScopeClass library compiled
  rw [bind_assoc] at result
  exact result

/-- Lambdas are compiled at any depth. -/
theorem prepares_prepareWithin (depth : Nat) : Prepares (prepareWithin depth) := by
  induction depth with
  | zero =>
    intro known homes body params before library mentions linked sound home
    unfold prepareWithin
    split
    · next none =>
      have empty : body.lambdas = [] := List.isEmpty_iff.mp none
      have every : body.allLambdas.Perm [] := by
        have all := body.perm_allLambdas
        rwa [empty] at all
      refine ⟨[], [], ⟨linked, sound, (Emission.Grows.refl before).gains⟩, ?_, every.symm,
        List.forall_mem_nil _⟩
      rw [empty]
      exact List.forall_mem_nil _
    · exact rfl
  | succ depth ih => exact ih.prepareWith

end

end Emit
end StackCode
