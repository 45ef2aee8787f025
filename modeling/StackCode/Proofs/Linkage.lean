import StackCode.Generate
import StackCode.Proofs.BridgeCollection
import StackCode.Proofs.IteratorLinkage

/-!
# Generated classes link

The methods of a class are lowered one after the other, and the methods of
lambdas go to their classes in the end.  Whatever a finished method refers to was
mentioned by the program, belongs to the class library or is a member of one of
the generated classes.
-/

namespace StackCode

variable {known : Reference → Prop}
variable {after : ClassContext}

/-! ## Declared methods -/

/-- The lambdas of a method, those inside other lambdas included. -/
def MethodDecl.lambdas (method : MethodDecl) : List Lambda :=
  method.body.toList.flatMap Stmt.allLambdas

/-- What the body of a method mentions is known. -/
def MethodDecl.MentionsKnown (known : Reference → Prop) (method : MethodDecl) : Prop :=
  ∀ body ∈ method.body, body.MentionsKnown known

section

open Generation

variable {before : ClassContext}

open Emit in
/-- An ordinary body refers to nothing unknown. -/
theorem plainBody_compiles
    {cls : ClassContext} {body : Stmt} (method : MethodDecl) (debugInfo : Bool)
    (library : Library.KnownTo known)
    (mentions : body.MentionsKnown known)
    (sound : cls.Sound known []) :
    let start : Emission :=
      { method := .start cls.name method.name method.isStatic method.ret debugInfo, cls }
    Emit.Result.Compiles known [] body.lambdas body.allLambdas MethodBody.references start
      (plainBody method body start) := by
  intro start
  have startLinked : start.Linked known start.method.lambdas := ⟨nofun, rfl, nofun⟩
  have startSound : start.Sound known [] :=
    sound.settle (fun _ found => .inl (.inl found)) nofun
  have entering : Links known start.method.lambdas (declareParams method.params) :=
    ComposedTo.links (.seq .reserveSelf (.declareLocals _))
  have split : plainBody method body = (do
      declareParams method.params
      prepareLambdas body method.params
      lowerBody body
      finish) := by
    simp only [plainBody, declareParams, bind_assoc]
  rw [split]
  exact Prepares.afterEntry (prepares_prepareWithin _) _ library mentions startLinked startSound
    (.inl rfl) entering fun _ reads => .seq (.lowerBody library reads) .finish

/-- The body of any method refers to nothing unknown. -/
theorem generateBody_compiles
    {method : MethodDecl}
    (library : Library.KnownTo known)
    (mentions : method.MentionsKnown known)
    (sound : before.Sound known []) :
    Generation.Result.Compiles known method.lambdas
      (fun body => body.toList.flatMap MethodBody.references) before
      (generateBody method before) := by
  unfold generateBody MethodDecl.lambdas
  cases hasBody : method.body with
  | none =>
    exact ⟨[], sound, (ClassContext.Quiet.refl before).gains, .nil, nofun⟩
  | some body =>
    have bodyMentions := mentions body hasBody
    simp only [Option.toList_some, List.flatMap_singleton]
    cases method.element with
    | some element =>
      refine .thenPure (IteratorClass.compile_compiles method element library bodyMentions sound) ?_
      intro result
      simp
    | none =>
      refine .afterKeeps .get sound fun cls _ read sound _ => ?_
      obtain ⟨rfl, rfl⟩ := get_ok.mp read
      refine .afterKeeps (.log _ _) sound fun _ logged written sound quiet => ?_
      rw [← quiet.name]
      have compiles :=
        plainBody_compiles method before.config.varDebugInfo library bodyMentions sound
      refine .thenPure (.ofMethod rfl compiles) ?_
      intro result
      simp

/-- The method stands for a declared one. -/
structure MethodDef.StandsFor (method : MethodDef) (decl : MethodDecl) : Prop where
  name : method.name = decl.name
  flags : method.flags = decl.flags
  params : method.params = decl.erasedParams
  ret : method.ret = decl.ret.erasure

theorem generateMethod_standsFor
    {decl : MethodDecl} {method : MethodDef}
    (success : generateMethod decl before = .ok method after) :
    method.StandsFor decl := by
  obtain ⟨_, _, -, made⟩ := bind_ok.mp success
  obtain ⟨rfl, -⟩ := pure_ok.mp made
  exact ⟨rfl, rfl, rfl, rfl⟩

theorem generateMethod_compiles
    {method : MethodDecl}
    (library : Library.KnownTo known)
    (mentions : method.MentionsKnown known)
    (sound : before.Sound known []) :
    Generation.Result.Compiles known method.lambdas MethodDef.references before
      (generateMethod method before) :=
  .thenPure (generateBody_compiles library mentions sound) fun _ => List.Subset.refl _

/-- The methods of a class are generated one after the other. -/
theorem generateMethods_compiles
    {methods : List MethodDecl}
    (library : Library.KnownTo known)
    (mentions : ∀ method ∈ methods, method.MentionsKnown known)
    (sound : before.Sound known []) :
    Generation.Result.Compiles known (methods.flatMap MethodDecl.lambdas)
      (fun made => made.flatMap MethodDef.references) before
      (methods.mapM generateMethod before) := by
  induction methods generalizing before with
  | nil => exact ⟨[], sound, (ClassContext.Quiet.refl before).gains, .nil, nofun⟩
  | cons method methods ih =>
    rw [List.mapM_cons, List.flatMap_cons]
    have first := generateMethod_compiles library (mentions method List.mem_cons_self) sound
    refine .chain first fun made between _ soundBetween _ refers => ?_
    rw [← List.append_nil (methods.flatMap _)]
    have rest := ih
      (fun other member => mentions other (List.mem_cons_of_mem _ member)) soundBetween
    refine .chain rest fun others after _ soundAfter gains othersRefer => ?_
    refine ⟨[], soundAfter, (ClassContext.Quiet.refl after).gains, .nil, ?_⟩
    intro ref member
    simp only [List.flatMap_cons] at member
    obtain member | member := List.mem_append.mp member
    · exact (refers ref member).imp_right gains.provides
    · exact othersRefer ref member

/-- Each method stands for its declaration. -/
theorem generateMethods_standFor
    {decls : List MethodDecl} {methods : List MethodDef}
    (success : decls.mapM generateMethod before = .ok methods after) :
    List.Forall₂ MethodDef.StandsFor methods decls := by
  induction decls generalizing before after methods with
  | nil =>
    obtain ⟨rfl, -⟩ := pure_ok.mp success
    exact .nil
  | cons decl decls ih =>
    rw [List.mapM_cons] at success
    obtain ⟨method, _, made, rest⟩ := bind_ok.mp success
    obtain ⟨others, _, madeOthers, made'⟩ := bind_ok.mp rest
    obtain ⟨rfl, -⟩ := pure_ok.mp made'
    exact .cons (generateMethod_standsFor made) (ih madeOthers)

end

/-! ## Bridges -/

/-- The instance method that a declared one becomes. -/
def MethodDecl.reference (method : MethodDecl) (owner : String) : MethodRef :=
  { owner
    name := method.name
    params := method.erasedParams.map Ty.ofErased
    ret := .ofErased method.ret.erasure
    invoke := .virtual }

/-- Each modifier has a bit of its own. -/
theorem Modifier.static_flag (modifier : Modifier) :
    modifier.flag &&& AccessFlags.static =
      if modifier = .static then AccessFlags.static else 0 := by
  cases modifier <;> decide

/-- Only one modifier makes a method static. -/
theorem AccessFlags.foldl_static (modifiers : List Modifier) (flags : AccessFlags)
    (unset : flags &&& AccessFlags.static = 0) (absent : Modifier.static ∉ modifiers) :
    modifiers.foldl (fun flags modifier => flags ||| modifier.flag) flags &&&
      AccessFlags.static = 0 := by
  induction modifiers generalizing flags with
  | nil => exact unset
  | cons modifier modifiers ih =>
    rw [List.mem_cons, not_or] at absent
    obtain ⟨different, absent⟩ := absent
    refine ih _ ?_ absent
    rw [AccessFlags.or_and, unset, Modifier.static_flag, if_neg (Ne.symm different)]
    decide

/-- A method that is not declared static has no such bit. -/
theorem MethodDecl.flags_static {method : MethodDecl} (isInstance : method.isStatic = false) :
    method.flags &&& AccessFlags.static = 0 := by
  have absent : Modifier.static ∉ method.modifiers := by
    simpa [MethodDecl.isStatic] using isInstance
  have unset := AccessFlags.foldl_static method.modifiers 0 (by decide) absent
  unfold MethodDecl.flags AccessFlags.ofModifiers
  dsimp only
  split
  · rw [AccessFlags.or_and, unset]
    decide
  · exact unset

/-- A method answers references to its declaration. -/
theorem MethodDef.StandsFor.answers {method : MethodDef} {decl : MethodDecl}
    (standsFor : method.StandsFor decl) (isInstance : decl.isStatic = false) (owner : String) :
    method.Answers (decl.reference owner) where
  name := standsFor.name
  descriptor := by
    simp [MethodDef.descriptor, MethodRef.descriptor, MethodDecl.reference, standsFor.params,
      standsFor.ret, Function.comp_def]
  isStatic := by
    simp [MethodDef.isStatic, standsFor.flags, MethodDecl.flags_static isInstance,
      MethodDecl.reference]

/-- A bridge calls the method that it is for, and nothing else. -/
theorem buildBridge_references
    {owner : String} {method : MethodDecl} {signature : ErasedSignature} {bridge : MethodDef}
    (success : buildBridge owner method signature = .ok bridge) :
    ∀ ref ∈ bridge.references, ref = .method (method.reference owner) := by
  obtain ⟨arguments, forwarded, made⟩ := except_bind_ok.mp success
  cases made
  intro ref member
  simp only [MethodDef.references, Option.toList_some, MethodBody.references,
    MethodBody.straight, List.flatMap_append, List.flatMap_cons, List.flatMap_nil,
    Instruction.references, List.append_nil, List.nil_append, List.mem_append,
    List.mem_singleton] at member
  obtain inside | rfl := member
  · obtain ⟨instruction, listed, inside⟩ := List.mem_flatMap.mp inside
    obtain ⟨code, member, listed⟩ := List.mem_flatten.mp listed
    obtain ⟨_, -, done⟩ := exists_of_mem_right (except_mapM_ok forwarded) member
    have silent : ∀ instruction ∈ code, instruction.references = [] := by
      obtain ⟨-, rfl⟩ := forwardArgument_ok_iff.mp done
      split_ifs <;> simp [Instruction.references]
    rw [silent instruction listed] at inside
    contradiction
  · rfl

/-- A bridge to an instance method of the class. -/
def MethodDef.Forwards (decl : ClassDecl) (bridge : MethodDef) : Prop :=
  ∃ method ∈ decl.methods, method.isStatic = false ∧ bridge.name = method.name ∧
    ∀ ref ∈ bridge.references, ref = .method (method.reference decl.name)

/-- The bridges of a class call its methods. -/
theorem Bridging.Collected.forward
    {decl : ClassDecl} {state : Bridging}
    (collected : Collected decl.name decl.signatures decl.overridings state) :
    ∀ bridge ∈ state.bridges, bridge.Forwards decl := by
  intro bridge member
  obtain ⟨overriding, listed, -, built⟩ := collected.built member
  obtain ⟨declared, isInstance, -⟩ := ClassDecl.mem_overridings.mp listed
  have named : bridge.erasedSignature.name = overriding.method.name := by
    rw [buildBridge_signature built]
    rfl
  exact ⟨overriding.method, declared, isInstance, named, buildBridge_references built⟩

/-! ## Bundles -/

/-- The methods of a class, each with the name of the class. -/
def ClassDef.entries (cls : ClassDef) : List (String × MethodDef) :=
  cls.methods.map fun method => (cls.name, method)

/-- The methods of all classes of a bundle, each with the name of its class. -/
def ClassBundle.entries (bundle : ClassBundle) : List (String × MethodDef) :=
  bundle.classes.flatMap ClassDef.entries

/-- A method goes to one class of its owner's name. -/
def ClassDef.Adds (owner : String) (method : MethodDef) (before after : List ClassDef) : Prop :=
  ∃ front cls back, before = front ++ cls :: back ∧ cls.name = owner ∧
    after = front ++ { cls with methods := cls.methods ++ [method] } :: back

namespace ClassDef.Adds

variable {owner : String} {method : MethodDef} {before after : List ClassDef} {ref : Reference}

theorem names (adds : Adds owner method before after) :
    after.map ClassDef.name = before.map ClassDef.name := by
  obtain ⟨front, cls, back, rfl, -, rfl⟩ := adds
  simp

theorem entries (adds : Adds owner method before after) :
    (after.flatMap ClassDef.entries).Perm
      (before.flatMap ClassDef.entries ++ [(owner, method)]) := by
  obtain ⟨front, cls, back, rfl, rfl, rfl⟩ := adds
  simp only [ClassDef.entries, List.flatMap_append, List.flatMap_cons, List.map_append,
    List.map_cons, List.map_nil, List.append_assoc, List.singleton_append]
  refine .append_left _ (.append_left _ ?_)
  exact (List.perm_append_singleton _ _).symm

/-- What was defined stays so when a method is added. -/
theorem defines (adds : Adds owner method before after)
    (defined : ∃ cls ∈ before, cls.Defines ref) :
    ∃ cls ∈ after, cls.Defines ref := by
  obtain ⟨front, cls, back, rfl, -, rfl⟩ := adds
  obtain ⟨other, member, defines⟩ := defined
  obtain member | member := List.mem_append.mp member
  · exact ⟨other, List.mem_append_left _ member, defines⟩
  obtain rfl | member := List.mem_cons.mp member
  · refine ⟨_, List.mem_append_right _ List.mem_cons_self, ?_⟩
    exact defines.mono rfl (List.Subset.refl _) (List.subset_append_left _ _)
  · exact ⟨other, List.mem_append_right _ (List.mem_cons_of_mem _ member), defines⟩

end ClassDef.Adds

/-- A method can be added to a class that is there. -/
theorem ClassDef.addTo_adds
    {owner : String} {classes : List ClassDef} (method : MethodDef)
    (home : owner ∈ classes.map ClassDef.name) :
    ∃ next, ClassDef.addTo owner method classes = some next ∧
      ClassDef.Adds owner method classes next := by
  induction classes with
  | nil => contradiction
  | cons cls classes ih =>
    rw [ClassDef.addTo]
    split
    · next found => exact ⟨_, rfl, [], cls, classes, rfl, found, rfl⟩
    · next missed =>
      have home : owner ∈ classes.map ClassDef.name := by
        obtain rfl | home := List.mem_cons.mp home
        · exact (missed rfl).elim
        · exact home
      obtain ⟨_, added, front, other, back, rfl, named, rfl⟩ := ih home
      exact ⟨_, by rw [added]; rfl, cls :: front, other, back, rfl, named, rfl⟩

namespace ClassBundle

variable {bundle : ClassBundle} {owner : String} {ref : MethodRef} {method : MethodDef}

/-- A method whose class is there can be added. -/
theorem add_adds (method : MethodDef) (home : owner ∈ bundle.classes.map ClassDef.name) :
    ∃ next, bundle.add owner method = .ok next ∧
      ClassDef.Adds owner method bundle.classes next.classes := by
  unfold add
  split
  · next own => exact ⟨_, rfl, [], bundle.main, bundle.nested, rfl, own.symm, rfl⟩
  · next other =>
    have home : owner ∈ bundle.nested.map ClassDef.name := by
      obtain rfl | home := List.mem_cons.mp home
      · exact (other rfl).elim
      · exact home
    obtain ⟨nested, added, front, cls, back, same, named, rfl⟩ := ClassDef.addTo_adds method home
    rw [added]
    refine ⟨_, rfl, bundle.main :: front, cls, back, ?_, named, rfl⟩
    rw [classes, same, List.cons_append]

/-- Methods whose classes are there can be added, and nothing else changes. -/
theorem addAll_ok
    {entries : List (String × MethodDef)}
    (homes : ∀ entry ∈ entries, entry.1 ∈ bundle.classes.map ClassDef.name) :
    ∃ final, entries.foldlM (fun bundle entry => bundle.add entry.1 entry.2) bundle = .ok final ∧
      final.entries.Perm (bundle.entries ++ entries) ∧
      ∀ ref, bundle.Defines ref → final.Defines ref := by
  induction entries generalizing bundle with
  | nil => exact ⟨bundle, rfl, by simp, fun _ defines => defines⟩
  | cons entry entries ih =>
    obtain ⟨next, added, adds⟩ := add_adds entry.2 (homes entry List.mem_cons_self)
    have homesNext : ∀ entry ∈ entries, entry.1 ∈ next.classes.map ClassDef.name := by
      intro other member
      rw [adds.names]
      exact homes other (List.mem_cons_of_mem _ member)
    obtain ⟨final, addedAll, perm, defines⟩ := ih homesNext
    refine ⟨final, ?_, ?_, fun ref defined => defines ref (adds.defines defined)⟩
    · rw [List.foldlM_cons, added]
      exact addedAll
    · have added := adds.entries.append_right entries
      rw [List.append_assoc, List.singleton_append] at added
      exact perm.trans added

theorem Defines.of_mem_entries (member : (ref.owner, method) ∈ bundle.entries)
    (answers : method.Answers ref) : bundle.Defines (.method ref) := by
  obtain ⟨cls, listed, inside⟩ := List.mem_flatMap.mp member
  obtain ⟨found, among, same⟩ := List.mem_map.mp inside
  obtain ⟨owner, rfl⟩ := Prod.mk.inj same
  exact ⟨cls, listed, owner, found, among, answers⟩

/-- The generated methods, those of lambdas left out: declared ones, bridges and machinery. -/
def IsPlain (decl : ClassDecl) (entry : String × MethodDef) : Prop :=
  entry.1 = decl.name ∧ entry.2.name ∈ decl.methods.map MethodDecl.name ∨
    entry.2.name ∈ ClassDef.machinery

/-- The methods refer to what is known or to members of the bundle. -/
def Closed (known : Reference → Prop) (bundle : ClassBundle) : Prop :=
  ∀ entry ∈ bundle.entries, ∀ ref ∈ entry.2.references, known ref ∨ bundle.Defines ref

/-- Beside the methods of the lambdas there are only plain ones. -/
def Holds (decl : ClassDecl) (compiled : List CompiledLambda) (bundle : ClassBundle) : Prop :=
  ∃ others, bundle.entries.Perm (others ++ compiled.map CompiledLambda.entry) ∧
    ∀ entry ∈ others, IsPlain decl entry

end ClassBundle

/-! ## Putting a class together -/

section

variable {decl : ClassDecl} {methods bridges : List MethodDef} {cls : ClassContext}
  {compiled : List CompiledLambda}

/-- Everything that was made up is in the assembled classes. -/
theorem assemble_links
    (sound : cls.Sound known [])
    (name : cls.name = decl.name)
    (synthetic : cls.methods.toList = compiled.map CompiledLambda.entry)
    (standFor : List.Forall₂ MethodDef.StandsFor methods decl.methods)
    (refers : ∀ ref ∈ methods.flatMap MethodDef.references, known ref ∨ cls.Provides ref)
    (forward : ∀ bridge ∈ bridges, bridge.Forwards decl) :
    ∃ bundle, assemble decl methods bridges cls = .ok bundle cls ∧ bundle.Closed known ∧
      bundle.Holds decl compiled := by
  let main : ClassDef :=
    { name := decl.name
      superName := decl.superName
      interfaces := decl.interfaces
      flags := AccessFlags.ofModifiers decl.modifiers ||| AccessFlags.super
      fields := cls.fields.toList
      methods := methods ++ bridges }
  let start : ClassBundle := { main, nested := cls.nested.toList }
  have homes : ∀ entry ∈ cls.methods.toList, entry.1 ∈ start.classes.map ClassDef.name := by
    intro entry member
    obtain own | home | nested := sound.homed entry member
    · exact List.mem_cons.mpr (.inl (own.trans name))
    · contradiction
    · exact List.mem_cons_of_mem _ nested
  obtain ⟨bundle, added, perm, defines⟩ := ClassBundle.addAll_ok homes
  have assembled : assemble decl methods bridges cls = .ok bundle cls := by
    rw [assemble, Generation.get_bind_eq, added]
    rfl
  have provided : ∀ ref, cls.Provides ref → bundle.Defines ref := by
    intro ref provides
    cases provides with
    | field owner member answers =>
      exact defines _ ⟨main, List.mem_cons_self, (owner.trans name).symm, _, member, answers⟩
    | method member answers =>
      exact .of_mem_entries (perm.mem_iff.mpr (List.mem_append_right _ member)) answers
    | nested member defined => exact defines _ ⟨_, List.mem_cons_of_mem _ member, defined⟩
  have declared : ∀ method ∈ decl.methods, method.isStatic = false →
      bundle.Defines (.method (method.reference decl.name)) := by
    intro method member isInstance
    obtain ⟨found, listed, standsFor⟩ := exists_of_mem_right standFor member
    exact defines _ ⟨main, List.mem_cons_self, rfl, found, List.mem_append_left _ listed,
      standsFor.answers isInstance decl.name⟩
  have origins : ∀ entry ∈ start.entries,
      entry.1 = decl.name ∧ (entry.2 ∈ methods ∨ entry.2 ∈ bridges) ∨
        ∃ other ∈ cls.nested.toList, entry.2 ∈ other.methods := by
    intro entry member
    obtain ⟨other, listed, inside⟩ := List.mem_flatMap.mp member
    obtain ⟨method, among, rfl⟩ := List.mem_map.mp inside
    obtain rfl | nested := List.mem_cons.mp listed
    · exact .inl ⟨rfl, List.mem_append.mp among⟩
    · exact .inr ⟨other, nested, among⟩
  refine ⟨bundle, assembled, ?_, start.entries, synthetic ▸ perm, ?_⟩
  · intro entry member ref inside
    have finishes : entry.2 ∈ cls.finished → known ref ∨ bundle.Defines ref :=
      fun finished => (sound.refers entry.2 finished ref inside).imp_right (provided ref)
    obtain member | member := List.mem_append.mp (perm.mem_iff.mp member)
    · obtain ⟨-, method | bridge⟩ | ⟨other, nested, among⟩ := origins entry member
      · exact (refers ref (List.mem_flatMap.mpr ⟨_, method, inside⟩)).imp_right (provided ref)
      · obtain ⟨target, listed, isInstance, -, forwards⟩ := forward entry.2 bridge
        obtain rfl := forwards ref inside
        exact .inr (declared target listed isInstance)
      · exact finishes (List.mem_append_right _ (List.mem_flatMap.mpr ⟨other, nested, among⟩))
    · exact finishes (List.mem_append_left _ (List.mem_map_of_mem member))
  · intro entry member
    obtain ⟨owner, method | bridge⟩ | ⟨other, nested, among⟩ := origins entry member
    · obtain ⟨target, listed, standsFor⟩ := exists_of_mem_right standFor.flip method
      exact .inl ⟨owner, List.mem_map.mpr ⟨target, listed, standsFor.name.symm⟩⟩
    · obtain ⟨target, listed, -, named, -⟩ := forward entry.2 bridge
      exact .inl ⟨owner, List.mem_map.mpr ⟨target, listed, named.symm⟩⟩
    · exact .inr (sound.named other nested entry.2 among)

end

theorem keeps_generateBridges (decl : ClassDecl) : Generation.Keeps (generateBridges decl) := by
  intro before
  unfold generateBridges
  cases ran : decl.collectBridges with
  | ok _ state => exact { ClassContext.Quiet.refl before with }
  | error error state => exact (Bridging.collectBridges_error ran).1

/-- Every bridge forwards to a method of the class. -/
theorem generateBridges_forward
    {decl : ClassDecl} {bridges : List MethodDef} {before : ClassContext}
    (success : generateBridges decl before = .ok bridges after) :
    ∀ bridge ∈ bridges, bridge.Forwards decl := by
  have collected := Bridging.collectBridges_collects decl
  unfold generateBridges at success
  cases ran : decl.collectBridges with
  | ok _ state =>
    rw [ran] at collected success
    cases success
    exact collected.forward
  | error error state =>
    rw [ran] at success
    contradiction

theorem keeps_logListings (bundle : ClassBundle) : Generation.Keeps (logListings bundle) :=
  .forM fun _ => .forM fun _ => .log _ _

/-- What the program mentions or the class library has. -/
def ClassDecl.Given (decl : ClassDecl) (ref : Reference) : Prop :=
  ref ∈ decl.mentions ∨ ref ∈ Library.members

/-- The result of generating a class: a closed bundle in which every lambda has one method. -/
inductive Generation.Result.Bundles (decl : ClassDecl) :
    EStateM.Result Error ClassContext ClassBundle → Prop
  | ok {bundle : ClassBundle} {after : ClassContext} (compiled : List CompiledLambda)
      (once : (compiled.map CompiledLambda.lambda).Perm decl.lambdas)
      (closed : bundle.Closed decl.Given)
      (holds : bundle.Holds decl compiled) :
      Bundles decl (.ok bundle after)
  | error {error : Error} {after : ClassContext} (proper : error.breaksLink = false) :
      Bundles decl (.error error after)

/-- A class is generated with all that it refers to. -/
theorem generate_bundles (decl : ClassDecl) (config : Config) :
    Generation.Result.Bundles decl (generate decl { name := decl.name, config }) := by
  have mentions : ∀ method ∈ decl.methods, method.MentionsKnown decl.Given := by
    intro method member body hasBody visit listed ref mentioned
    refine .inl (List.mem_flatMap.mpr ⟨method, member, List.mem_flatMap.mpr ⟨body, ?_, ?_⟩⟩)
    · exact Option.mem_toList.mpr hasBody
    · exact List.mem_flatMap.mpr ⟨visit, listed, mentioned⟩
  let start : ClassContext := { name := decl.name, config }
  have sound : start.Sound decl.Given [] := ⟨nofun, nofun, nofun⟩
  refine bind_cases (fun _ _ failed => nomatch failed) fun _ logged wrote => ?_
  have quiet : start.Quiet logged := by
    cases wrote
    exact { ClassContext.Quiet.refl start with }
  have kept := keeps_generateBridges decl logged
  refine bind_of_result kept (fun _ _ => .error) fun bridges between collected kept => ?_
  have soundBetween := (sound.quiet quiet).quiet kept
  have compiles := generateMethods_compiles (fun _ => .inr) mentions soundBetween
  refine bind_of_result compiles (fun _ _ => .error) fun methods cls made compiles => ?_
  obtain ⟨compiled, soundCls, gains, once, refers⟩ := compiles
  have gained := (quiet.gains.trans kept.gains).trans gains
  obtain ⟨bundle, assembled, closed, holds⟩ := assemble_links soundCls gained.name gained.methods
    (generateMethods_standFor made) refers (generateBridges_forward collected)
  have done : ∀ after, Generation.Result.Bundles decl (.ok bundle after) :=
    fun after => .ok compiled once closed holds
  refine bind_cases (fun _ _ failed => ?_) fun bundle' cls' made => ?_
  · rw [assembled] at failed
    contradiction
  rw [assembled] at made
  cases made
  refine bind_cases (fun _ _ failed => nomatch failed) ?_
  rintro _ _ ⟨⟩
  split
  · have kept := keeps_logListings bundle cls
    exact bind_of_result kept (fun _ _ => .error) fun _ after _ _ => done after
  · exact done cls

/--
Whatever the methods of the generated classes refer to is mentioned by the program,
belongs to the class library or is a member of one of the generated classes, with the
same name, the same descriptor and as static or not.  Every lambda is compiled into
exactly one of the methods, and generation never stops for want of a lambda or of a class
for a method.
-/
theorem ClassDecl.generate_links (decl : ClassDecl) (config : Config) :
    match (decl.generate config).result with
    | .ok bundle =>
      (∀ cls ∈ bundle.classes, ∀ method ∈ cls.methods, ∀ ref ∈ method.references,
        ref ∈ decl.mentions ∨ ref ∈ Library.members ∨ bundle.Defines ref) ∧
      ∃ (compiled : List CompiledLambda) (others : List (String × MethodDef)),
        (compiled.map CompiledLambda.lambda).Perm decl.lambdas ∧
        bundle.entries.Perm (others ++ compiled.map CompiledLambda.entry) ∧
        ∀ entry ∈ others,
          entry.1 = decl.name ∧ entry.2.name ∈ decl.methods.map MethodDecl.name ∨
            entry.2.name ∈ ClassDef.machinery
    | .error error => error.breaksLink = false := by
  have bundles := generate_bundles decl config
  unfold ClassDecl.generate
  generalize StackCode.generate decl { name := decl.name, config } = result at bundles
  cases bundles with
  | error proper => exact proper
  | @ok bundle _ compiled once closed holds =>
    obtain ⟨others, perm, plain⟩ := holds
    refine ⟨?_, compiled, others, once, perm, plain⟩
    intro cls listed method among ref inside
    have member : (cls.name, method) ∈ bundle.entries :=
      List.mem_flatMap.mpr ⟨cls, listed, List.mem_map_of_mem among⟩
    exact or_assoc.mp (closed _ member ref inside)

end StackCode
