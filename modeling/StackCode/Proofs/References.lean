import StackCode.Proofs.LambdaVisits
import StackCode.Proofs.Steps

/-!
# References

What instructions refer to by name, what a tree mentions itself, and what
generated classes define.
-/

namespace StackCode

/-- Something that code refers to by its name. -/
inductive Reference where
  /-- A class of which an object is made. -/
  | object (className : String)
  /-- A field that is read or written. -/
  | field (field : FieldRef)
  /-- A method that is called. -/
  | method (method : MethodRef)

/-- What an instruction refers to. -/
def Instruction.references : Instruction → List Reference
  | .invoke method => [.method method]
  | .getField field => [.field field]
  | .putField field => [.field field]
  | .new className => [.object className]
  | .closure target interface => [.method target, .method interface]
  | _ => []

/-! ## What a tree mentions -/

/-- The methods that a conversion calls. -/
def Conversion.mentions : Conversion → List Reference
  | .box method => [.method method]
  | .unbox method => [.method method]
  | .cast _ => []

/-- What an expression itself mentions, its operands left out. -/
def Expr.mentions (expr : Expr) : List Reference :=
  expr.info.conversion.toList.flatMap Conversion.mentions ++
    match expr with
    | .call _ _ method _ => [.method method]
    | .field _ _ ref => [.field ref]
    | .new _ constructor _ => [.object constructor.owner, .method constructor]
    | .lambda _ function => [.method function.interface]
    | _ => []

/-- What a statement itself mentions, its expressions and the statements inside it left out. -/
def Stmt.mentions : Stmt → List Reference
  | .forEach _ _ _ (.iterator iterator hasNext next dispose) _ =>
    [.method iterator, .method hasNext, .method next] ++ dispose.toList.map Reference.method
  | .switch _ _ (.enumeration ordinal) _ => [.method ordinal]
  | .acquire _ resources _ => resources.map fun resource => .method resource.dispose
  | _ => []

/-- What is mentioned at one step of reading a tree. -/
def Visit.mentions : Visit → List Reference
  | .enter stmt => stmt.mentions
  | .expr tree => tree.mentions
  | _ => []

/-- What the bodies of a class mention, lambdas included. -/
def ClassDecl.mentions (decl : ClassDecl) : List Reference :=
  decl.methods.flatMap fun method =>
    method.body.toList.flatMap fun body => (body.visits true).flatMap Visit.mentions

/-- The lambdas of a class, those inside other lambdas included. -/
def ClassDecl.lambdas (decl : ClassDecl) : List Lambda :=
  decl.methods.flatMap fun method => method.body.toList.flatMap Stmt.allLambdas

/-- The types of primitive values. -/
def Primitive.all : List Primitive :=
  [.boolean, .byte, .short, .char, .int, .long, .float, .double, .void]

/-- The members of the class library that generated code relies on. -/
def Library.members : List Reference :=
  [.method (constructor objectName),
    .object hashMap, .method (constructor hashMap), .method hashMapGet, .method hashMapPut,
    .object noSuchElement, .method (constructor noSuchElement),
    .method stringEquals, .method integerValue] ++
    (Primitive.all.filterMap box?).map Reference.method

/-- The methods that wrap primitive values belong to the class library. -/
theorem Library.mem_members_of_box {primitive : Primitive} {method : MethodRef}
    (found : box? primitive = some method) : .method method ∈ members := by
  have listed : primitive ∈ Primitive.all := by cases primitive <;> decide
  refine List.mem_append_right _ (List.mem_map_of_mem ?_)
  exact List.mem_filterMap.mpr ⟨primitive, listed, found⟩

/-! ## What classes define -/

/-- The field belongs to its class and not to the instances. -/
def FieldDef.isStatic (field : FieldDef) : Bool := field.flags &&& AccessFlags.static != 0

/-- The method has no receiver. -/
def MethodDef.isStatic (method : MethodDef) : Bool := method.flags &&& AccessFlags.static != 0

/-- The field is what a reference names within its class. -/
structure FieldDef.Answers (field : FieldDef) (ref : FieldRef) : Prop where
  name : field.name = ref.name
  descriptor : field.type.descriptor = ref.type.descriptor
  isStatic : field.isStatic = ref.isStatic

/-- The method is what a reference names within its class. -/
structure MethodDef.Answers (method : MethodDef) (ref : MethodRef) : Prop where
  name : method.name = ref.name
  descriptor : method.descriptor = ref.descriptor
  isStatic : method.isStatic = true ↔ ref.invoke = .static

/-- The class has what a reference names. -/
def ClassDef.Defines (cls : ClassDef) : Reference → Prop
  | .object className => cls.name = className
  | .field ref => cls.name = ref.owner ∧ ∃ field ∈ cls.fields, field.Answers ref
  | .method ref => cls.name = ref.owner ∧ ∃ method ∈ cls.methods, method.Answers ref

/-- A class with more members has what one with fewer has. -/
theorem ClassDef.Defines.mono {cls more : ClassDef} {ref : Reference} (defines : cls.Defines ref)
    (name : more.name = cls.name) (fields : cls.fields ⊆ more.fields)
    (methods : cls.methods ⊆ more.methods) : more.Defines ref := by
  cases ref with
  | object className => exact name.trans defines
  | field ref =>
    obtain ⟨owner, field, member, answers⟩ := defines
    exact ⟨name.trans owner, field, fields member, answers⟩
  | method ref =>
    obtain ⟨owner, method, member, answers⟩ := defines
    exact ⟨name.trans owner, method, methods member, answers⟩

/-- The classes of a bundle. -/
def ClassBundle.classes (bundle : ClassBundle) : List ClassDef := bundle.main :: bundle.nested

/-- Some class of the bundle has what a reference names. -/
def ClassBundle.Defines (bundle : ClassBundle) (ref : Reference) : Prop :=
  ∃ cls ∈ bundle.classes, cls.Defines ref

/-- An instance field answers to its own reference. -/
theorem FieldDef.answers_ofErased {field : FieldDef} (owner : String)
    (isInstance : field.isStatic = false) :
    field.Answers (.ofErased owner field.name field.type) where
  name := rfl
  descriptor := by simp [FieldRef.ofErased, Ty.descriptor]
  isStatic := isInstance

/-- The constructor of a synthetic class answers to its reference. -/
theorem MethodDef.answers_constructor (owner : String) :
    MethodDef.defaultConstructor.Answers (Library.constructor owner) where
  name := rfl
  descriptor := by
    simp [MethodDef.descriptor, MethodDef.defaultConstructor, MethodRef.descriptor,
      Library.constructor, Ty.void, Ty.erasure]
  isStatic := by
    have isInstance : MethodDef.defaultConstructor.isStatic = false := by decide
    simp [isInstance, Library.constructor]

/-! ## What is there while classes are generated -/

/-- What a reference names has been made up so far. -/
inductive ClassContext.Provides (cls : ClassContext) : Reference → Prop where
  /-- A field of the class itself. -/
  | field {ref : FieldRef} {field : FieldDef}
      (owner : ref.owner = cls.name)
      (member : field ∈ cls.fields.toList)
      (answers : field.Answers ref) :
      Provides cls (.field ref)
  /-- A method that goes to its class in the end. -/
  | method {ref : MethodRef} {method : MethodDef}
      (member : (ref.owner, method) ∈ cls.methods.toList)
      (answers : method.Answers ref) :
      Provides cls (.method ref)
  /-- A member of a synthetic class. -/
  | nested {ref : Reference} {other : ClassDef}
      (member : other ∈ cls.nested.toList)
      (defines : other.Defines ref) :
      Provides cls ref

/-- What a reference names is a field that keeps a temporary of the method at hand. -/
def MethodContext.Spills (method : MethodContext) (ref : Reference) : Prop :=
  ∃ suspension spill, method.suspension = some suspension ∧ spill ∈ suspension.spills ∧
    spill.isStatic = false ∧ ref = .field (.ofErased suspension.className spill.name spill.type)

/-- What a reference names has been made up so far. -/
def Emission.Provides (state : Emission) (ref : Reference) : Prop :=
  state.cls.Provides ref ∨ state.method.Spills ref

/-! ## What is known of a method -/

/-- What an access to a local refers to. -/
def LocalAccess.references : LocalAccess → List Reference
  | .slot _ _ => []
  | .captured _ path => path.map Reference.field

/-- The visits of what leaving a frame lowers. -/
def Frame.visits (frame : Frame) : List Visit :=
  match frame.kind with
  | .finalized finalizer _ => finalizer.visits false
  | _ => []

/-- What leaving a frame refers to. -/
def Frame.references (frame : Frame) : List Reference :=
  match frame.kind with
  | .resource _ dispose _ => [.method dispose]
  | .iterator _ dispose _ => [.method dispose]
  | _ => frame.visits.flatMap Visit.mentions

/-- What suspending and resuming a method refers to. -/
def Suspension.references (suspension : Suspension) : List Reference :=
  [.field suspension.state, .field suspension.current] ++
    suspension.promoted.map (fun entry => .field entry.2) ++
    suspension.live.map fun saved => .field saved.field

/-- What the code of a method refers to so far, and what it may refer to later on. -/
def MethodContext.references (method : MethodContext) : List Reference :=
  method.code.instructions.toList.flatMap Instruction.references ++
    method.locals.flatMap (fun entry => entry.2.references) ++
    method.selfPath.map Reference.field ++
    method.lambdas.map (fun entry => .method entry.2.method) ++
    method.frames.flatMap Frame.references ++
    method.suspension.toList.flatMap Suspension.references

/-- What the code that makes the state object of an iterator refers to. -/
def IteratorClass.Layout.references (layout : Layout) : List Reference :=
  [.object layout.className, .method (Library.constructor layout.className)] ++
    layout.outerField.toList.map Reference.field ++
    layout.localFields.map fun entry => .field entry.2

namespace MethodContext

/-- What leaving the frames of a method refers to is known. -/
theorem mem_references_of_frame {method : MethodContext} {frame : Frame}
    (member : frame ∈ method.frames) : ∀ ref ∈ frame.references, ref ∈ method.references := by
  intro ref inside
  have listed : ref ∈ method.frames.flatMap Frame.references :=
    List.mem_flatMap.mpr ⟨frame, member, inside⟩
  simp only [MethodContext.references, List.mem_append]
  tauto

/-- What the accesses to locals refer to is known. -/
theorem mem_references_of_access
    {method : MethodContext} {id : LocalId} {access : LocalAccess}
    (found : method.locals.lookup id = some access) :
    ∀ ref ∈ access.references, ref ∈ method.references := by
  intro ref member
  have listed : ref ∈ method.locals.flatMap fun entry => entry.2.references :=
    List.mem_flatMap.mpr ⟨(id, access), mem_of_lookup found, member⟩
  simp only [MethodContext.references, List.mem_append]
  tauto

/-- What suspending and resuming a method refers to is known. -/
theorem mem_references_of_suspension {method : MethodContext} {suspension : Suspension}
    (suspended : method.suspension = some suspension) :
    ∀ ref ∈ suspension.references, ref ∈ method.references := by
  intro ref member
  simp only [MethodContext.references, suspended, List.mem_append, Option.toList_some,
    List.flatMap_singleton]
  exact .inr member

theorem mem_references_of_live {method : MethodContext} {saved : SavedSlot}
    (member : saved ∈ (method.suspension.map Suspension.live).getD []) :
    Reference.field saved.field ∈ method.references := by
  cases suspended : method.suspension with
  | none => simp [suspended] at member
  | some suspension =>
    rw [suspended] at member
    refine mem_references_of_suspension suspended _ (List.mem_append_right _ ?_)
    exact List.mem_map.mpr ⟨saved, member, rfl⟩

/-- The lambdas of the method and of the finally bodies around the current point have methods. -/
structure Resolves (targets : List (LambdaId × LambdaTarget)) (method : MethodContext) : Prop where
  lambdas : method.lambdas = targets
  frames : ∀ frame ∈ method.frames, ∀ lambda, .lambda lambda ∈ frame.visits →
    (targets.lookup lambda.id).isSome

end MethodContext

/-! ## What parts of a tree need -/

/-- The failures that tell of a lambda without a method or of a method without a class. -/
def Error.breaksLink : Error → Bool
  | .internal (.uncompiledLambda _) => true
  | .internal (.homelessMethod _ _) => true
  | _ => false

/-- What the steps of a lowering rest on. -/
structure Basis where
  /-- For want of which cases they may fail. -/
  misses : CaseKey → Span → Prop
  /-- The methods of lambdas, where they are known. -/
  targets : Option (List (LambdaId × LambdaTarget))
  /-- What they may refer to. -/
  known : Reference → Prop

/-- The members of the library are known. -/
abbrev Library.KnownTo (known : Reference → Prop) : Prop := ∀ ref ∈ members, known ref

/-- Everything is known that a body and the lambdas in it mention. -/
abbrev Stmt.MentionsKnown (known : Reference → Prop) (body : Stmt) : Prop :=
  ∀ visit ∈ body.visits true, ∀ ref ∈ visit.mentions, known ref

namespace Basis

/-- It does not matter what a step refers to. -/
abbrev free (misses : CaseKey → Span → Prop) : Basis := ⟨misses, none, fun _ => True⟩

/-- It does not matter for want of which cases a step fails. -/
abbrev linked (known : Reference → Prop) (targets : List (LambdaId × LambdaTarget)) : Basis :=
  ⟨fun _ _ => True, some targets, known⟩

/-- Neither matters. -/
abbrev any : Basis := .free fun _ _ => True

/-- More is known. -/
abbrev knowing (basis : Basis) (refs : List Reference) : Basis :=
  { basis with known := fun ref => ref ∈ refs ∨ basis.known ref }

end Basis

/-- What the visits mention is known, and their lambdas have methods. -/
structure Reads (basis : Basis) (visits : List Visit) : Prop where
  mentions : ∀ visit ∈ visits, ∀ ref ∈ visit.mentions, basis.known ref
  compiled : ∀ lambda, .lambda lambda ∈ visits →
    ∀ found ∈ basis.targets, (found.lookup lambda.id).isSome

namespace Reads

variable {basis : Basis} {visits : List Visit}

/-- Where everything is known, everything may be read. -/
theorem all {misses : CaseKey → Span → Prop} : Reads (.free misses) visits :=
  ⟨fun _ _ _ _ => trivial, fun _ _ => nofun⟩

theorem mono {more : Reference → Prop} (reads : Reads basis visits)
    (weaker : ∀ ref, basis.known ref → more ref) : Reads { basis with known := more } visits :=
  ⟨fun visit member ref mentioned => weaker ref (reads.mentions visit member ref mentioned),
    reads.compiled⟩

/-- What visits read, each part of them reads. -/
@[simp] theorem append_iff {first second : List Visit} :
    Reads basis (first ++ second) ↔ Reads basis first ∧ Reads basis second := by
  constructor
  · intro reads
    refine ⟨⟨?_, ?_⟩, ⟨?_, ?_⟩⟩
    · exact fun visit member => reads.mentions visit (List.mem_append_left _ member)
    · exact fun lambda member => reads.compiled lambda (List.mem_append_left _ member)
    · exact fun visit member => reads.mentions visit (List.mem_append_right _ member)
    · exact fun lambda member => reads.compiled lambda (List.mem_append_right _ member)
  · rintro ⟨left, right⟩
    refine ⟨?_, ?_⟩
    · intro visit member
      obtain member | member := List.mem_append.mp member
      · exact left.mentions visit member
      · exact right.mentions visit member
    · intro lambda member
      obtain member | member := List.mem_append.mp member
      · exact left.compiled lambda member
      · exact right.compiled lambda member

/-- A visit reads what it mentions. -/
theorem cons_iff {visit : Visit} :
    Reads basis (visit :: visits) ↔
      (∀ ref ∈ visit.mentions, basis.known ref) ∧
      (∀ lambda, visit = .lambda lambda →
        ∀ found ∈ basis.targets, (found.lookup lambda.id).isSome) ∧
      Reads basis visits := by
  constructor
  · intro reads
    refine ⟨reads.mentions visit List.mem_cons_self, ?_, ?_, ?_⟩
    · rintro lambda rfl
      exact reads.compiled lambda List.mem_cons_self
    · exact fun other member => reads.mentions other (List.mem_cons_of_mem _ member)
    · exact fun lambda member => reads.compiled lambda (List.mem_cons_of_mem _ member)
  · rintro ⟨mentions, compiled, rest⟩
    refine ⟨?_, ?_⟩
    · intro other member
      obtain rfl | member := List.mem_cons.mp member
      · exact mentions
      · exact rest.mentions other member
    · intro lambda member
      obtain same | member := List.mem_cons.mp member
      · exact compiled lambda same.symm
      · exact rest.compiled lambda member

@[simp] theorem enter_iff {stmt : Stmt} :
    Reads basis (.enter stmt :: visits) ↔
      (∀ ref ∈ stmt.mentions, basis.known ref) ∧ Reads basis visits := by
  simp [cons_iff, Visit.mentions]

@[simp] theorem expr_iff {expr : Expr} :
    Reads basis (.expr expr :: visits) ↔
      (∀ ref ∈ expr.mentions, basis.known ref) ∧ Reads basis visits := by
  simp [cons_iff, Visit.mentions]

@[simp] theorem lambda_iff {function : Lambda} :
    Reads basis (.lambda function :: visits) ↔
      (∀ found ∈ basis.targets, (found.lookup function.id).isSome) ∧ Reads basis visits := by
  simp [cons_iff, Visit.mentions]

@[simp] theorem declare_iff {decl : LocalDecl} :
    Reads basis (.declare decl :: visits) ↔ Reads basis visits := by
  simp [cons_iff, Visit.mentions]

end Reads

end StackCode
