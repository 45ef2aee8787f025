import StackCode.Proofs.Linkage

/-!
# The kinds of values in a bridge

A bridge loads its receiver and its arguments, casts the arguments whose types
differ, calls the method that it is for and returns what the call leaves.  Its
code is followed here by the kinds of the values that it meets.  Building a
bridge compares neither the results nor the arguments that are cast, so the code
fits together only if both are as the method has them.
-/

namespace StackCode

/-- The kinds of values in the slots of parameters; a wide value takes two slots. -/
def slotKinds (types : List Erased) : List (Option ValueKind) :=
  types.flatMap fun type => some type.kind :: List.replicate (type.kind.width - 1) none

/-- What a result of the kind leaves on the stack. -/
def ValueKind.left : ValueKind → List ValueKind
  | void => []
  | kind => [kind]

/-- The kinds on the stack, the topmost first, after an instruction that finds what it takes. -/
def Instruction.kinds? (slots : List (Option ValueKind)) (stack : List ValueKind) :
    Instruction → Option (List ValueKind)
  | load kind slot => if slots[slot]? = some (some kind) then some (kind :: stack) else none
  | checkCast _ => if stack.head? = some .reference then some stack else none
  | invoke method =>
    let taken := (method.params.map Ty.kind).reverse ++
      if method.invoke = .static then [] else [.reference]
    if taken <+: stack then some (method.ret.kind.left ++ stack.drop taken.length) else none
  | plain op => if op = .ofReturn (stack.headD .void) then some [] else none
  | _ => none

/-- The code of a method finds what it takes in the slots and on the stack. -/
def MethodDef.WellKinded (method : MethodDef) : Prop :=
  ∀ body ∈ method.body, body.instructions.toList.foldlM
    (Instruction.kinds? (some .reference :: slotKinds method.params)) [] = some []

theorem Erased.kind_eq_reference_iff (type : Erased) :
    type.kind = .reference ↔ type.isReference = true := by
  cases type with
  | prim primitive => cases primitive <;> simp [kind, isReference, Primitive.kind]
  | named name => simp [kind, isReference]
  | array element => simp [kind, isReference]

@[simp] theorem Ty.kind_ofErased (type : Erased) : (ofErased type).kind = type.kind := by
  cases type <;> rfl

/-- The arguments stand in the slots of their parameters, and are left with the kinds of the
types that they are cast to, unless a primitive value is cast. -/
theorem foldlM_arguments
    {owner name : String} {sources targets : List Erased} {before : List (Option ValueKind)}
    {arguments : List (List Instruction)} {result : List ValueKind} (stack : List ValueKind)
    (arity : sources.length = targets.length)
    (forwarded : ((sources.zip targets).zip (parameterSlots before.length sources).1).mapM
      (fun entry => forwardArgument owner name entry.1.1 entry.1.2 entry.2) = .ok arguments) :
    arguments.flatten.foldlM (Instruction.kinds? (before ++ slotKinds sources)) stack =
        some result ↔
      (∀ types ∈ sources.zip targets, types.1 ≠ types.2 → types.1.isReference = true) ∧
        (targets.map Erased.kind).reverse ++ stack = result := by
  induction sources generalizing targets before arguments stack with
  | nil =>
    obtain rfl := List.length_eq_zero_iff.mp arity.symm
    cases forwarded
    simp
  | cons source sources ih =>
    obtain ⟨target, targets, rfl⟩ := List.exists_cons_of_length_eq_add_one arity.symm
    simp only [parameterSlots, List.zip_cons_cons, List.mapM_cons] at forwarded
    obtain ⟨code, first, followed⟩ := except_bind_ok.mp forwarded
    obtain ⟨others, rest, made⟩ := except_bind_ok.mp followed
    cases made
    obtain ⟨castable, rfl⟩ := forwardArgument_ok_iff.mp first
    -- The slots from the next parameter on follow those of this one.
    let through := before ++ some source.kind :: List.replicate (source.kind.width - 1) none
    have slots : before ++ slotKinds (source :: sources) = through ++ slotKinds sources := by
      simp [slotKinds, through]
    have width : before.length + max source.kind.width 1 = through.length := by
      simp only [through, List.length_append, List.length_cons, List.length_replicate]
      omega
    have found : (through ++ slotKinds sources)[before.length]? = some (some source.kind) := by
      simp [through]
    rw [width] at rest
    have continued := fun stack => ih stack (Nat.succ.inj arity) rest
    rw [slots, List.flatten_cons, List.cons_append, List.foldlM_cons,
      Instruction.kinds?, if_pos found]
    change List.foldlM _ (source.kind :: stack) _ = _ ↔ _
    simp only [List.zip_cons_cons, List.forall_mem_cons]
    by_cases same : source = target
    · subst same
      simpa using continued (source.kind :: stack)
    · have cast : target.kind = .reference := target.kind_eq_reference_iff.mpr (castable same)
      rw [if_neg same, List.singleton_append, List.foldlM_cons, Instruction.kinds?]
      by_cases reference : source.isReference = true
      · have kept := source.kind_eq_reference_iff.mpr reference
        simpa [reference, kept, cast] using continued (source.kind :: stack)
      · have primitive := mt source.kind_eq_reference_iff.mp reference
        simp [same, reference, primitive]

theorem ofReturn_left_iff (kind result : ValueKind) :
    Opcode.ofReturn kind = .ofReturn (result.left.headD .void) ↔ kind = result := by
  cases kind <;> cases result <;> decide

/-- No primitive argument has to be cast, and both methods return values of one kind. -/
def Overriding.KeepsKinds (overriding : Overriding) : Prop :=
  (∀ types ∈ overriding.signature.params.zip overriding.method.erasedParams,
      types.1 ≠ types.2 → types.1.isReference = true) ∧
    overriding.signature.ret.kind = overriding.method.ret.erasure.kind

/-- A bridge is well kinded where conversions keep kinds. -/
theorem buildBridge_wellKinded_iff
    {owner : String} {overriding : Overriding} {bridge : MethodDef}
    (arity : overriding.SameArity)
    (success : buildBridge owner overriding.method overriding.signature = .ok bridge) :
    bridge.WellKinded ↔ overriding.KeepsKinds := by
  obtain ⟨arguments, forwarded, made⟩ := except_bind_ok.mp success
  cases made
  let slots := some .reference :: slotKinds overriding.signature.params
  let kinds := (overriding.method.erasedParams.map Erased.kind).reverse ++ [.reference]
  have same : overriding.signature.params.length = overriding.method.erasedParams.length := by
    simp only [Overriding.signature, MethodDecl.bridgeSignature, MethodDecl.erasedParams,
      List.length_map]
    exact arity
  have passed (result : List ValueKind) :=
    @foldlM_arguments _ _ _ _ [some .reference] _ result [.reference] same forwarded
  have called : (Instruction.invoke (overriding.method.reference owner)).kinds? slots kinds =
      some overriding.method.ret.erasure.kind.left := by
    simp [Instruction.kinds?, MethodDecl.reference, kinds, Function.comp_def]
  have returned : [Instruction.invoke (overriding.method.reference owner),
        .plain (.ofReturn overriding.signature.ret.kind)].foldlM (Instruction.kinds? slots) kinds =
        some [] ↔
      overriding.signature.ret.kind = overriding.method.ret.erasure.kind := by
    rw [List.foldlM_cons, called, ← ofReturn_left_iff]
    simp [Instruction.kinds?]
  simp only [MethodDef.WellKinded, Option.mem_def, Option.some.injEq, forall_eq',
    MethodBody.straight, List.cons_append, List.nil_append, List.foldlM_cons]
  change List.foldlM _ [ValueKind.reference] _ = _ ↔ _
  rw [List.foldlM_append]
  change Option.bind _ _ = _ ↔ _
  rw [Option.bind_eq_some_iff, Overriding.KeepsKinds, ← returned]
  constructor
  · rintro ⟨_, forwarded, done⟩
    obtain ⟨casts, rfl⟩ := (passed _).mp forwarded
    exact ⟨casts, done⟩
  · rintro ⟨casts, done⟩
    exact ⟨_, (passed _).mpr ⟨casts, rfl⟩, done⟩

/-- A bridge of a class is well kinded exactly if the methods that it joins agree in the kinds
of their results, and in those of the arguments that are cast. -/
theorem ClassDecl.bridges_wellKinded_iff
    {cls : ClassDecl} {bridges : List MethodDef} {bridge : MethodDef}
    (success : cls.bridges = .ok bridges)
    (member : bridge ∈ bridges) :
    ∃ overriding ∈ cls.overridings, bridge.erasedSignature = overriding.signature ∧
      (bridge.WellKinded ↔ overriding.KeepsKinds) := by
  obtain ⟨state, rfl, collected⟩ := collected_of_bridges success
  obtain ⟨overriding, among, -, built⟩ := collected.built member
  exact ⟨overriding, among, buildBridge_signature built,
    buildBridge_wellKinded_iff (collected.arity overriding among) built⟩

/-- A getter of integers gets a bridge that returns its result as a reference. -/
example : ¬Overriding.KeepsKinds
    { method := { name := "get", ret := .int }
      overridden := ⟨"Supplier", "get", [], .var "T" none⟩ } :=
  fun keeps => nomatch keeps.2

end StackCode
