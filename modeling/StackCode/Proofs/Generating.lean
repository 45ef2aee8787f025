import StackCode.Proofs.Steps

/-!
# Successful steps outside of methods

When a step of the generation of a class succeeds, and in which state of the
class it leaves the generation.
-/

namespace StackCode
namespace Generation

variable {before after : ClassContext}
variable {result : α}

theorem get_ok {result : ClassContext} :
    (get : Generation ClassContext) before = .ok result after ↔
      before = result ∧ before = after := pure_ok

theorem get_bind_eq
    {next : ClassContext → Generation α} {result : EStateM.Result Error ClassContext α} :
    (get >>= next) before = result ↔ next before before = result := Iff.rfl

theorem modify_ok {change : ClassContext → ClassContext} {result : PUnit} :
    (modify change : Generation PUnit) before = .ok result after ↔ change before = after := by
  constructor
  · intro success
    cases success
    rfl
  · rintro rfl
    rfl

theorem modifyGet_ok {take : ClassContext → α × ClassContext} :
    (modifyGet take : Generation α) before = .ok result after ↔
      (take before).1 = result ∧ (take before).2 = after := by
  constructor
  · intro success
    cases success
    exact ⟨rfl, rfl⟩
  · rintro ⟨rfl, rfl⟩
    rfl

/-- A method is generated in a state of its own. -/
theorem onMethod_ok {context : MethodContext} {step : Emit α} :
    Emit.onMethod context step before = .ok result after ↔
      ∃ state, step { method := context, cls := before } = .ok result state ∧
        state.cls = after := by
  unfold Emit.onMethod
  constructor
  · intro success
    split at success
    · next value state stepped =>
      cases success
      exact ⟨state, stepped, rfl⟩
    · contradiction
  · rintro ⟨state, stepped, rfl⟩
    rw [stepped]

end Generation

/-- A declaration that is found is a declaration of the local. -/
theorem LocalDecl.lookup?_eq_some
    {id : LocalId} {decls : List LocalDecl} {decl : LocalDecl}
    (found : LocalDecl.lookup? decls id = some decl) :
    decl ∈ decls ∧ decl.id = id :=
  ⟨List.mem_reverse.mp (List.mem_of_find?_eq_some found), by simpa using List.find?_some found⟩

namespace IteratorClass

/-- Giving locals their fields leaves the rest of a layout as it is. -/
theorem foldl_addLocal (found : List LocalDecl) (layout : Layout) :
    ∃ fields localFields, found.foldl addLocal layout = { layout with fields, localFields } ∧
      localFields.map Prod.fst = layout.localFields.map Prod.fst ++ found.map LocalDecl.id := by
  induction found generalizing layout with
  | nil => exact ⟨_, _, rfl, (List.append_nil _).symm⟩
  | cons decl found ih =>
    obtain ⟨fields, localFields, same, listed⟩ := ih (addLocal layout decl)
    exact ⟨fields, localFields, same, by simp [listed, addLocal]⟩

/-- Each local gets its field by its declaration. -/
theorem addLocals_ok
    {decls : List LocalDecl} {span : Span} {layout result : Layout} {ids : List LocalId}
    {before after : ClassContext}
    (success : addLocals decls span layout ids before = .ok result after) :
    before = after ∧ ∃ found fields localFields, found.map LocalDecl.id = ids ∧ found ⊆ decls ∧
      found.foldl addLocal layout = result ∧ result = { layout with fields, localFields } ∧
        localFields.map Prod.fst = layout.localFields.map Prod.fst ++ ids := by
  have steps : before = after ∧ ∃ found, found.map LocalDecl.id = ids ∧ found ⊆ decls ∧
      found.foldl addLocal layout = result := by
    induction ids generalizing layout with
    | nil =>
      obtain ⟨rfl, rfl⟩ := pure_ok.mp success
      exact ⟨rfl, [], rfl, List.nil_subset _, rfl⟩
    | cons id ids ih =>
      rw [addLocals, List.foldlM_cons] at success
      obtain ⟨_, _, first, rest⟩ := bind_ok.mp success
      cases looked : LocalDecl.lookup? decls id with
      | none =>
        rw [looked] at first
        exact (throw_ok.mp first).elim
      | some decl =>
        rw [looked] at first
        obtain ⟨rfl, rfl⟩ := pure_ok.mp first
        obtain ⟨declared, rfl⟩ := LocalDecl.lookup?_eq_some looked
        obtain ⟨rfl, found, rfl, others, rfl⟩ := ih rest
        exact ⟨rfl, decl :: found, rfl, List.cons_subset.mpr ⟨declared, others⟩, rfl⟩
  obtain ⟨same, found, rfl, declared, rfl⟩ := steps
  obtain ⟨fields, localFields, shape, listed⟩ := foldl_addLocal found layout
  exact ⟨same, found, fields, localFields, rfl, declared, rfl, shape, listed⟩

/-! ## The methods by which elements are drawn -/

/-- The finished body of `hasNext`. -/
def hasNextBody (className : String) : MethodBody :=
  { instructions :=
      #[.load .reference 0, .getField (hasNextField className), .jump .ifne ⟨0⟩,
        .load .reference 0, .load .reference 0, .invoke (moveNext className), .jump .ifeq ⟨1⟩,
        .plain .iconst1, .jump .goto ⟨2⟩, .push (.int (-1)), .putField (hasNextField className),
        .load .reference 0, .getField (hasNextField className), .jump .ifle ⟨3⟩,
        .plain .iconst1, .plain .ireturn, .plain .iconst0, .plain .ireturn]
    exceptions := []
    localVars := []
    maxLocals := 1
    labels := #[11, 9, 10, 16] }

/-- The finished body of `next`. -/
def nextBody (className : String) (element : Ty) : MethodBody :=
  { instructions :=
      #[.load .reference 0, .invoke (hasNext className), .jump .ifne ⟨0⟩,
        .new Library.noSuchElement, .plain .dup,
        .invoke (Library.constructor Library.noSuchElement), .plain .athrow,
        .load .reference 0, .plain .iconst0, .putField (hasNextField className),
        .load .reference 0, .getField (currentField className element),
        .plain (.ofReturn element.erasure.kind)]
    exceptions := []
    localVars := []
    maxLocals := 1
    labels := #[7] }

/-- A public method of an iterator class. -/
def publicDef (name : String) (ret : Erased) (body : MethodBody) : MethodDef :=
  { name, flags := AccessFlags.publicAccess, ret, body := some body }

/-- The methods that tell whether there is an element and that take one. -/
def drawingMethods (className : String) (element : Ty) : List MethodDef :=
  [publicDef hasNextName (.prim .boolean) (hasNextBody className),
    publicDef nextName element.erasure (nextBody className element)]

section Public

open Emit

variable {className name : String} {ret : Erased} {cls : ClassContext}
variable {instructions : Array Instruction} {marks : Array (Option Nat)}

/-- The state of a public method with the given instructions and labels. -/
def publicState (className name : String) (ret : Erased) (cls : ClassContext)
    (instructions : Array Instruction) (marks : Array (Option Nat)) : Emission :=
  let descriptor := (Ty.ofClass className).descriptor
  let outermost := [{ name := some "this", descriptor, slot := 0, width := 1, start := 0 }]
  let code := { instructions, marks, outermost, nextSlot := 1, maxLocals := 1, debugInfo := false }
  { method := { MethodContext.start className name false (.ofErased ret) false with code }, cls }

variable {after : Emission} {rest : Emit Unit}

/-- Going on after an instruction. -/
theorem emit_then {instruction : Instruction}
    (runs : rest (publicState className name ret cls (instructions.push instruction) marks) =
      .ok () after) :
    (do emit instruction; rest) (publicState className name ret cls instructions marks) =
      .ok () after :=
  seq_ok.mpr ⟨_, emit_ok.mpr rfl, runs⟩

/-- Going on with the next label. -/
theorem newLabel_then {rest : Label → Emit Unit}
    (runs : rest ⟨marks.size⟩ (publicState className name ret cls instructions (marks.push none)) =
      .ok () after) :
    (newLabel >>= rest) (publicState className name ret cls instructions marks) = .ok () after :=
  bind_ok.mpr ⟨_, _, newLabel_ok.mpr ⟨rfl, rfl⟩, runs⟩

/-- Going on after a free label is bound. -/
theorem mark_then {label : Label} (free : marks[label.index]? = some none)
    (runs : rest (publicState className name ret cls instructions
      (marks.setIfInBounds label.index (some instructions.size))) = .ok () after) :
    (do mark label; rest) (publicState className name ret cls instructions marks) =
      .ok () after :=
  seq_ok.mpr ⟨_, mark_ok.mpr ⟨free, rfl⟩, runs⟩

/-- A public method has the code that its steps emit. -/
theorem publicMethod_eq {code : Emit Unit} {body : MethodBody} (marks : Array (Option Nat))
    (emits : code (publicState className name ret cls #[] #[]) =
      .ok () (publicState className name ret cls body.instructions marks))
    (finishes : (publicState className name ret cls body.instructions marks).code.finish =
      .ok body) :
    publicMethod className name ret code cls = .ok (publicDef name ret body) cls :=
  bind_ok.mpr ⟨body, cls, Generation.onMethod_ok.mpr ⟨_, seq_ok.mpr ⟨_, rfl,
    seq_ok.mpr ⟨_, emits, finish_ok.mpr ⟨finishes, rfl⟩⟩⟩, rfl⟩, rfl⟩

attribute [local simp] Code.finish Code.closeScopes Code.endLocals Code.endLocal?
  Instruction.targets publicState Emission.code

theorem hasNextMethod_eq (className : String) (cls : ClassContext) :
    hasNextMethod className cls =
      .ok (publicDef hasNextName (.prim .boolean) (hasNextBody className)) cls := by
  refine publicMethod_eq #[some 11, some 9, some 10, some 16] ?_ ?_
  · iterate 4 refine newLabel_then ?_
    iterate 9 refine emit_then ?_
    iterate 2 refine mark_then rfl (emit_then ?_)
    refine mark_then rfl ?_
    iterate 5 refine emit_then ?_
    exact mark_then rfl (emit_then (emit_ok.mpr (by simp [hasNextBody]; rfl)))
  · simp [hasNextBody]
    rfl

theorem nextMethod_eq (className : String) (element : Ty) (cls : ClassContext) :
    nextMethod className element cls =
      .ok (publicDef nextName element.erasure (nextBody className element)) cls := by
  refine publicMethod_eq #[some 7] ?_ ?_
  · refine newLabel_then ?_
    iterate 3 refine emit_then ?_
    -- The exception is made by several instructions in one step.
    refine seq_ok.mpr ⟨_, rfl, emit_then ?_⟩
    refine mark_then rfl ?_
    iterate 5 refine emit_then ?_
    rfl
  · simp [nextBody]
    rfl

end Public

/-- Only the bridge depends on more than the class and the type of the elements. -/
theorem protocolMethods_eq (className : String) (element : Ty) :
    protocolMethods className element = (do
      let bridge ← nextBridge? className element
      return drawingMethods className element ++ bridge.toList ++ [iteratorMethod]) := by
  funext cls
  simp only [protocolMethods, Bind.bind, EStateM.bind, hasNextMethod_eq, nextMethod_eq]
  rfl

end IteratorClass

/-- Another method is generated while the one at hand waits. -/
theorem Emit.aside_ok
    {step : Generation α} {before after : Emission} {result : α} :
    Emit.aside step before = .ok result after ↔
      ∃ cls, step before.cls = .ok result cls ∧ { before with cls } = after := by
  unfold Emit.aside
  constructor
  · intro success
    split at success
    · next value cls stepped =>
      cases success
      exact ⟨cls, stepped, rfl⟩
    · contradiction
  · rintro ⟨cls, stepped, rfl⟩
    rw [stepped]

theorem Emit.aside_error {step : Generation α} {before after : Emission} {error : Error}
    (failure : Emit.aside step before = .error error after) :
    ∃ cls, step before.cls = .error error cls := by
  unfold Emit.aside at failure
  split at failure
  · contradiction
  · next cls stopped =>
    cases failure
    exact ⟨cls, stopped⟩

theorem Emit.onMethod_error
    {context : MethodContext} {step : Emit α} {before after : ClassContext} {error : Error}
    (failure : Emit.onMethod context step before = .error error after) :
    ∃ state, step { method := context, cls := before } = .error error state := by
  unfold Emit.onMethod at failure
  split at failure
  · contradiction
  · next state stopped =>
    cases failure
    exact ⟨state, stopped⟩

end StackCode
