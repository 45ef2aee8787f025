import Mathlib.Data.List.Forall2
import StackCode.Member

/-!
# Descriptors can be read back

The descriptor of an erased type tells where it ends: a letter, the name of a class up
to the mark behind it, or an array sign before the descriptor of the elements.  So a
text begins with at most one descriptor, and the descriptor of a method determines the
erased types of its parameters, their number and the erased type of its result.
-/

namespace StackCode

namespace Ty

variable {type : Ty}

/-- No type variable and no type argument occurs in the type. -/
def IsErased : Ty → Prop
  | prim _ => True
  | named _ args => args = []
  | var _ _ => False
  | array element => element.IsErased

/-- The types without type variables and type arguments are those that erasure leaves alone. -/
theorem isErased_iff : (type : Ty) → (type.IsErased ↔ ofErased type.erasure = type)
  | prim _ => by simp [IsErased, erasure, ofErased]
  | named _ _ => by simp [IsErased, erasure, ofErased, ofClass, eq_comm]
  | var _ none => by simp [IsErased, erasure, ofErased, Erased.object, ofClass]
  | var name (some bound) => by
    have other : ofErased bound.erasure ≠ var name (some bound) := by
      cases bound.erasure <;> simp [ofErased, ofClass]
    simpa [IsErased, erasure] using other
  | array element => by simpa [IsErased, erasure, ofErased] using isErased_iff element

/-- The descriptor that a type has by its own shape; a type variable has none. -/
def shapeDescriptor? : Ty → Option String
  | prim primitive => some primitive.letter.toString
  | named name _ => some ("L" ++ name ++ ";")
  | var _ _ => none
  | array element => element.shapeDescriptor?.map fun text => "[" ++ text

/-- An erased type has a descriptor by its own shape. -/
theorem shapeDescriptor?_ofErased (type : Erased) :
    (ofErased type).shapeDescriptor? = some type.descriptor := by
  induction type with
  | prim primitive => rfl
  | named name => rfl
  | array element ih =>
    simp [ofErased, shapeDescriptor?, Erased.descriptor, ih]

end Ty

/-! ## One descriptor at the beginning of a text -/

theorem Primitive.letter_injective {first second : Primitive}
    (same : first.letter = second.letter) :
    first = second := by
  cases first <;> cases second <;> first | rfl | simp [letter] at same

/-- No primitive type has the letter of classes, the array sign or the end of parameters. -/
theorem Primitive.letter_apart (primitive : Primitive) :
    primitive.letter ≠ 'L' ∧ primitive.letter ≠ '[' ∧ primitive.letter ≠ ')' := by
  cases primitive <;> decide

namespace Erased

/-- The name of the class does not contain the mark that ends it in a descriptor. -/
def Legible : Erased → Prop
  | prim _ => True
  | named name => ';' ∉ name.toList
  | array element => element.Legible

@[simp] theorem toList_descriptor_prim (primitive : Primitive) :
    (prim primitive).descriptor.toList = [primitive.letter] := by
  simp [descriptor]

@[simp] theorem toList_descriptor_named (name : String) :
    (named name).descriptor.toList = 'L' :: name.toList ++ [';'] := by
  simp [descriptor]

@[simp] theorem toList_descriptor_array (element : Erased) :
    element.array.descriptor.toList = '[' :: element.descriptor.toList := by
  simp [descriptor]

/-- Texts that begin with descriptors are equal only if the descriptors and what follows are. -/
theorem descriptor_append_inj
    {first second : Erased} {rest other : List Char}
    (firstLegible : first.Legible)
    (secondLegible : second.Legible)
    (same : first.descriptor.toList ++ rest = second.descriptor.toList ++ other) :
    first = second ∧ rest = other := by
  induction first generalizing second with
  | prim primitive =>
    obtain ⟨notClass, notArray, -⟩ := primitive.letter_apart
    cases second with
    | prim primitive =>
      obtain ⟨letter, rest⟩ := List.cons.inj (by simpa using same)
      exact ⟨congrArg prim (Primitive.letter_injective letter), rest⟩
    | named name => simp [notClass] at same
    | array element => simp [notArray] at same
  | named name =>
    cases second with
    | prim primitive => simp [primitive.letter_apart.1.symm] at same
    | named otherName =>
      simp only [toList_descriptor_named, List.cons_append, List.append_assoc, List.nil_append,
        List.cons.injEq, true_and] at same
      -- The names end where the mark stands for the first time.
      have length := congrArg (List.idxOf ';') same
      rw [List.idxOf_append_of_notMem firstLegible, List.idxOf_append_of_notMem secondLegible,
        List.idxOf_cons_self, List.idxOf_cons_self] at length
      obtain ⟨sameName, sameRest⟩ := List.append_inj same length
      exact ⟨congrArg named (String.toList_inj.mp sameName), (List.cons.inj sameRest).2⟩
    | array element => simp at same
  | array element ih =>
    cases second with
    | prim primitive => simp [primitive.letter_apart.2.1.symm] at same
    | named name => simp at same
    | array otherElement =>
      simp only [toList_descriptor_array, List.cons_append, List.cons.injEq, true_and] at same
      have legible : otherElement.Legible := secondLegible
      obtain ⟨rfl, sameRest⟩ := ih firstLegible legible same
      exact ⟨rfl, sameRest⟩

/-- No descriptor begins with the sign that ends the parameters of a method. -/
theorem descriptor_append_ne (type : Erased) (rest other : List Char) :
    type.descriptor.toList ++ rest ≠ ')' :: other := by
  cases type with
  | prim primitive => simp [primitive.letter_apart.2.2]
  | named name => simp
  | array element => simp

end Erased

/-! ## Methods -/

theorem toList_methodDescriptor (params : List Erased) (ret : Erased) :
    (methodDescriptor params ret).toList =
      '(' :: ((params.flatMap fun type => type.descriptor.toList) ++
        ')' :: ret.descriptor.toList) := by
  simp [methodDescriptor, String.toList_join, List.flatMap_map]

/-- Parameters can be told apart in front of the sign that ends them. -/
theorem flatMap_descriptor_inj
    {first second : List Erased}
    {rest other : List Char}
    (firstLegible : ∀ type ∈ first, type.Legible)
    (secondLegible : ∀ type ∈ second, type.Legible)
    (same : (first.flatMap fun type => type.descriptor.toList) ++ ')' :: rest =
      (second.flatMap fun type => type.descriptor.toList) ++ ')' :: other) :
    first = second ∧ rest = other := by
  induction first generalizing second with
  | nil =>
    cases second with
    | nil => exact ⟨rfl, (List.cons.inj same).2⟩
    | cons type types =>
      rw [List.flatMap_cons, List.append_assoc] at same
      exact absurd same.symm (type.descriptor_append_ne _ _)
  | cons type types ih =>
    rw [List.forall_mem_cons] at firstLegible
    rw [List.flatMap_cons, List.append_assoc] at same
    cases second with
    | nil => exact absurd same (type.descriptor_append_ne _ _)
    | cons otherType otherTypes =>
      rw [List.forall_mem_cons] at secondLegible
      rw [List.flatMap_cons, List.append_assoc] at same
      obtain ⟨rfl, further⟩ :=
        Erased.descriptor_append_inj firstLegible.1 secondLegible.1 same
      obtain ⟨rfl, rest⟩ := ih firstLegible.2 secondLegible.2 further
      exact ⟨rfl, rest⟩

/-- The descriptor of a method determines its erased types. -/
theorem methodDescriptor_inj
    {first second : List Erased} {ret other : Erased}
    (firstLegible : ∀ type ∈ ret :: first, type.Legible)
    (secondLegible : ∀ type ∈ other :: second, type.Legible)
    (same : methodDescriptor first ret = methodDescriptor second other) :
    first = second ∧ ret = other := by
  rw [List.forall_mem_cons] at firstLegible secondLegible
  have texts := congrArg String.toList same
  rw [toList_methodDescriptor, toList_methodDescriptor] at texts
  obtain ⟨rfl, results⟩ :=
    flatMap_descriptor_inj firstLegible.2 secondLegible.2 (List.cons.inj texts).2
  have whole : ret.descriptor.toList ++ [] = other.descriptor.toList ++ [] := by rw [results]
  exact ⟨rfl, (Erased.descriptor_append_inj firstLegible.1 secondLegible.1 whole).1⟩

/--
Erasure leaves no type variable and no type argument and changes nothing the second
time, and the descriptor of a type is the one that its erasure has by its own shape.
Methods have the same descriptor exactly if their types are equal after erasure, one
by one, unless a class name contains the mark that ends it.
-/
theorem descriptors_determine_erasures :
    (∀ type : Ty,
      (Ty.ofErased type.erasure).erasure = type.erasure ∧
        (Ty.ofErased type.erasure).IsErased ∧
        (Ty.ofErased type.erasure).descriptor = type.descriptor ∧
        (Ty.ofErased type.erasure).shapeDescriptor? = some type.descriptor) ∧
      ∀ (params others : List Ty) (ret other : Ty),
        (∀ type ∈ ret :: other :: (params ++ others), type.erasure.Legible) →
          (methodDescriptor (params.map Ty.erasure) ret.erasure =
              methodDescriptor (others.map Ty.erasure) other.erasure ↔
            List.Forall₂ (fun param other => param.erasure = other.erasure) params others ∧
              ret.erasure = other.erasure) := by
  refine ⟨fun type => ⟨Ty.erasure_ofErased _, ?_, ?_, Ty.shapeDescriptor?_ofErased _⟩, ?_⟩
  · rw [Ty.isErased_iff, Ty.erasure_ofErased]
  · rw [Ty.descriptor, Ty.erasure_ofErased, Ty.descriptor]
  · intro params others ret other legible
    simp only [List.forall_mem_cons, List.forall_mem_append] at legible
    obtain ⟨retLegible, otherLegible, paramsLegible, othersLegible⟩ := legible
    have pairwise : params.map Ty.erasure = others.map Ty.erasure ↔
        List.Forall₂ (fun param other => param.erasure = other.erasure) params others := by
      rw [← List.forall₂_eq_eq_eq, List.forall₂_map_left_iff, List.forall₂_map_right_iff]
    rw [← pairwise]
    constructor
    · refine methodDescriptor_inj ?_ ?_
      · simpa using ⟨retLegible, paramsLegible⟩
      · simpa using ⟨otherLegible, othersLegible⟩
    · rintro ⟨sameParams, sameRet⟩
      rw [sameParams, sameRet]

/-- A variable with a bound and its bound have one descriptor. -/
theorem descriptors_determine_erasures_boundedList :
    (∀ type ∈ [Ty.void, .void, .var "T" (some (.named "java/util/List" [.string])),
        .named "java/util/List" [.var "T" none]], type.erasure.Legible) ∧
      methodDescriptor ([Ty.var "T" (some (.named "java/util/List" [.string]))].map Ty.erasure)
          Ty.void.erasure =
        methodDescriptor ([Ty.named "java/util/List" [.var "T" none]].map Ty.erasure)
          Ty.void.erasure := by
  have legible : ∀ type ∈ [Ty.void, .void, .var "T" (some (.named "java/util/List" [.string])),
      .named "java/util/List" [.var "T" none]], type.erasure.Legible := by
    simp [Ty.void, Ty.erasure, Erased.Legible]
  refine ⟨legible, (descriptors_determine_erasures.2 _ _ _ _ legible).mpr ⟨?_, rfl⟩⟩
  exact .cons rfl .nil

end StackCode
