import StackCode.Proofs.Continuation

/-!
# Advancing code

Labels are bound to the position that has been reached, never to an earlier one.
So a stretch of code that was emitted without binding a label inside it can only
be entered at its first instruction, whatever is emitted later.
-/

namespace StackCode
namespace Code

/-- The code has the given instructions from a position on. -/
def Holds (code : Code) (position : Nat) (segment : List Instruction) : Prop :=
  segment <+: code.instructions.toList.drop position

/-- No label is bound to a position or to the one before it. -/
def Sealed (code : Code) (position : Nat) : Prop :=
  ∀ label, code.position? label ≠ some position ∧ code.position? label ≠ some (position - 1)

@[simp] theorem toList_foldl_emit (code : Code) (instructions : List Instruction) :
    (instructions.foldl emit code).instructions.toList =
      code.instructions.toList ++ instructions := by
  induction instructions generalizing code with
  | nil => simp
  | cons instruction instructions ih => simp [ih, emit]

@[simp] theorem size_foldl_emit (code : Code) (instructions : List Instruction) :
    (instructions.foldl emit code).size = code.size + instructions.length := by
  rw [size, ← Array.length_toList, toList_foldl_emit]
  simp [size]

@[simp] theorem marks_foldl_emit (code : Code) (instructions : List Instruction) :
    (instructions.foldl emit code).marks = code.marks := by
  induction instructions generalizing code with
  | nil => rfl
  | cons instruction instructions ih => exact ih _

/-- Code to which something was added, with labels bound only to what was added. -/
structure Advances (before after : Code) : Prop where
  grows : before.Grows after
  /-- A label that was bound on the way is bound to a position that was reached on the way. -/
  recent : ∀ label position, after.position? label = some position →
    before.position? label = some position ∨ before.size ≤ position ∧ position ≤ after.size

namespace Advances

variable {before between after : Code}

theorem refl (code : Code) : code.Advances code := ⟨.refl code, fun _ _ bound => .inl bound⟩

theorem trans (first : before.Advances between) (second : between.Advances after) :
    before.Advances after where
  grows := first.grows.trans second.grows
  recent := by
    intro label position bound
    have sizes := first.grows.size_le
    have later := second.grows.size_le
    obtain bound | reached := second.recent label position bound
    · obtain bound | reached := first.recent label position bound
      · exact .inl bound
      · exact .inr (by omega)
    · exact .inr (by omega)

/-- The labels stay as they are. -/
theorem of_marks (grows : before.Grows after) (marks : after.marks = before.marks) :
    before.Advances after := by
  refine ⟨grows, fun label position bound => .inl ?_⟩
  rwa [position?, marks] at bound

theorem emit (code : Code) (instruction : Instruction) : code.Advances (code.emit instruction) :=
  of_marks (.emit code instruction) rfl

/-- A label that is handed out is not bound yet, or it is bound to the current position. -/
theorem push (code : Code) {position : Option Nat} (here : ∀ found ∈ position, found = code.size) :
    code.Advances { code with marks := code.marks.push position } := by
  refine ⟨.push code position, ?_⟩
  intro label found bound
  simp only [position?, Array.getElem?_push] at bound
  split at bound
  · next last =>
    obtain rfl := here found bound
    exact .inr ⟨Nat.le_refl _, Nat.le_refl _⟩
  · exact .inl bound

theorem newLabel (code : Code) : code.Advances code.newLabel.2 := push code nofun

theorem here (code : Code) : code.Advances code.here.2 :=
  push code fun _ found => (Option.mem_some_iff.mp found).symm

/-- Binding a label that is free loses nothing. -/
theorem mark {code : Code} {label : Label} (free : code.marks[label.index]? = some none) :
    code.Advances
      { code with marks := code.marks.setIfInBounds label.index (some code.size) } := by
  refine ⟨.mark free _, ?_⟩
  intro other position bound
  simp only [position?, Array.getElem?_setIfInBounds] at bound
  split at bound
  · split at bound
    · simp only [Option.join_some, Option.some.injEq] at bound
      subst bound
      exact .inr ⟨Nat.le_refl _, Nat.le_refl _⟩
    · simp at bound
  · exact .inl bound

theorem allocate (code : Code) (name : Option String) (type : Ty) :
    code.Advances (code.allocate name type).2 :=
  of_marks (code.grows_allocate name type) (by simp)

theorem emits (code : Code) (instructions : List Instruction) :
    code.Advances (instructions.foldl Code.emit code) := by
  induction instructions generalizing code with
  | nil => exact refl code
  | cons instruction instructions ih =>
    exact (emit code instruction).trans (ih _)

/-- A stretch of code stays where it is. -/
theorem holds (advances : before.Advances after) {position : Nat} {segment : List Instruction}
    (held : before.Holds position segment) : after.Holds position segment := by
  obtain ⟨more, extension⟩ := advances.grows.instructions
  unfold Holds at held ⊢
  rw [← extension]
  refine held.trans ?_
  rw [List.drop_append]
  exact List.prefix_append _ _

/-- A position that has been passed can no longer be given a label. -/
theorem sealed (advances : before.Advances after) {position : Nat}
    (closed : before.Sealed position) (passed : position < before.size) :
    after.Sealed position := by
  intro label
  constructor
  · intro bound
    obtain bound | reached := advances.recent label _ bound
    · exact (closed label).1 bound
    · omega
  · intro bound
    obtain bound | reached := advances.recent label _ bound
    · exact (closed label).2 bound
    · omega

end Advances

/-- Every label is bound to a position that has been reached. -/
def Bounded (code : Code) : Prop :=
  ∀ label position, code.position? label = some position → position ≤ code.size

theorem Bounded.advances {before after : Code} (bounded : before.Bounded)
    (advances : before.Advances after) : after.Bounded := by
  intro label position bound
  have sizes := advances.grows.size_le
  obtain bound | reached := advances.recent label position bound
  · have earlier := bounded label position bound
    omega
  · exact reached.2

/-- Instructions that are emitted in a row, but for the first two, have no labels. -/
theorem Bounded.sealed_foldl_emit {code : Code} (bounded : code.Bounded)
    (instructions : List Instruction) {position : Nat} (inside : code.size + 1 < position) :
    (instructions.foldl emit code).Sealed position := by
  have same : ∀ label, (instructions.foldl emit code).position? label = code.position? label := by
    intro label
    rw [position?, marks_foldl_emit]
    rfl
  intro label
  rw [same]
  constructor
  · intro bound
    have reached := bounded label _ bound
    omega
  · intro bound
    have reached := bounded label _ bound
    omega

end Code

namespace Emit

variable {writable : FieldRef → Prop} {allowed : Label → Prop} {bound : List Label}

/-- What was written from a position on: no field of an object but `writable` ones. -/
def WritesOnly (writable : FieldRef → Prop) (first : Nat) (code : Code) : Prop :=
  ∀ position field, first ≤ position → code.instructions[position]? = some (.putField field) →
    field.isStatic = false → writable field

/-- Two stretches of code write what each of them writes. -/
theorem WritesOnly.trans {before between after : Code}
    (advances : between.Advances after)
    (first : WritesOnly writable before.size between)
    (second : WritesOnly writable between.size after) :
    WritesOnly writable before.size after := by
  intro position field later written
  by_cases passed : position < between.size
  · have there : between.instructions[position]? = some between.instructions[position] :=
      Array.getElem?_eq_getElem passed
    have same := advances.grows.getElem? there
    rw [written] at same
    rw [← same] at there
    exact first position field later there
  · exact second position field (by omega) written

theorem WritesOnly.of_eq {before after : Code}
    (same : after.instructions = before.instructions) :
    WritesOnly writable before.size after := by
  intro position field later written
  rw [same] at written
  have inBounds := (Array.getElem?_eq_some_iff.mp written).1
  unfold Code.size at later
  omega

/-- A plain step advances the code and writes no fields but those that it may write. -/
theorem PlainTo.advances
    {refs : α → List Reference} {step : Emit α}
    (plain : PlainTo writable .any allowed bound refs step)
    {before after : Emission} {value : α}
    (stores : before.method.StoresTo writable)
    (success : step before = .ok value after) :
    before.code.Advances after.code ∧ WritesOnly writable before.code.size after.code := by
  let Related (first second : Emission) : Prop :=
    first.code.Advances second.code ∧ WritesOnly writable first.code.size second.code
  have refl : ∀ state, Related state state := fun state => ⟨.refl _, .of_eq rfl⟩
  have trans : ∀ {first second third}, Related first second → Related second third →
      Related first third := by
    rintro first second third ⟨advances, writes⟩ ⟨further, writesMore⟩
    exact ⟨advances.trans further, .trans further writes writesMore⟩
  refine (related_and_method_eq refl trans (fun change => ?_) plain rfl stores success).1
  cases change with
  | emit writes =>
    refine ⟨.emit _ _, ?_⟩
    intro position field later written instance?
    simp only [Emission.code_mapCode, Code.emit, Array.getElem?_push] at written
    split at written
    · exact writes field (Option.some.inj written) instance?
    · have inBounds := (Array.getElem?_eq_some_iff.mp written).1
      unfold Code.size at later
      omega
  | newLabel => exact ⟨.newLabel _, .of_eq rfl⟩
  | mark free => exact ⟨.mark free, .of_eq rfl⟩
  | allocate name type => exact ⟨.allocate _ name type, .of_eq (by simp)⟩
  | cls _ => exact refl _

/-- Labels are handed out without emitting anything. -/
theorem newLabels_ok
    {count : Nat} {labels : List Label} {before after : Emission}
    (success : newLabels count before = .ok labels after) :
    labels.length = count ∧ ∃ code, after = (before.mapCode fun _ => code) ∧
      before.code.Advances code ∧ code.instructions = before.code.instructions := by
  induction count generalizing before labels with
  | zero =>
    obtain ⟨rfl, rfl⟩ := pure_ok.mp success
    exact ⟨rfl, before.code, rfl, .refl _, rfl⟩
  | succ count ih =>
    obtain ⟨label, between, handedOut, rest⟩ := bind_ok.mp success
    obtain ⟨others, _, others_ok, rest⟩ := bind_ok.mp rest
    obtain ⟨rfl, rfl⟩ := pure_ok.mp rest
    obtain ⟨rfl, rfl⟩ := newLabel_ok.mp handedOut
    obtain ⟨length, code, rfl, advances, instructions⟩ := ih others_ok
    exact ⟨by simp [length], code, rfl, (Code.Advances.newLabel _).trans advances, instructions⟩

end Emit
end StackCode
