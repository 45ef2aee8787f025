import Mathlib.Data.List.Infix
import StackCode.Proofs.Steps

/-!
# Growing code

Generating a method only adds to what is there.  What was emitted stays where it
is, a label that was bound keeps its position, and a statement that was given
labels keeps them.
-/

namespace StackCode

/-! ## Growing code -/

/-- Code to which something was added. -/
structure Code.Grows (before after : Code) : Prop where
  /-- Instructions keep their positions. -/
  instructions : before.instructions.toList <+: after.instructions.toList
  /-- Bound labels keep their positions. -/
  marks : ∀ label position,
    before.position? label = some position → after.position? label = some position
  /-- Labels that were handed out stay handed out. -/
  handedOut : before.marks.size ≤ after.marks.size
  /-- Protected ranges stay registered. -/
  regions : before.regions.toList <+: after.regions.toList

namespace Code.Grows

variable {before between after : Code}

theorem refl (code : Code) : code.Grows code :=
  ⟨List.prefix_rfl, fun _ _ bound => bound, Nat.le_refl _, List.prefix_rfl⟩

theorem trans (first : before.Grows between) (second : between.Grows after) :
    before.Grows after where
  instructions := first.instructions.trans second.instructions
  marks := fun label position bound =>
    second.marks label position (first.marks label position bound)
  handedOut := first.handedOut.trans second.handedOut
  regions := first.regions.trans second.regions

/-- Scopes and slots are no part of what grows. -/
theorem of_eq
    (instructions : after.instructions = before.instructions)
    (marks : after.marks = before.marks)
    (regions : after.regions = before.regions) :
    before.Grows after := by
  refine ⟨by rw [instructions], ?_, by rw [marks], by rw [regions]⟩
  intro label position bound
  rwa [position?, marks]

theorem emit (code : Code) (instruction : Instruction) : code.Grows (code.emit instruction) where
  instructions := by simp [Code.emit]
  marks := fun _ _ bound => bound
  handedOut := Nat.le_refl _
  regions := List.prefix_rfl

/-- Handing out a label, bound or not, leaves the others alone. -/
theorem push (code : Code) (position : Option Nat) :
    code.Grows { code with marks := code.marks.push position } where
  instructions := List.prefix_rfl
  marks := by
    intro label found bound
    have marked : code.marks[label.index]? = some (some found) := Option.join_eq_some_iff.mp bound
    obtain ⟨inBounds, -⟩ := Array.getElem?_eq_some_iff.mp marked
    simp only [position?, Array.getElem?_push]
    rw [if_neg (by omega), marked]
    rfl
  handedOut := by simp
  regions := List.prefix_rfl

theorem newLabel (code : Code) : code.Grows code.newLabel.2 := push code none

theorem here (code : Code) : code.Grows code.here.2 := push code (some code.size)

/-- Binding a label leaves the labels that are bound alone. -/
theorem mark
    {code : Code} {label : Label}
    (free : code.marks[label.index]? = some none)
    (position : Nat) :
    code.Grows { code with marks := code.marks.setIfInBounds label.index (some position) } where
  instructions := List.prefix_rfl
  marks := by
    intro other found bound
    have apart : label.index ≠ other.index := by
      intro same
      simp [position?, ← same, free] at bound
    simpa [position?, apart] using bound
  handedOut := by simp
  regions := List.prefix_rfl

theorem addRegion (code : Code) (region : Region) : code.Grows (code.addRegion region) where
  instructions := List.prefix_rfl
  marks := fun _ _ bound => bound
  handedOut := Nat.le_refl _
  regions := by simp [Code.addRegion]

theorem closeScope (code : Code) (scope : LocalScope) (outer : List LocalScope) :
    code.Grows (code.closeScope scope outer) := of_eq rfl rfl rfl

theorem size_le (grows : before.Grows after) : before.size ≤ after.size := by
  have := grows.instructions.length_le
  simpa [Code.size] using this

/-- An instruction stays where it was emitted. -/
theorem getElem?
    (grows : before.Grows after)
    {position : Nat} {instruction : Instruction}
    (emitted : before.instructions[position]? = some instruction) :
    after.instructions[position]? = some instruction := by
  obtain ⟨more, extension⟩ := grows.instructions
  rw [← Array.getElem?_toList] at emitted ⊢
  obtain ⟨inBounds, -⟩ := List.getElem?_eq_some_iff.mp emitted
  rw [← extension, List.getElem?_append_left inBounds, emitted]

end Code.Grows

namespace Code

/-- Reserving slots opens and closes no scope. -/
theorem map_firstSlot_allocate (code : Code) (name : Option String) (type : Ty) :
    (code.allocate name type).2.scopes.map LocalScope.firstSlot =
      code.scopes.map LocalScope.firstSlot := by
  cases scopes : code.scopes <;> simp [allocate, scopes]

@[simp] theorem nextSlot_allocate (code : Code) (name : Option String) (type : Ty) :
    (code.allocate name type).2.nextSlot = code.nextSlot + max type.kind.width 1 := by
  cases scopes : code.scopes <;> simp [allocate, scopes]

@[simp] theorem instructions_allocate (code : Code) (name : Option String) (type : Ty) :
    (code.allocate name type).2.instructions = code.instructions := by
  cases scopes : code.scopes <;> simp [allocate, scopes]

@[simp] theorem marks_allocate (code : Code) (name : Option String) (type : Ty) :
    (code.allocate name type).2.marks = code.marks := by
  cases scopes : code.scopes <;> simp [allocate, scopes]

@[simp] theorem regions_allocate (code : Code) (name : Option String) (type : Ty) :
    (code.allocate name type).2.regions = code.regions := by
  cases scopes : code.scopes <;> simp [allocate, scopes]

theorem grows_allocate (code : Code) (name : Option String) (type : Ty) :
    code.Grows (code.allocate name type).2 :=
  .of_eq (by simp) (by simp) (by simp)

end Code

/-! ## Growing tables of labels -/

/-- The labels of a statement. -/
def StmtLabels.toList (labels : StmtLabels) : List Label := [labels.start, labels.next, labels.stop]

namespace LabelTable

variable {id other : StmtId} {labels : StmtLabels} {layers inserted : List LabelLayer}
variable {base : StmtLabelMap}

/--
A table with more labels for the same copies.  It extends the given one under
every number of layers that are taken off.
-/
structure Extends (before after : LabelTable) : Prop where
  /-- The same copies are in progress. -/
  owned : after.layers.map LabelLayer.owned = before.layers.map LabelLayer.owned
  /-- Labels that were given out stay. -/
  find? : ∀ count id labels,
    LabelTable.find? before.base id (before.layers.drop count) = some labels →
      LabelTable.find? after.base id (after.layers.drop count) = some labels
  /-- New labels go to the innermost copy of a statement. -/
  unowned : ∀ count id,
    LabelTable.find? before.base id (before.layers.drop count) = none →
      LabelTable.find? after.base id (after.layers.drop count) ≠ none →
        ∀ owned ∈ (before.layers.map LabelLayer.owned).take count, id ∉ owned

/-- A new entry of the base is seen by its own statement only. -/
theorem find?_cons_of_ne (apart : other ≠ id) (layers : List LabelLayer) :
    LabelTable.find? ((id, labels) :: base) other layers = LabelTable.find? base other layers := by
  induction layers with
  | nil => simp [LabelTable.find?, List.lookup_cons, beq_false_of_ne apart]
  | cons layer outer ih => simp [LabelTable.find?, ih]

/-- A statement that no copy owns is looked up in the base. -/
theorem find?_of_foreign (foreign : ∀ layer ∈ layers, id ∉ layer.owned) :
    LabelTable.find? base id layers = base.lookup id := by
  induction layers with
  | nil => rfl
  | cons layer outer ih =>
    have headForeign : id ∉ layer.owned := foreign layer List.mem_cons_self
    have tailForeign := fun other member => foreign other (List.mem_cons_of_mem layer member)
    simp [LabelTable.find?, headForeign, ih tailForeign]

theorem foreign_of_insertInto_eq_none (insertion : insertInto id labels layers = none) :
    ∀ layer ∈ layers, id ∉ layer.owned := by
  induction layers with
  | nil => simp
  | cons layer outer ih =>
    by_cases owned : id ∈ layer.owned
    · simp [insertInto, owned] at insertion
    · simp only [insertInto, owned, if_false, Option.map_eq_none_iff] at insertion
      simpa [owned] using ih insertion

theorem map_owned_of_insertInto_eq_some (insertion : insertInto id labels layers = some inserted) :
    inserted.map LabelLayer.owned = layers.map LabelLayer.owned := by
  induction layers generalizing inserted with
  | nil => simp [insertInto] at insertion
  | cons layer outer ih =>
    obtain ⟨-, rfl⟩ | ⟨-, rest, restInsertion, rfl⟩ := insertInto_cons.mp insertion
    · rfl
    · simp [ih restInsertion]

/-- Labels for a statement that had none hide no others, whatever layers are taken off. -/
theorem find?_drop_of_insertInto_eq_some
    {found : StmtLabels}
    (insertion : insertInto id labels layers = some inserted)
    (missing : LabelTable.find? base id layers = none)
    (count : Nat)
    (known : LabelTable.find? base other (layers.drop count) = some found) :
    LabelTable.find? base other (inserted.drop count) = some found := by
  induction layers generalizing inserted count with
  | nil => simp [insertInto] at insertion
  | cons layer outer ih =>
    obtain ⟨owned, rfl⟩ | ⟨foreign, rest, restInsertion, rfl⟩ := insertInto_cons.mp insertion
    · simp only [LabelTable.find?, owned, if_true] at missing
      cases count with
      | succ count => exact known
      | zero =>
        have apart : other ≠ id := by
          rintro rfl
          simp [LabelTable.find?, owned, missing] at known
        simpa [LabelTable.find?, List.lookup_cons, beq_false_of_ne apart] using known
    · simp only [LabelTable.find?, foreign, if_false] at missing
      cases count with
      | succ count => exact ih restInsertion missing count known
      | zero =>
        by_cases otherOwned : other ∈ layer.owned
        · simpa [LabelTable.find?, otherOwned] using known
        · simp only [List.drop_zero, LabelTable.find?, otherOwned, if_false] at known ⊢
          exact ih restInsertion missing 0 known

/-- Labels for a statement are seen by that statement only. -/
theorem find?_drop_of_insertInto_of_ne
    (insertion : insertInto id labels layers = some inserted)
    (apart : other ≠ id)
    (count : Nat) :
    LabelTable.find? base other (inserted.drop count) =
      LabelTable.find? base other (layers.drop count) := by
  induction layers generalizing inserted count with
  | nil => simp [insertInto] at insertion
  | cons layer outer ih =>
    obtain ⟨-, rfl⟩ | ⟨-, rest, restInsertion, rfl⟩ := insertInto_cons.mp insertion
    · cases count with
      | succ count => rfl
      | zero => simp [LabelTable.find?, List.lookup_cons, beq_false_of_ne apart]
    · cases count with
      | succ count => exact ih restInsertion count
      | zero =>
        have below := ih restInsertion 0
        simp only [List.drop_zero] at below ⊢
        simp only [LabelTable.find?, below]

/-- Labels go to the innermost copy of their statement. -/
theorem unowned_of_insertInto_eq_some
    (insertion : insertInto id labels layers = some inserted)
    (count : Nat)
    (changed : LabelTable.find? base id (inserted.drop count) ≠
      LabelTable.find? base id (layers.drop count)) :
    ∀ owned ∈ (layers.map LabelLayer.owned).take count, id ∉ owned := by
  induction layers generalizing inserted count with
  | nil => simp
  | cons layer outer ih =>
    cases count with
    | zero => simp
    | succ count =>
      obtain ⟨-, rfl⟩ | ⟨foreign, rest, restInsertion, rfl⟩ := insertInto_cons.mp insertion
      · exact absurd rfl changed
      · have below := ih restInsertion count changed
        simpa [foreign] using below

namespace Extends

variable {before between after : LabelTable}
variable {id : StmtId}

theorem refl (table : LabelTable) : table.Extends table :=
  ⟨rfl, fun _ _ _ known => known, fun _ _ missing found => absurd missing found⟩

theorem trans (first : before.Extends between) (second : between.Extends after) :
    before.Extends after where
  owned := second.owned.trans first.owned
  find? := fun count id labels known =>
    second.find? count id labels (first.find? count id labels known)
  unowned := by
    intro count id missing found
    by_cases between : LabelTable.find? between.base id (between.layers.drop count) = none
    · have unowned := second.unowned count id between found
      rwa [first.owned] at unowned
    · exact first.unowned count id missing between

/-- The labels of a statement stay what they are. -/
theorem get? (extension : before.Extends after) {labels : StmtLabels}
    (known : before.get? id = some labels) : after.get? id = some labels :=
  extension.find? 0 id labels known

/-- Giving labels to a statement that has none. -/
theorem insert {table : LabelTable} (missing : table.get? id = none) (labels : StmtLabels) :
    table.Extends (table.insert id labels) := by
  unfold LabelTable.insert
  cases insertion : insertInto id labels table.layers with
  | some inserted =>
    refine ⟨map_owned_of_insertInto_eq_some insertion, fun count _ _ known =>
      find?_drop_of_insertInto_eq_some insertion missing count known, ?_⟩
    intro count other absent found
    by_cases same : other = id
    · subst same
      exact unowned_of_insertInto_eq_some insertion count fun unchanged =>
        found (unchanged.trans absent)
    · exact absurd ((find?_drop_of_insertInto_of_ne insertion same count).trans absent) found
  | none =>
    have foreign := foreign_of_insertInto_eq_none insertion
    refine ⟨rfl, fun count other found known => ?_, fun count other absent found => ?_⟩
    · have apart : other ≠ id := by
        rintro rfl
        have foreignBelow : ∀ layer ∈ table.layers.drop count, other ∉ layer.owned :=
          fun layer member => foreign layer (List.mem_of_mem_drop member)
        rw [LabelTable.get?, find?_of_foreign foreign] at missing
        rw [find?_of_foreign foreignBelow, missing] at known
        contradiction
      rwa [find?_cons_of_ne apart]
    · by_cases same : other = id
      · subst same
        intro owned member
        obtain ⟨layer, layerMember, rfl⟩ := List.mem_map.mp (List.mem_of_mem_take member)
        exact foreign layer layerMember
      · rw [find?_cons_of_ne same] at found
        exact absurd absent found

/-- What is entered while a copy is in progress stays in the layers below it. -/
theorem popLayer {ids : List StmtId} (extension : (before.pushLayer ids).Extends after) :
    before.Extends after.popLayer where
  owned := by
    have owned := congrArg List.tail extension.owned
    simpa [LabelTable.pushLayer, LabelTable.popLayer, List.map_tail] using owned
  find? := by
    intro count id labels known
    have kept := extension.find? (count + 1) id labels known
    simpa [LabelTable.popLayer] using kept
  unowned := by
    intro count id missing found
    have unowned :=
      extension.unowned (count + 1) id missing (by simpa [LabelTable.popLayer] using found)
    intro owned member
    exact unowned owned (List.mem_cons_of_mem ids member)

/-- What is entered outside of a copy while it is in progress is not part of the copy. -/
theorem not_mem_of_popLayer
    {ids : List StmtId}
    (extension : (before.pushLayer ids).Extends after)
    (missing : before.get? id = none)
    (found : after.popLayer.get? id ≠ none) :
    id ∉ ids := by
  refine extension.unowned 1 id missing ?_ ids ?_
  · simpa [LabelTable.get?, LabelTable.popLayer] using found
  · simp [LabelTable.pushLayer]

end Extends

end LabelTable

end StackCode
