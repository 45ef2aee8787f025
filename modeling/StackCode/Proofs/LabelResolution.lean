import Mathlib.Data.List.Infix
import StackCode.Proofs.Finishing

/-!
# Resolution of labels

Code is built by operations in any order, and an operation that fails leaves it
as it was.  The operations alone tell what was emitted and registered, and where
each label was bound first.  Finishing succeeds exactly if every label in use was
bound at some time, and then every label stands where it was bound first.
-/

namespace StackCode

/-- The entry that a protected range has in the table of a body. -/
def MethodBody.entry (body : MethodBody) (region : Region) : ExceptionEntry :=
  { start := body.position region.start
    stop := body.position region.stop
    handler := body.position region.handler
    catchType := region.catchType }

namespace Code

/-- What can be done with code under construction. -/
inductive Operation where
  /-- Append an instruction. -/
  | emit (instruction : Instruction)
  /-- Hand out a label. -/
  | newLabel
  /-- Hand out a label that is bound to the position of the next instruction. -/
  | here
  /-- Bind a label to the position of the next instruction. -/
  | mark (label : Label)
  /-- Register a protected range. -/
  | addRegion (region : Region)
  /-- Open a scope. -/
  | enterScope
  /-- Close the innermost scope. -/
  | exitScope
  /-- Reserve the slots of a local, or of a temporary, which has no name. -/
  | allocate (name : Option String) (type : Ty)

/-- What was done with code, the newest operation first. -/
abbrev History := List Operation

/-- Do something with code; nothing changes if that fails. -/
def perform (code : Code) : Operation → Code
  | .emit instruction => code.emit instruction
  | .newLabel => code.newLabel.2
  | .here => code.here.2
  | .mark label => (code.mark label).toOption.getD code
  | .addRegion region => code.addRegion region
  | .enterScope => code.enterScope
  | .exitScope => code.exitScope.toOption.getD code
  | .allocate name type => (code.allocate name type).2

/-- The code after a history. -/
def run (debugInfo : Bool) : History → Code
  | [] => { debugInfo }
  | operation :: earlier => (run debugInfo earlier).perform operation

namespace History

/-- The instructions that were emitted. -/
def emitted : History → List Instruction
  | [] => []
  | .emit instruction :: earlier => emitted earlier ++ [instruction]
  | _ :: earlier => emitted earlier

/-- The protected ranges that were registered. -/
def registered : History → List Region
  | [] => []
  | .addRegion region :: earlier => registered earlier ++ [region]
  | _ :: earlier => registered earlier

/-- The number of labels that were handed out. -/
def labelCount : History → Nat
  | [] => 0
  | .newLabel :: earlier => labelCount earlier + 1
  | .here :: earlier => labelCount earlier + 1
  | _ :: earlier => labelCount earlier

/-- After so many labels, an operation binds the given one, unless it is bound already. -/
def Binds (count : Nat) (label : Label) : Operation → Prop
  | .here => label.index = count
  | .mark marked => marked = label ∧ label.index < count
  | _ => False

/-- A label was handed out and bound. -/
def Marked (history : History) (label : Label) : Prop :=
  ∃ operation earlier, operation :: earlier <:+ history ∧ Binds (labelCount earlier) label operation

/-- The position at which a label was bound first. -/
def MarkedAt (history : History) (label : Label) (position : Nat) : Prop :=
  ∃ operation earlier, operation :: earlier <:+ history ∧
    Binds (labelCount earlier) label operation ∧
    ¬Marked earlier label ∧ (emitted earlier).length = position

variable {operation : Operation} {earlier history : History} {label : Label} {position : Nat}

theorem marked_cons :
    Marked (operation :: earlier) label ↔ Binds (labelCount earlier) label operation ∨
      Marked earlier label := by
  simp [Marked, List.suffix_cons_iff, or_and_right, exists_or]

theorem markedAt_cons :
    MarkedAt (operation :: earlier) label position ↔
      (Binds (labelCount earlier) label operation ∧ ¬Marked earlier label ∧
        (emitted earlier).length = position) ∨ MarkedAt earlier label position := by
  simp [MarkedAt, List.suffix_cons_iff, or_and_right, exists_or]

/-- A label that was bound was bound somewhere first. -/
theorem marked_iff : Marked history label ↔ ∃ position, MarkedAt history label position := by
  induction history with
  | nil => simp [Marked, MarkedAt]
  | cons operation earlier ih =>
    simp only [marked_cons, markedAt_cons, exists_or, ← ih]
    by_cases marked : Marked earlier label <;> simp [marked]

theorem length_emitted_le (operation : Operation) (earlier : History) :
    (emitted earlier).length ≤ (emitted (operation :: earlier)).length := by
  cases operation <;> simp [emitted]

/-- No label is bound behind the end. -/
theorem MarkedAt.le (marked : MarkedAt history label position) :
    position ≤ history.emitted.length := by
  induction history with
  | nil => simp [MarkedAt] at marked
  | cons operation earlier ih =>
    refine Nat.le_trans ?_ (length_emitted_le operation earlier)
    obtain ⟨-, -, same⟩ | marked := markedAt_cons.mp marked
    · exact Nat.le_of_eq same.symm
    · exact ih marked

end History

/-! ## What the operations lead to -/

variable {debugInfo : Bool} {code : Code}

theorem perform_mark (label : Label) :
    code.perform (.mark label) =
      if code.marks[label.index]? = some none then
        { code with marks := code.marks.setIfInBounds label.index (some code.size) }
      else code := by
  simp only [perform, mark]
  split <;> simp_all [Except.toOption]

theorem perform_exitScope (code : Code) :
    (code.perform .exitScope).instructions = code.instructions ∧
      (code.perform .exitScope).marks = code.marks ∧
        (code.perform .exitScope).regions = code.regions := by
  simp only [perform, exitScope]
  split <;> exact ⟨rfl, rfl, rfl⟩

/-- The code holds what its history has added to it. -/
theorem instructions_run (debugInfo : Bool) (history : History) :
    (run debugInfo history).instructions.toList = history.emitted ∧
      (run debugInfo history).regions.toList = history.registered ∧
        (run debugInfo history).marks.size = history.labelCount := by
  induction history with
  | nil => exact ⟨rfl, rfl, rfl⟩
  | cons operation earlier ih =>
    cases operation with
    | mark label =>
      simp only [run, perform_mark, History.emitted, History.registered, History.labelCount]
      split
      · simpa using ih
      · exact ih
    | exitScope =>
      simp only [run, perform_exitScope]
      exact ih
    | _ =>
      simpa [run, perform, emit, newLabel, here, addRegion, enterScope, History.emitted,
        History.registered, History.labelCount] using ih

/-- A label is bound by the first operation that can bind it, to the position reached then. -/
theorem position?_perform {operation : Operation} {label : Label} {position : Nat} :
    (code.perform operation).position? label = some position ↔
      (History.Binds code.marks.size label operation ∧ code.position? label = none ∧
        code.size = position) ∨ code.position? label = some position := by
  cases operation with
  | here =>
    by_cases last : label.index = code.marks.size <;>
      simp [perform, here, position?, History.Binds, Array.getElem?_push, last]
  | newLabel =>
    by_cases last : label.index = code.marks.size <;>
      simp [perform, newLabel, position?, History.Binds, Array.getElem?_push, last]
  | mark marked =>
    rw [perform_mark]
    split
    · next free =>
      obtain ⟨inside, unbound⟩ := Array.getElem?_eq_some_iff.mp free
      by_cases same : marked = label
      · subst same
        simp [position?, History.Binds, inside, unbound]
      · have other : marked.index ≠ label.index := fun equal => same (congrArg Label.mk equal)
        simp [position?, History.Binds, same, other]
    · next taken =>
      rw [or_iff_right]
      rintro ⟨⟨rfl, inside⟩, unbound, -⟩
      rw [position?, Array.getElem?_eq_getElem inside, Option.join_some] at unbound
      exact taken (Array.getElem?_eq_some_iff.mpr ⟨inside, unbound⟩)
  | exitScope => simp [position?, perform_exitScope, History.Binds]
  | _ => simp [perform, position?, History.Binds, emit, addRegion, enterScope]

/-- A label is where its history marks it. -/
theorem position?_run (history : History) {label : Label} {position : Nat} :
    (run debugInfo history).position? label = some position ↔ history.MarkedAt label position := by
  induction history generalizing position with
  | nil => simp [run, position?, History.MarkedAt]
  | cons operation earlier ih =>
    obtain ⟨instructions, -, labels⟩ := instructions_run debugInfo earlier
    have unbound :
        (run debugInfo earlier).position? label = none ↔ ¬History.Marked earlier label := by
      rw [History.marked_iff, Option.eq_none_iff_forall_ne_some, not_exists]
      exact forall_congr' fun _ => not_congr ih
    rw [run, position?_perform, History.markedAt_cons, ih, unbound, labels, size,
      ← Array.length_toList, instructions]

/-- A label is bound exactly if some operation bound it. -/
theorem position?_run_eq_none {history : History} {label : Label} :
    (run debugInfo history).position? label = none ↔ ¬history.Marked label := by
  rw [History.marked_iff, Option.eq_none_iff_forall_ne_some, not_exists]
  exact forall_congr' fun _ => not_congr (position?_run history)

/-- The exception table has the ranges that are not empty, in the order of their registration. -/
theorem Finishes.exceptions_eq_entries {body : MethodBody} (finishes : code.Finishes body) :
    body.exceptions =
      (code.regions.toList.map body.entry).filter fun entry => entry.start < entry.stop := by
  obtain ⟨entries, resolved, table⟩ := finishes.exceptions
  have same : code.regions.toList.map body.entry = entries := by
    rw [← List.forall₂_eq_eq_eq, List.forall₂_map_left_iff]
    refine resolved.imp fun region entry found => ?_
    obtain ⟨started, stopped, handled, kind⟩ := resolveRegion_ok.mp found
    rw [MethodBody.entry, finishes.position _ _ started, finishes.position _ _ stopped,
      finishes.position _ _ handled, ← kind]
  rw [table, same]

/--
Finishing succeeds exactly if every label in use was handed out and bound.  Then
each label stands where it was bound first, and one that was not bound at the end
of the code; the exception table has the ranges that are not empty, in the order of
their registration.  A label that is bound cannot be bound again.
-/
theorem finish_run (debugInfo : Bool) (history : History) :
    ((∃ body, (run debugInfo history).finish = .ok body) ↔
      (∀ instruction ∈ history.emitted, ∀ label ∈ instruction.targets, history.Marked label) ∧
        ∀ region ∈ history.registered, history.Marked region.start ∧
          history.Marked region.stop ∧ history.Marked region.handler) ∧
    (∀ body, (run debugInfo history).finish = .ok body →
      body.instructions.toList = history.emitted ∧
      body.labels.size = history.labelCount ∧
      (∀ label position, history.MarkedAt label position →
        body.labels[label.index]? = some position) ∧
      (∀ label, label.index < history.labelCount → ¬history.Marked label →
        body.labels[label.index]? = some history.emitted.length) ∧
      (∀ position ∈ body.labels, position ≤ history.emitted.length) ∧
      body.exceptions =
        (history.registered.map body.entry).filter fun entry => entry.start < entry.stop) ∧
    (∀ label position, history.MarkedAt label position →
      (run debugInfo history).mark label =
          .error (.labelMarkedTwice label position history.emitted.length) ∧
        run debugInfo (.mark label :: history) = run debugInfo history) := by
  obtain ⟨emitted, registered, labels⟩ := instructions_run debugInfo history
  have size : (run debugInfo history).size = history.emitted.length := by
    rw [Code.size, ← emitted, Array.length_toList]
  have bound : ∀ {label position}, history.MarkedAt label position →
      (run debugInfo history).marks[label.index]? = some (some position) :=
    fun marked => Option.join_eq_some_iff.mp ((position?_run history).mpr marked)
  have marked : ∀ {label position}, (run debugInfo history).position? label = some position →
      history.Marked label :=
    fun bound => History.marked_iff.mpr ⟨_, (position?_run history).mp bound⟩
  refine ⟨⟨?_, ?_⟩, fun body success => ?_, fun label position marked => ?_⟩
  · rintro ⟨body, success⟩
    have finishes := finishes_of_finish success
    rw [← emitted, ← registered]
    refine ⟨fun instruction member label used => ?_, fun region member => ?_⟩
    · obtain ⟨position, bound⟩ := finishes.targets instruction (Array.mem_def.mpr member) label used
      exact marked bound
    · obtain ⟨entries, resolved, -⟩ := finishes.exceptions
      obtain ⟨entry, -, found⟩ := exists_of_mem_right resolved.flip member
      obtain ⟨started, stopped, handled, -⟩ := resolveRegion_ok.mp found
      exact ⟨marked started, marked stopped, marked handled⟩
  · rintro ⟨targets, ranges⟩
    cases finished : (run debugInfo history).finish with
    | ok body => exact ⟨body, rfl⟩
    | error error =>
      obtain ⟨label, -, used, unbound⟩ := finish_error finished
      refine absurd ?_ (position?_run_eq_none.mp unbound)
      obtain ⟨instruction, member, used⟩ | ⟨region, member, used⟩ := used
      · exact targets instruction (emitted ▸ Array.mem_def.mp member) label used
      · have marked := ranges region (registered ▸ Array.mem_def.mp member)
        simp only [List.mem_cons, List.not_mem_nil, or_false] at used
        obtain rfl | rfl | rfl := used
        · exact marked.1
        · exact marked.2.1
        · exact marked.2.2
  · have finishes := finishes_of_finish success
    refine ⟨by rw [finishes.instructions, emitted], ?_, ?_, ?_, ?_, ?_⟩
    · rw [finishes.labels, Array.size_map, labels]
    · intro label position marked
      rw [finishes.labels, Array.getElem?_map, bound marked]
      rfl
    · intro label inside unmarked
      rw [← labels] at inside
      have free : (run debugInfo history).position? label = none :=
        position?_run_eq_none.mpr unmarked
      rw [position?, Array.getElem?_eq_getElem inside, Option.join_some] at free
      rw [finishes.labels, Array.getElem?_map, Array.getElem?_eq_getElem inside, free, ← size]
      rfl
    · rw [finishes.labels, size]
      intro position member
      obtain ⟨mark, listed, rfl⟩ := Array.mem_map.mp member
      obtain ⟨index, found⟩ := Array.mem_iff_getElem?.mp listed
      cases mark with
      | none => exact Nat.le_refl _
      | some position =>
        have marked : (run debugInfo history).position? ⟨index⟩ = some position :=
          Option.join_eq_some_iff.mpr found
        exact ((position?_run history).mp marked).le
    · rw [finishes.exceptions_eq_entries, registered]
  · have twice : (run debugInfo history).mark label =
        .error (.labelMarkedTwice label position history.emitted.length) := by
      rw [mark, bound marked, ← size]
    exact ⟨twice, by rw [run, perform, twice]; rfl⟩

end Code
end StackCode
