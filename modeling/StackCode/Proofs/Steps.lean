import Mathlib.Data.List.Forall2
import StackCode.Generate

/-!
# Successful steps

When a step of a generation succeeds, and in which state it then leaves the
generation.  A sequence of steps succeeds through a state in between, so a
lowering is read by taking its steps apart one after the other.
-/

namespace StackCode

/-! ## Lists of entries -/

section Entries

variable [BEq α] [LawfulBEq α] {entries : List (α × β)} {key : α} {value : β}

/-- What is looked up is there. -/
theorem mem_of_lookup (found : entries.lookup key = some value) : (key, value) ∈ entries := by
  obtain ⟨first, second, rfl, -⟩ := List.lookup_eq_some_iff.mp found
  simp

/-- What is there is found, if no key has two entries. -/
theorem lookup_of_mem (once : (entries.map Prod.fst).Nodup) (member : (key, value) ∈ entries) :
    entries.lookup key = some value := by
  obtain ⟨first, second, rfl⟩ := List.append_of_mem member
  refine List.lookup_eq_some_iff.mpr ⟨first, second, rfl, fun entry earlier => ?_⟩
  rw [List.map_append, List.nodup_append] at once
  exact bne_iff_ne.mpr (Ne.symm (once.2.2 _ (List.mem_map_of_mem earlier) _ List.mem_cons_self))

theorem lookup_eq_none (absent : key ∉ entries.map Prod.fst) : entries.lookup key = none := by
  refine List.lookup_eq_none_iff.mpr fun entry member => ?_
  refine bne_iff_ne.mpr fun same => absent ?_
  exact same ▸ List.mem_map_of_mem member

end Entries

/-- Where lists correspond, each element of one has a counterpart in the other. -/
theorem exists_of_mem_right {Corresponds : α → β → Prop} {left : List α}
    {right : List β} {value : β}
    (correspond : List.Forall₂ Corresponds left right) (member : value ∈ right) :
    ∃ other ∈ left, Corresponds other value := by
  induction correspond with
  | nil => contradiction
  | cons first _ ih =>
    obtain rfl | member := List.mem_cons.mp member
    · exact ⟨_, List.mem_cons_self, first⟩
    · obtain ⟨other, listed, corresponds⟩ := ih member
      exact ⟨other, List.mem_cons_of_mem _ listed, corresponds⟩

/-- What holds of every step of a loop, and of a step before others, holds of the loop. -/
theorem forM_of_steps {m : Type → Type} [Monad m] {Holds : m PUnit → Prop} {step : α → m PUnit}
    (done : Holds (pure ⟨⟩))
    (seq : ∀ {first rest}, Holds first → Holds rest → Holds (first >>= fun _ => rest))
    {values : List α} (steps : ∀ value ∈ values, Holds (step value)) :
    Holds (values.forM step) := by
  induction values with
  | nil => exact done
  | cons value values ih =>
    rw [List.forall_mem_cons] at steps
    exact seq steps.1 (ih steps.2)

namespace Emission

/-- The state with its method changed. -/
def mapMethod (change : MethodContext → MethodContext) (state : Emission) : Emission :=
  { state with method := change state.method }

/-- The state with its code changed. -/
def mapCode (change : Code → Code) (state : Emission) : Emission :=
  state.mapMethod fun method => { method with code := change method.code }

/-- The code of the method at hand. -/
def code (state : Emission) : Code := state.method.code

/-- The position of the next instruction. -/
def size (state : Emission) : Nat := state.code.size

@[simp] theorem method_mapMethod (change : MethodContext → MethodContext) (state : Emission) :
    (state.mapMethod change).method = change state.method := rfl

@[simp] theorem code_mapMethod (change : MethodContext → MethodContext) (state : Emission) :
    (state.mapMethod change).code = (change state.method).code := rfl

@[simp] theorem method_mapCode (change : Code → Code) (state : Emission) :
    (state.mapCode change).method = { state.method with code := change state.code } := rfl

@[simp] theorem code_mapCode (change : Code → Code) (state : Emission) :
    (state.mapCode change).code = change state.code := rfl

end Emission

/-- The method in a scope of its own, where it is noted which slots are saved outside. -/
def MethodContext.enterScope (method : MethodContext) : MethodContext :=
  { method with
    code := method.code.enterScope
    suspension := method.suspension.map fun suspension =>
      { suspension with scopeMarks := suspension.live.length :: suspension.scopeMarks } }

/-- What a suspension has to save for a local that gets a slot. -/
def Suspension.saving (suspension : Suspension) (decl : LocalDecl) (slot : Nat) : Suspension :=
  { suspension with
    live := suspension.live ++ ((suspension.promoted.lookup decl.id).map fun field =>
      { slot, kind := decl.type.kind, field }).toList }

/-! ## Sequences of steps -/

section Sequences

variable {σ : Type} {before after : σ} {error : Error}

/-- Two steps in sequence succeed through a state in between. -/
theorem bind_ok
    {first : EStateM Error σ α} {next : α → EStateM Error σ β} {result : β} :
    (first >>= next) before = .ok result after ↔
      ∃ value between, first before = .ok value between ∧
        next value between = .ok result after := by
  change EStateM.bind first next before = _ ↔ _
  unfold EStateM.bind
  cases first before with
  | ok value between =>
    constructor
    · intro success
      exact ⟨value, between, rfl, success⟩
    · rintro ⟨_, _, ⟨⟩, success⟩
      exact success
  | error error between => simp

/-- Two steps in sequence fail if the first one does, or else the second one. -/
theorem bind_error {first : EStateM Error σ α} {next : α → EStateM Error σ β} :
    (first >>= next) before = .error error after ↔
      first before = .error error after ∨
        ∃ value between, first before = .ok value between ∧
          next value between = .error error after := by
  change EStateM.bind first next before = _ ↔ _
  unfold EStateM.bind
  cases first before with
  | ok value between => simp
  | error other between => simp

theorem pure_ok {value result : α} :
    (pure value : EStateM Error σ α) before = .ok result after ↔
      value = result ∧ before = after := by
  constructor
  · intro success
    cases success
    exact ⟨rfl, rfl⟩
  · rintro ⟨rfl, rfl⟩
    rfl

theorem throw_ok {result : α} :
    (throw error : EStateM Error σ α) before = .ok result after ↔ False :=
  ⟨(nomatch ·), False.elim⟩

/-- A run succeeds if it passes a test that no failure passes. -/
theorem exists_ok {outcome : EStateM.Result Error σ α} {test : α → σ → Bool}
    (passes : outcome.casesOn (motive := fun _ => Bool) test fun _ _ => false) :
    ∃ value state, outcome = .ok value state ∧ test value state := by
  cases outcome with
  | ok value state => exact ⟨value, state, rfl, passes⟩
  | error => contradiction

end Sequences

namespace Emit

variable {before after : Emission}
variable {result : Unit} {error : Error} {label : Label} {decl : LocalDecl}

/-- Two steps in sequence, the first one without a result. -/
theorem seq_ok
    {first : Emit Unit} {next : Unit → Emit β} {result : β} :
    (first >>= next) before = .ok result after ↔
      ∃ between, first before = .ok () between ∧ next () between = .ok result after := by
  simp only [bind_ok]
  exact ⟨fun ⟨_, rest⟩ => rest, fun rest => ⟨(), rest⟩⟩

theorem map_ok {step : Emit α} {change : α → β} {result : β} :
    (change <$> step) before = .ok result after ↔
      ∃ value, step before = .ok value after ∧ change value = result := by
  rw [← bind_pure_comp]
  simp only [bind_ok, pure_ok]
  constructor
  · rintro ⟨value, between, success, rfl, rfl⟩
    exact ⟨value, success, rfl⟩
  · rintro ⟨value, success, rfl⟩
    exact ⟨value, after, success, rfl, rfl⟩

theorem defect_ok {cause : Defect} {result : α} :
    (defect cause : Emit α) before = .ok result after ↔ False := throw_ok

theorem option_forM_some (value : α) (step : α → Emit Unit) :
    (some value).forM step = step value := rfl

/-- Reading one result off each value, in a way that may fail and leaves the state alone. -/
theorem mapM_ok
    (read : α → Option β) {step : α → Emit β}
    (reads : ∀ {value result before after},
      step value before = .ok result after ↔ read value = some result ∧ before = after)
    {values : List α} {results : List β} :
    values.mapM step before = .ok results after ↔
      values.map read = results.map some ∧ before = after := by
  induction values generalizing results before after with
  | nil =>
    rw [List.mapM_nil, pure_ok]
    cases results <;> simp
  | cons value values ih =>
    rw [List.mapM_cons]
    simp only [bind_ok, reads, pure_ok, ih]
    constructor
    · rintro ⟨result, _, ⟨found, rfl⟩, rest, _, ⟨others, rfl⟩, rfl, rfl⟩
      exact ⟨by simp [found, others], rfl⟩
    · rintro ⟨found, rfl⟩
      cases results with
      | nil => simp at found
      | cons result rest =>
        obtain ⟨head, tail⟩ := List.cons_eq_cons.mp found
        exact ⟨result, before, ⟨head, rfl⟩, rest, before, ⟨tail, rfl⟩, rfl, rfl⟩

/-! ## Access to the state -/

theorem method_ok {result : MethodContext} :
    method before = .ok result after ↔ before.method = result ∧ before = after := pure_ok

theorem method_bind (next : MethodContext → Emit α) (before : Emission) :
    (method >>= next) before = next before.method before := rfl

/-- A step that reads the method context comes to what follows. -/
theorem method_bind_eq
    {next : MethodContext → Emit α} {result : EStateM.Result Error Emission α} :
    (method >>= next) before = result ↔ next before.method before = result := Iff.rfl

theorem modifyMethod_ok {change : MethodContext → MethodContext} :
    modifyMethod change before = .ok result after ↔ before.mapMethod change = after := by
  constructor
  · intro success
    cases success
    rfl
  · rintro rfl
    rfl

theorem modifyClass_ok {change : ClassContext → ClassContext} :
    modifyClass change before = .ok result after ↔
      { before with cls := change before.cls } = after := by
  constructor
  · intro success
    cases success
    rfl
  · rintro rfl
    rfl

theorem takeClass_ok {take : ClassContext → α × ClassContext} {result : α} :
    takeClass take before = .ok result after ↔
      (take before.cls).1 = result ∧ { before with cls := (take before.cls).2 } = after := by
  constructor
  · intro success
    cases success
    exact ⟨rfl, rfl⟩
  · rintro ⟨rfl, rfl⟩
    rfl

theorem modifyCode_ok {change : Code → Code} :
    modifyCode change before = .ok result after ↔ before.mapCode change = after :=
  modifyMethod_ok

theorem takeCode_ok {take : Code → α × Code} {result : α} :
    takeCode take before = .ok result after ↔
      (take before.code).1 = result ∧ (before.mapCode fun code => (take code).2) = after := by
  constructor
  · intro success
    cases success
    exact ⟨rfl, rfl⟩
  · rintro ⟨rfl, rfl⟩
    rfl

/-- A change of the code succeeds where it can be made. -/
theorem tryCode_ok {change : Code → Except Error Code} :
    tryCode change before = .ok result after ↔
      ∃ code, change before.code = .ok code ∧ (before.mapCode fun _ => code) = after := by
  simp only [tryCode, bind_ok, method_ok]
  constructor
  · rintro ⟨_, _, ⟨rfl, rfl⟩, success⟩
    cases changed : change before.method.code with
    | ok code =>
      rw [changed] at success
      exact ⟨code, changed, modifyCode_ok.mp success⟩
    | error error =>
      rw [changed] at success
      exact (throw_ok.mp success).elim
  · rintro ⟨code, changed, rfl⟩
    refine ⟨_, _, ⟨rfl, rfl⟩, ?_⟩
    have same : change before.method.code = .ok code := changed
    rw [same]
    rfl

/-! ## Code, labels and slots -/

theorem emit_ok {instruction : Instruction} :
    emit instruction before = .ok result after ↔
      (before.mapCode fun code => code.emit instruction) = after := modifyCode_ok

theorem newLabel_ok :
    newLabel before = .ok label after ↔
      ⟨before.code.marks.size⟩ = label ∧
        (before.mapCode fun code => code.newLabel.2) = after := takeCode_ok

theorem here_ok :
    here before = .ok label after ↔
      ⟨before.code.marks.size⟩ = label ∧ (before.mapCode fun code => code.here.2) = after :=
  takeCode_ok

theorem mark_ok :
    mark label before = .ok result after ↔
      before.code.marks[label.index]? = some none ∧
        (before.mapCode fun code =>
          { code with marks := code.marks.setIfInBounds label.index (some code.size) }) =
            after := by
  simp only [mark, tryCode_ok, Code.mark_eq_ok_iff]
  constructor
  · rintro ⟨_, ⟨free, rfl⟩, rfl⟩
    exact ⟨free, rfl⟩
  · rintro ⟨free, rfl⟩
    exact ⟨_, ⟨free, rfl⟩, rfl⟩

theorem newTemp_ok {type : Ty} {slot : Nat} :
    newTemp type before = .ok slot after ↔
      (before.code.allocate none type).1 = slot ∧
        (before.mapCode fun code => (code.allocate none type).2) = after := takeCode_ok

/-- The labels that a statement gets if it has none. -/
def freshLabels (code : Code) : StmtLabels :=
  { start := ⟨code.marks.size⟩, next := ⟨code.marks.size + 1⟩, stop := ⟨code.marks.size + 2⟩ }

/-- A statement has labels already, or it is given the next three. -/
theorem labelsOf_cases
    {id : StmtId} {labels : StmtLabels}
    (success : labelsOf id before = .ok labels after) :
    (before.method.labels.get? id = some labels ∧ before = after) ∨
      (before.method.labels.get? id = none ∧ freshLabels before.code = labels ∧
        (before.mapMethod fun method =>
          { method with
            code :=
              { method.code with marks := ((method.code.marks.push none).push none).push none }
            labels := method.labels.insert id labels }) = after) := by
  simp only [labelsOf, bind_ok, method_ok, modifyMethod_ok, pure_ok] at success
  obtain ⟨_, _, ⟨rfl, rfl⟩, ⟨_, table⟩, _, allocation, _, _, rfl, rfl, rfl⟩ := success
  cases found : before.method.labels.get? id with
  | some known =>
    simp only [LabelTable.getOrAllocate, found, pure_ok, Prod.mk.injEq] at allocation
    obtain ⟨⟨rfl, rfl⟩, rfl⟩ := allocation
    exact .inl ⟨rfl, rfl⟩
  | none =>
    simp only [LabelTable.getOrAllocate, found, bind_ok, newLabel_ok, pure_ok,
      Prod.mk.injEq] at allocation
    obtain ⟨_, _, ⟨rfl, rfl⟩, _, _, ⟨rfl, rfl⟩, _, _, ⟨rfl, rfl⟩, ⟨rfl, rfl⟩, rfl⟩ := allocation
    refine .inr ⟨rfl, ?_, ?_⟩
    · simp [freshLabels, Code.newLabel]
    · simp [Emission.mapCode, Emission.mapMethod, Code.newLabel]

/-! ## Scopes -/

theorem enterScope_ok :
    enterScope before = .ok result after ↔
      before.mapMethod MethodContext.enterScope = after := by
  simp only [enterScope, seq_ok, modifyCode_ok, modifyMethod_ok]
  constructor
  · rintro ⟨_, rfl, rfl⟩
    rfl
  · rintro rfl
    exact ⟨_, rfl, rfl⟩

/-- Closing a scope ends its locals and forgets the slots that were saved in it. -/
theorem exitScope_cases (success : exitScope before = .ok result after) :
    ∃ scope outer, before.code.scopes = scope :: outer ∧
      ((before.method.suspension = none ∧
        (before.mapCode fun code => code.closeScope scope outer) = after) ∨
      ∃ suspension mark marks,
        before.method.suspension = some suspension ∧ suspension.scopeMarks = mark :: marks ∧
          (before.mapMethod fun method =>
            { method with
              code := method.code.closeScope scope outer
              suspension :=
                some { suspension with live := suspension.live.take mark, scopeMarks := marks } }) =
            after) := by
  simp only [exitScope, bind_ok, tryCode_ok, method_ok] at success
  obtain ⟨_, _, ⟨closed, closing, rfl⟩, _, _, ⟨rfl, rfl⟩, rest⟩ := success
  unfold Code.exitScope at closing
  split at closing
  · contradiction
  · next scope outer scopes =>
    cases closing
    refine ⟨scope, outer, scopes, ?_⟩
    cases suspended : before.method.suspension with
    | none =>
      simp only [Emission.method_mapCode, suspended, pure_ok] at rest
      exact .inl ⟨rfl, rest.2⟩
    | some suspension =>
      simp only [Emission.method_mapCode, suspended] at rest
      cases marks : suspension.scopeMarks with
      | nil =>
        simp only [marks, throw_ok] at rest
      | cons mark marks =>
        simp only [marks, modifyMethod_ok] at rest
        exact .inr ⟨suspension, mark, _, rfl, marks, rest⟩

/-! ## Locals -/

/-- A local that gets a slot is saved at suspensions if it has a field to be saved in. -/
theorem declareSlot_ok
    {access : LocalAccess}
    (success : declareSlot decl before = .ok access after) :
    access = .slot (before.code.allocate (some decl.name) decl.type).1 decl.type.kind ∧
      after = before.mapMethod fun method =>
        { method with
          code := (method.code.allocate (some decl.name) decl.type).2
          suspension := method.suspension.map fun suspension =>
            suspension.saving decl (before.code.allocate (some decl.name) decl.type).1
          locals := (decl.id, access) :: method.locals } := by
  simp only [declareSlot, promotedField?, bind_ok, takeCode_ok, method_ok, pure_ok] at success
  obtain ⟨slot, _, ⟨rfl, rfl⟩, field, _, ⟨_, _, ⟨rfl, rfl⟩, looked, rfl⟩, rest⟩ := success
  cases field with
  | some field =>
    obtain ⟨_, saved, rest⟩ := seq_ok.mp rest
    obtain ⟨_, set, rest⟩ := seq_ok.mp rest
    obtain rfl := modifyMethod_ok.mp saved
    obtain rfl := modifyMethod_ok.mp set
    obtain ⟨rfl, rfl⟩ := pure_ok.mp rest
    obtain ⟨suspension, suspended, found⟩ := Option.bind_eq_some_iff.mp looked
    refine ⟨rfl, ?_⟩
    have same : before.method.suspension = some suspension := suspended
    simp only [Emission.mapCode, Emission.mapMethod, same, Option.map_some,
      Suspension.saving, found]
    rfl
  | none =>
    obtain ⟨_, set, rest⟩ := seq_ok.mp rest
    obtain rfl := modifyMethod_ok.mp set
    obtain ⟨rfl, rfl⟩ := pure_ok.mp rest
    refine ⟨rfl, ?_⟩
    cases suspended : before.method.suspension with
    | none =>
      simp only [Emission.mapCode, Emission.mapMethod, suspended, Option.map_none]
    | some suspension =>
      have absent : suspension.promoted.lookup decl.id = none := by
        simpa [suspended] using looked
      simp only [Emission.mapCode, Emission.mapMethod, suspended, Option.map_some,
        Suspension.saving, absent, Option.map_none, Option.toList_none, List.append_nil]

/-- A captured local keeps its field, and another one gets a slot. -/
theorem declareLocal_cases
    {access : LocalAccess}
    (success : declareLocal decl before = .ok access after) :
    (∃ holder path, before.method.locals.lookup decl.id = some (.captured holder path) ∧
      access = .captured holder path ∧ before = after) ∨
    ((∀ holder path, before.method.locals.lookup decl.id ≠ some (.captured holder path)) ∧
      declareSlot decl before = .ok access after) := by
  simp only [declareLocal, bind_ok, method_ok] at success
  obtain ⟨_, _, ⟨rfl, rfl⟩, rest⟩ := success
  cases found : before.method.locals.lookup decl.id with
  | none =>
    rw [found] at rest
    exact .inr ⟨nofun, rest⟩
  | some known =>
    rw [found] at rest
    cases known with
    | slot slot kind => exact .inr ⟨nofun, rest⟩
    | captured holder path =>
      obtain ⟨rfl, rfl⟩ := pure_ok.mp rest
      exact .inl ⟨holder, path, rfl, rfl, rfl⟩

/-- Giving a local its storage never fails. -/
theorem declareLocal_ne_error :
    declareLocal decl before ≠ .error error after := by
  have slot : ∀ {before after}, declareSlot decl before ≠ .error error after := by
    intro before after failure
    obtain failure | ⟨_, _, -, failure⟩ := bind_error.mp failure
    · cases failure
    · obtain failure | ⟨field, _, -, failure⟩ := bind_error.mp failure
      · cases failure
      · cases field <;> cases failure
  intro failure
  obtain failure | ⟨found, _, -, failure⟩ := bind_error.mp failure
  · cases failure
  · cases known : found.locals.lookup decl.id with
    | none => exact slot (by simpa only [known] using failure)
    | some access =>
      cases access with
      | slot _ kind => exact slot (by simpa only [known] using failure)
      | captured holder path => simp only [known] at failure; cases failure

/-! ## Case labels -/

theorem caseConstant_ok {label : Expr} {result : Const} :
    caseConstant label before = .ok result after ↔
      label.constant? = some result ∧ before = after := by
  unfold caseConstant
  cases label.constant? with
  | some value => simp [pure_ok]
  | none => simp [throw_ok]

/-- A case has a value if its label is a constant of the right type. -/
theorem caseValue_ok {read : Const → Option α} {label : Expr} {result : α} :
    caseValue read label before = .ok result after ↔
      label.constant?.bind read = some result ∧ before = after := by
  simp only [caseValue, bind_ok, caseConstant_ok]
  constructor
  · rintro ⟨value, _, ⟨found, rfl⟩, success⟩
    cases readable : read value with
    | none =>
      rw [readable] at success
      exact (throw_ok.mp success).elim
    | some key =>
      rw [readable] at success
      obtain ⟨rfl, rfl⟩ := pure_ok.mp success
      exact ⟨by rw [found, Option.bind_some, readable], rfl⟩
  · rintro ⟨found, rfl⟩
    obtain ⟨value, known, readable⟩ := Option.bind_eq_some_iff.mp found
    refine ⟨value, before, ⟨known, rfl⟩, ?_⟩
    rw [readable]
    rfl

/-- What a label of a section contributes to an integral switch; the default is no key. -/
def sectionKey? (entry : Option Expr × Label) : Option (Option (Int32 × Label)) :=
  match entry.1 with
  | none => some none
  | some label => (label.constant?.bind Const.switchKey?).map fun key => some (key, entry.2)

/-- Reading the keys of a switch leaves the state alone, and every label but the default has one. -/
theorem integralPairs_ok
    {sections : List Section} {starts : List Label} {pairs : List (Int32 × Label)}
    (success : integralPairs sections starts before = .ok pairs after) :
    before = after ∧ ∃ keys : List (Option (Int32 × Label)),
      (labeledSections sections starts).map sectionKey? = keys.map some ∧
        keys.filterMap (fun key => key) = pairs := by
  simp only [integralPairs, bind_ok, pure_ok] at success
  obtain ⟨keys, _, reading, rfl, rfl⟩ := success
  rw [mapM_ok sectionKey?] at reading
  · obtain ⟨read, rfl⟩ := reading
    exact ⟨rfl, keys, read, rfl⟩
  · rintro ⟨label, start⟩ result between next
    cases label with
    | none => simp [sectionKey?, pure_ok]
    | some label =>
      simp only [sectionKey?, bind_ok, caseValue_ok, pure_ok, Option.map_eq_some_iff]
      constructor
      · rintro ⟨key, _, ⟨found, rfl⟩, rfl, rfl⟩
        exact ⟨⟨key, found, rfl⟩, rfl⟩
      · rintro ⟨⟨key, found, rfl⟩, rfl⟩
        exact ⟨key, between, ⟨found, rfl⟩, rfl, rfl⟩

/-- What a switch does with its sections once there is code that dispatches to them. -/
def lowerPlaced
    (lower : Lowering)
    (id : StmtId)
    (cases : CaseMap)
    (placed : List (Section × Label))
    (stop : Label) :
    Emit Unit := do
  pushSwitch id cases
  pushFrame id .switch
  placed.forM fun entry => do
    mark entry.2
    entry.1.body.forM lower
  popFrame
  popSwitch
  mark stop

/-- Finishing changes nothing. -/
theorem finish_ok {body : MethodBody} :
    finish before = .ok body after ↔ before.code.finish = .ok body ∧ before = after := by
  simp only [finish, bind_ok, method_ok]
  constructor
  · rintro ⟨_, _, ⟨rfl, rfl⟩, success⟩
    cases finished : before.method.code.finish with
    | ok found =>
      rw [finished] at success
      obtain ⟨rfl, rfl⟩ := pure_ok.mp success
      exact ⟨finished, rfl⟩
    | error error =>
      rw [finished] at success
      exact (throw_ok.mp success).elim
  · rintro ⟨finished, rfl⟩
    refine ⟨_, _, ⟨rfl, rfl⟩, ?_⟩
    have same : before.method.code.finish = .ok body := finished
    rw [same]
    rfl

end Emit

end StackCode
