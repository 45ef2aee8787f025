import StackCode.Proofs.Advance
import StackCode.Proofs.Ancestry
import StackCode.Proofs.Runs

/-!
# Suspension points in code

While the body of an iterator is lowered, its suspension points are numbered in
the order in which they are met.  A run is described by the places at which it
emits suspension points.  They come in the order of the source, each has the next
number, and no other code writes the fields in which the iteration itself is
kept, but for the code that ends it.
-/

namespace StackCode

variable {number : Nat} {suspension : Suspension}

/-! ## Suspension points in the source -/

namespace Stmt

/-- The statement hands out an element. -/
def isElement : Stmt → Bool
  | .yield _ (some _) => true
  | _ => false

/-- The statements inside a statement that hand out an element, in the order of the source. -/
def elements (stmt : Stmt) : List Stmt := stmt.statements.filter isElement

theorem elements_eq (stmt : Stmt) :
    stmt.elements = [stmt].filter isElement ++ stmt.children.flatMap elements := by
  rw [elements, statements_eq, ← List.singleton_append, List.filter_append, List.filter_flatMap]
  rfl

/-- The elements are counted among the visits. -/
theorem countP_isYield (visits : List Visit) :
    visits.countP Visit.isYield =
      (((visits.filter Visit.isStmt).filterMap Visit.entered?).filter isElement).length := by
  induction visits with
  | nil => rfl
  | cons visit visits ih =>
    rw [List.countP_cons, ih]
    cases visit with
    | enter stmt =>
      simp only [List.filter_cons, Visit.isStmt_enter, if_true, List.filterMap_cons, Visit.entered?]
      cases stmt with
      | yield tag value => cases value <;> rfl
      | _ => rfl
    | _ => rfl

/-- The points of resumption are counted by the suspension points of the source. -/
theorem length_elements (stmt : Stmt) : stmt.elements.length = stmt.countYields :=
  (countP_isYield (stmt.visits false)).symm

end Stmt

/-! ## Suspension points in code -/

/-- A place at which an element is handed out. -/
structure Site where
  /-- The statement. -/
  stmt : Stmt
  /-- Where its code begins. -/
  start : Nat
  /-- Where its number is stored. -/
  write : Nat
  /-- Where the method goes on when it is resumed. -/
  stop : Nat

/-- The instructions evaluate an expression. -/
def Emit.Evaluates (expr : Expr) (instructions : List Instruction) : Prop :=
  ∃ before after, pushValue expr before = .ok () after ∧
    after.code.instructions.toList = before.code.instructions.toList ++ instructions

/-- The name is none of those of the fields in which an iteration is kept. -/
def IsOrdinary (name : String) : Prop := name ≠ stateFieldName ∧ name ≠ currentFieldName

namespace Suspension

/-- The field is none of those in which the iteration itself is kept. -/
def Spares (machine : Suspension) (field : FieldRef) : Prop :=
  field.owner = machine.className → IsOrdinary field.name

/-- The fields in which the iteration is kept have their names, and no local has one of them. -/
structure Named (machine : Suspension) : Prop where
  state : machine.state = .ofErased machine.className stateFieldName (.prim .int)
  current : ∃ type, machine.current = .ofErased machine.className currentFieldName type
  promoted : ∀ entry ∈ machine.promoted, machine.Spares entry.2

/-- What stays the same of a suspension while a method is lowered. -/
def fixed (suspension : Suspension) : Suspension :=
  { suspension with live := [], scopeMarks := [], spills := [] }

/-- The instructions that note the end of the iteration and return false. -/
def ending (machine : Suspension) : List Instruction :=
  [.load .reference 0, .push (.int (-1)), .putField machine.state, .plain .iconst0, .plain .ireturn]

/-- The end of the iteration is noted at a position, and false is returned. -/
def FinishesAt (machine : Suspension) (code : Code) (position : Nat) : Prop :=
  2 ≤ position ∧ code.Holds (position - 2) machine.ending ∧ code.Sealed position

/-- An element is handed out at a place under a number, and the method is resumed after that. -/
def SuspendsAt (machine : Suspension) (code : Code) (number : Nat) (site : Site) : Prop :=
  ∃ tag value evaluation saves resume,
    site.stmt = .yield tag (some value) ∧
      Emit.Evaluates value evaluation ∧
      code.Holds site.start
        ([.load .reference 0] ++ evaluation ++
          [.putField machine.current, .load .reference 0, .push (.int (.ofNat number)),
            .putField machine.state] ++ saves ++
          [.plain .iconst1, .plain .ireturn]) ∧
      site.write = site.start + evaluation.length + 4 ∧
      site.stop = site.write + saves.length + 3 ∧
      machine.resume[number]? = some resume ∧
      code.position? resume = some site.stop ∧
      code.Sealed site.write

variable {machine : Suspension} {before after : Code}

theorem FinishesAt.advances {position : Nat} (finishes : machine.FinishesAt before position)
    (advances : before.Advances after) : machine.FinishesAt after position := by
  obtain ⟨later, held, closed⟩ := finishes
  refine ⟨later, advances.holds held, advances.sealed closed ?_⟩
  have length := held.length_le
  simp only [ending, List.length_drop, List.length_cons, List.length_nil] at length
  unfold Code.size
  rw [← Array.length_toList]
  omega

/-- A suspension stays where it is while code is added. -/
theorem SuspendsAt.advances {site : Site}
    (suspends : machine.SuspendsAt before number site) (advances : before.Advances after) :
    machine.SuspendsAt after number site := by
  obtain ⟨tag, value, evaluation, saves, resume, stmt, evaluates, held, write, stop,
    numbered, bound, closed⟩ := suspends
  refine ⟨tag, value, evaluation, saves, resume, stmt, evaluates, advances.holds held, write, stop,
    numbered, advances.grows.marks _ _ bound, advances.sealed closed ?_⟩
  have length := held.length_le
  simp only [List.length_drop, List.length_append, List.length_cons, List.length_nil] at length
  unfold Code.size
  rw [← Array.length_toList]
  omega

end Suspension

/-! ## Runs that suspend -/

/-- The fields that were made up for temporaries so far. -/
def MethodContext.spills (method : MethodContext) : List FieldDef :=
  (method.suspension.map Suspension.spills).getD []

/-- The fields for temporaries have the numbers of their places in their names. -/
def SpillsNumbered (spills : List FieldDef) : Prop :=
  spills.map FieldDef.name = (List.range spills.length).map fun count => "$tmp$" ++ toString count

theorem isOrdinary_spill (count : Nat) : IsOrdinary ("$tmp$" ++ toString count) := by
  constructor
  · intro same
    have first := congrArg (fun text => text.toList.head?) same
    simp [stateFieldName] at first
  · intro same
    have first := congrArg (fun text => text.toList.head?) same
    simp [currentFieldName] at first

theorem SpillsNumbered.isOrdinary
    {spills : List FieldDef}
    (numbered : SpillsNumbered spills)
    {spill : FieldDef}
    (member : spill ∈ spills) :
    IsOrdinary spill.name := by
  have listed : spill.name ∈ spills.map FieldDef.name := List.mem_map_of_mem member
  rw [numbered] at listed
  obtain ⟨count, -, same⟩ := List.mem_map.mp listed
  rw [← same]
  exact isOrdinary_spill count

theorem SpillsNumbered.concat
    {spills : List FieldDef}
    (numbered : SpillsNumbered spills)
    {spill : FieldDef}
    (name : spill.name = "$tmp$" ++ toString spills.length) :
    SpillsNumbered (spills ++ [spill]) := by
  unfold SpillsNumbered at *
  rw [List.map_append, numbered, List.length_append, List.length_singleton, List.range_succ,
    List.map_append, List.map_singleton, List.map_singleton, name]

/-- What is known of the method of an iterator wherever it is being lowered. -/
structure MethodContext.Iterates (machine : Suspension) (method : MethodContext) : Prop where
  /-- The method is that of the iterator. -/
  fixed : method.suspension.map Suspension.fixed = some machine.fixed
  /-- What is saved at suspensions leaves the iteration alone. -/
  live : ∀ saved ∈ method.live, machine.Spares saved.field
  /-- What is made up for temporaries leaves the iteration alone. -/
  spills : SpillsNumbered method.spills
  /-- What is stored into locals leaves the iteration alone. -/
  stores : method.StoresTo machine.Spares

/-- The fields and the points of resumption are those of the machine. -/
theorem MethodContext.Iterates.agrees
    {machine : Suspension} {method : MethodContext}
    (iterates : method.Iterates machine)
    (suspended : method.suspension = some suspension) :
    suspension.state = machine.state ∧ suspension.current = machine.current ∧
      suspension.resume = machine.resume ∧ suspension.promoted = machine.promoted := by
  have fixed := iterates.fixed
  rw [suspended, Option.map_some, Option.some.injEq] at fixed
  unfold Suspension.fixed at fixed
  injection fixed with _ state current resume _ _ _ promoted
  exact ⟨state, current, resume, promoted⟩

/-- The method of an iterator is being lowered. -/
structure Iterating (machine : Suspension) (state : Emission) : Prop where
  method : state.method.Iterates machine
  bounded : state.code.Bounded

/-- A run that suspends at the given places. -/
structure Suspends (machine : Suspension) (before after : Emission) (sites : List Site) :
    Prop where
  advances : before.code.Advances after.code
  finallyDepth : after.method.finallyDepth = before.method.finallyDepth
  /-- Every place takes a number. -/
  count : after.method.yieldCount = before.method.yieldCount + sites.length
  /-- A finally body does not suspend. -/
  outside : 0 < before.method.finallyDepth → sites = []
  /-- The places lie in the code of the run, one after the other. -/
  within : ∀ site ∈ sites, before.size ≤ site.start ∧ site.stop ≤ after.size
  ordered : sites.Pairwise fun first second => first.stop ≤ second.start
  numbered : ∀ index site, sites[index]? = some site →
    machine.SuspendsAt after.code (before.method.yieldCount + index + 1) site
  /-- Nothing else writes the fields of the iteration, but for the ends. -/
  writes : ∀ position field, before.size ≤ position →
    after.code.instructions[position]? = some (.putField field) → field.isStatic = false →
      machine.Spares field ∨ machine.FinishesAt after.code position ∨
        ∃ site ∈ sites, position = site.write ∨ position = site.write - 3

namespace Suspends

variable {machine : Suspension} {before between after : Emission} {sites sites' : List Site}

/-- A run without suspension points, in which no field of the iteration is written. -/
theorem quiet
    (advances : before.code.Advances after.code)
    (finallyDepth : after.method.finallyDepth = before.method.finallyDepth)
    (count : after.method.yieldCount = before.method.yieldCount)
    (writes : Emit.WritesOnly machine.Spares before.size after.code) :
    Suspends machine before after [] where
  advances := advances
  finallyDepth := finallyDepth
  count := count
  outside := fun _ => rfl
  within := nofun
  ordered := .nil
  numbered := by simp
  writes := fun position field later written isInstance =>
    .inl (writes position field later written isInstance)

/-- The places of two runs follow each other. -/
theorem trans
    (first : Suspends machine before between sites)
    (second : Suspends machine between after sites') :
    Suspends machine before after (sites ++ sites') where
  advances := first.advances.trans second.advances
  finallyDepth := second.finallyDepth.trans first.finallyDepth
  count := by
    rw [second.count, first.count, List.length_append]
    omega
  outside := by
    intro inside
    rw [first.outside inside, second.outside (first.finallyDepth ▸ inside)]
    rfl
  within := by
    intro site member
    have sizes := first.advances.grows.size_le
    have laterSizes := second.advances.grows.size_le
    unfold Emission.size at *
    obtain member | member := List.mem_append.mp member
    · have inside := first.within site member
      unfold Emission.size at inside
      omega
    · have inside := second.within site member
      unfold Emission.size at inside
      omega
  ordered := by
    rw [List.pairwise_append]
    refine ⟨first.ordered, second.ordered, ?_⟩
    intro site member other otherMember
    exact (first.within site member).2.trans (second.within other otherMember).1
  numbered := by
    intro index site found
    by_cases early : index < sites.length
    · rw [List.getElem?_append_left early] at found
      exact (first.numbered index site found).advances second.advances
    · rw [List.getElem?_append_right (by omega)] at found
      have numbered := second.numbered (index - sites.length) site found
      rw [first.count] at numbered
      have same : before.method.yieldCount + sites.length + (index - sites.length) + 1 =
          before.method.yieldCount + index + 1 := by omega
      rwa [same] at numbered
  writes := by
    intro position field later written isInstance
    by_cases passed : position < between.size
    · have there : between.code.instructions[position]? =
          some between.code.instructions[position] := Array.getElem?_eq_getElem passed
      have same := second.advances.grows.getElem? there
      rw [written] at same
      rw [← same] at there
      obtain spares | finishes | ⟨site, member, place⟩ :=
        first.writes position field later there isInstance
      · exact .inl spares
      · exact .inr (.inl (finishes.advances second.advances))
      · exact .inr (.inr ⟨site, List.mem_append_left _ member, place⟩)
    · obtain spares | finishes | ⟨site, member, place⟩ :=
        second.writes position field (by omega) written isInstance
      · exact .inl spares
      · exact .inr (.inl finishes)
      · exact .inr (.inr ⟨site, List.mem_append_right _ member, place⟩)

end Suspends

/-! ## Transitions that do not suspend -/

/-- Code is emitted and things are kept track of, and the iteration is left alone. -/
structure Drifts (machine : Suspension) (before after : Emission) : Prop where
  advances : before.code.Advances after.code
  writes : Emit.WritesOnly machine.Spares before.size after.code
  finallyDepth : after.method.finallyDepth = before.method.finallyDepth
  yieldCount : after.method.yieldCount = before.method.yieldCount
  iterates : before.method.Iterates machine → after.method.Iterates machine

namespace Drifts

variable {machine : Suspension} {before between after : Emission}

theorem trans (first : Drifts machine before between) (second : Drifts machine between after) :
    Drifts machine before after where
  advances := first.advances.trans second.advances
  writes := .trans second.advances first.writes second.writes
  finallyDepth := second.finallyDepth.trans first.finallyDepth
  yieldCount := second.yieldCount.trans first.yieldCount
  iterates := fun iterates => second.iterates (first.iterates iterates)

/-- Something changes that an iteration does not depend on, and no instruction is emitted. -/
theorem mapMethod
    {change : MethodContext → MethodContext} (state : Emission)
    (advances : state.code.Advances (change state.method).code)
    (instructions : (change state.method).code.instructions = state.code.instructions)
    (finallyDepth : (change state.method).finallyDepth = state.method.finallyDepth)
    (yieldCount : (change state.method).yieldCount = state.method.yieldCount)
    (suspension : (change state.method).suspension = state.method.suspension)
    (locals : (change state.method).locals = state.method.locals) :
    Drifts machine state (state.mapMethod change) where
  advances := advances
  writes := .of_eq instructions
  finallyDepth := finallyDepth
  yieldCount := yieldCount
  iterates := by
    intro iterates
    refine ⟨?_, ?_, ?_, ?_⟩
    · rw [Emission.method_mapMethod, suspension]
      exact iterates.fixed
    · rw [Emission.method_mapMethod, MethodContext.live, suspension]
      exact iterates.live
    · rw [Emission.method_mapMethod, MethodContext.spills, suspension]
      exact iterates.spills
    · rw [Emission.method_mapMethod, MethodContext.StoresTo, locals]
      exact iterates.stores

theorem refl (state : Emission) : Drifts machine state state where
  advances := .refl _
  writes := .of_eq rfl
  finallyDepth := rfl
  yieldCount := rfl
  iterates := id

theorem iterating (drifts : Drifts machine before after) (iterating : Iterating machine before) :
    Iterating machine after where
  method := drifts.iterates iterating.method
  bounded := iterating.bounded.advances drifts.advances

theorem suspends (drifts : Drifts machine before after) : Suspends machine before after [] :=
  .quiet drifts.advances drifts.finallyDepth drifts.yieldCount drifts.writes

end Drifts

namespace Emit

variable {before after : Emission} {machine : Suspension}
variable {field : FieldRef} {span : Span} {value : Expr}

/-- The step leaves the iteration alone. -/
def Drifting (machine : Suspension) (step : Emit α) : Prop :=
  ∀ before value after, Iterating machine before → step before = .ok value after →
    Drifts machine before after

namespace Drifting

variable {machine : Suspension}
variable {step : Emit α}

theorem bind {first : Emit α} {next : α → Emit β} (firstDrifting : Drifting machine first)
    (nextDrifting : ∀ value, Drifting machine (next value)) :
    Drifting machine (first >>= next) := by
  intro before value after iterating success
  obtain ⟨result, between, firstSuccess, nextSuccess⟩ := bind_ok.mp success
  have drifts := firstDrifting _ _ _ iterating firstSuccess
  exact drifts.trans (nextDrifting result _ _ _ (drifts.iterating iterating) nextSuccess)

/-- Plain steps that spare the fields of the iteration. -/
theorem plain {labels : List Label}
    (stepPlain : Plain machine.Spares .any (fun _ => True) labels step) :
    Drifting machine step := by
  intro before value after iterating success
  obtain ⟨advances, writes⟩ := stepPlain.advances iterating.method.stores success
  have unchanged := stepPlain.method_eq iterating.method.stores success
  refine
    { advances := advances
      writes := writes
      finallyDepth := by rw [unchanged]
      yieldCount := by rw [unchanged]
      iterates := ?_ }
  rw [unchanged]
  exact fun iterates => ⟨iterates.fixed, iterates.live, iterates.spills, iterates.stores⟩

/-- Code is emitted in which only labels of its own are bound. -/
theorem code (stepPlain : Plain machine.Spares .any (fun _ => True) [] step) :
    Drifting machine step :=
  plain stepPlain

theorem pure (value : α) : Drifting machine (pure value : Emit α) := code (.pure value)

theorem method : Drifting machine method := by
  intro before _ after _ success
  obtain ⟨-, rfl⟩ := method_ok.mp success
  exact .refl before

theorem here : Drifting machine here := by
  intro before label after _ success
  obtain ⟨-, rfl⟩ := here_ok.mp success
  exact .mapMethod before (.here _) rfl rfl rfl rfl rfl

theorem labelsOf (id : StmtId) : Drifting machine (labelsOf id) := by
  intro before labels after _ success
  obtain ⟨-, rfl⟩ | ⟨-, -, rfl⟩ := labelsOf_cases success
  · exact .refl before
  · refine .mapMethod before ?_ rfl rfl rfl rfl rfl
    exact .trans (.newLabel before.code) (.trans (.newLabel _) (.newLabel _))

theorem protect (segments : List (Label × Label)) (handler : Label) (catchType : Option Ty) :
    Drifting machine (protect segments handler catchType) := by
  unfold Emit.protect
  induction segments with
  | nil => exact pure _
  | cons segment segments ih =>
    refine bind ?_ fun _ => ih
    intro before _ after _ success
    obtain rfl := modifyCode_ok.mp success
    exact .mapMethod before (.of_marks (.addRegion _ _) rfl) rfl rfl rfl rfl rfl

/-- A slot is saved in a field of its own. -/
theorem saveSlot {saved : SavedSlot} (spares : machine.Spares saved.field) :
    Drifting machine (saveSlot saved) := by
  intro before _ after _ success
  obtain rfl := modifyMethod_ok.mp success
  refine { Drifts.refl before with iterates := fun iterates => ⟨?_, ?_, ?_, iterates.stores⟩ }
  · rw [← iterates.fixed]
    simp only [Emission.method_mapMethod, Option.map_map]
    rfl
  · intro other member
    simp only [MethodContext.live, Emission.method_mapMethod, Option.map_map] at member
    cases suspended : before.method.suspension with
    | none => simp [suspended] at member
    | some suspension =>
      simp only [suspended, Option.map_some, Option.getD_some, Function.comp,
        List.mem_append, List.mem_singleton] at member
      obtain member | rfl := member
      · exact iterates.live other (by simpa [MethodContext.live, suspended] using member)
      · exact spares
  · rw [MethodContext.spills, Emission.method_mapMethod, Option.map_map]
    exact iterates.spills

theorem setAccess (id : LocalId) (slot : Nat) (kind : ValueKind) :
    Drifting machine (setAccess id (.slot slot kind)) := by
  intro before _ after _ success
  obtain rfl := modifyMethod_ok.mp success
  refine { Drifts.refl before with iterates := fun iterates => ⟨?_, ?_, ?_, ?_⟩ }
  · exact iterates.fixed
  · exact iterates.live
  · exact iterates.spills
  · intro other holder path field found last
    simp only [Emission.method_mapMethod, List.lookup_cons] at found
    split at found
    · cases found
    · exact iterates.stores other holder path field found last

theorem promotedField? (id : LocalId) : Drifting machine (promotedField? id) :=
  bind .method fun _ => pure _

/-- The field of a promoted local is one that the machine knows of. -/
theorem spares_promotedField?
    (named : machine.Named)
    {before after : Emission}
    (iterating : Iterating machine before)
    {id : LocalId}
    (success : Emit.promotedField? id before = .ok (some field) after) :
    machine.Spares field := by
  have rest := method_bind_eq.mp success
  obtain ⟨found, rfl⟩ := pure_ok.mp rest
  obtain ⟨suspension, suspended, known⟩ := Option.bind_eq_some_iff.mp found
  have entry : machine.promoted.lookup id = some field :=
    (iterating.method.agrees suspended).2.2.2 ▸ known
  obtain ⟨first, second, split, -⟩ := List.lookup_eq_some_iff.mp entry
  exact named.promoted (id, field) (by simp [split])

/-- A local is declared in its slot or in its own field. -/
theorem declareLocal (named : machine.Named) (decl : LocalDecl) :
    Drifting machine (declareLocal decl) := by
  refine bind .method fun _ => ?_
  split
  · exact pure _
  · refine bind (code (.allocate _ _)) fun slot => ?_
    intro before access after iterating success
    obtain ⟨field, between, looked, rest⟩ := bind_ok.mp success
    have first := promotedField? decl.id _ _ _ iterating looked
    refine first.trans ?_
    cases field with
    | none =>
      exact bind (setAccess _ _ _) (fun _ => pure _) _ _ _ (first.iterating iterating) rest
    | some field =>
      have spares := spares_promotedField? named iterating looked
      have saved : Drifting machine (Emit.saveSlot { slot, kind := decl.type.kind, field }) :=
        saveSlot spares
      exact bind saved (fun _ => bind (setAccess _ _ _) fun _ => pure _) _ _ _
        (first.iterating iterating) rest

/-- A temporary gets a field with an ordinary name. -/
theorem newSpillTemp (type : Ty) (spans : Bool) : Drifting machine (newSpillTemp type spans) := by
  refine bind (code (.newTemp type)) fun slot => ?_
  intro before value after iterating success
  have rest := method_bind_eq.mp success
  cases suspended : before.method.suspension with
  | none =>
    rw [suspended] at rest
    exact pure slot _ _ _ iterating rest
  | some suspension =>
    rw [suspended] at rest
    cases spans with
    | false => exact pure slot _ _ _ iterating rest
    | true =>
      obtain ⟨between, spilled, rest⟩ := seq_ok.mp rest
      have first : Drifts machine before between := by
        obtain rfl := modifyMethod_ok.mp spilled
        refine { Drifts.refl before with iterates := fun iterates => ⟨?_, ?_, ?_, ?_⟩ }
        · rw [← iterates.fixed, suspended]
          rfl
        · simpa [MethodContext.live, suspended] using iterates.live
        · have numbered : SpillsNumbered suspension.spills := by
            simpa [MethodContext.spills, suspended] using iterates.spills
          exact numbered.concat rfl
        · exact iterates.stores
      refine first.trans ?_
      exact bind (saveSlot fun _ => isOrdinary_spill _) (fun _ => pure slot) _ _ _
        (first.iterating iterating) rest

/-- A scope remembers how many slots are saved. -/
theorem enterScope : Drifting machine enterScope := by
  intro before _ after _ success
  obtain rfl := enterScope_ok.mp success
  refine { advances := ?_, writes := ?_, finallyDepth := rfl, yieldCount := rfl, iterates := ?_ }
  · exact .of_marks (.of_eq rfl rfl rfl) rfl
  · exact .of_eq rfl
  · intro iterates
    refine ⟨?_, ?_, ?_, iterates.stores⟩
    · rw [← iterates.fixed, Emission.method_mapMethod, MethodContext.enterScope, Option.map_map]
      rfl
    · rw [Emission.method_mapMethod, MethodContext.enterScope, MethodContext.live, Option.map_map]
      exact iterates.live
    · rw [Emission.method_mapMethod, MethodContext.enterScope, MethodContext.spills, Option.map_map]
      exact iterates.spills

/-- The slots of a scope are no longer saved behind it. -/
theorem exitScope : Drifting machine exitScope := by
  intro before _ after _ success
  obtain ⟨scope, outer, -, ⟨-, rfl⟩ | ⟨suspension, mark, marks, suspended, -, rfl⟩⟩ :=
    exitScope_cases success
  · exact .mapMethod before (.of_marks (.closeScope _ _ _) rfl) rfl rfl rfl rfl rfl
  · refine { advances := ?_, writes := ?_, finallyDepth := rfl, yieldCount := rfl, iterates := ?_ }
    · exact .of_marks (.closeScope _ _ _) rfl
    · exact .of_eq rfl
    · intro iterates
      refine ⟨?_, ?_, ?_, iterates.stores⟩
      · rw [← iterates.fixed, suspended]
        rfl
      · intro saved member
        refine iterates.live saved ?_
        rw [MethodContext.live, suspended]
        exact List.mem_of_mem_take member
      · simpa [MethodContext.spills, suspended] using iterates.spills

theorem modifyRegion (region : RegionId) (change : OpenRegion → OpenRegion) :
    Drifting machine (modifyRegion region change) := by
  refine bind .method fun method => ?_
  split
  · intro before _ after _ success
    obtain rfl := modifyMethod_ok.mp success
    exact .mapMethod before (.refl _) rfl rfl rfl rfl rfl
  · exact code (.fail rfl)

theorem suspendRegion (region : RegionId) : Drifting machine (suspendRegion region) :=
  bind here fun _ => modifyRegion region _

theorem resumeRegion (region : RegionId) : Drifting machine (resumeRegion region) :=
  bind here fun _ => modifyRegion region _

theorem closeRegion (region : RegionId) : Drifting machine (closeRegion region) :=
  bind (suspendRegion region) fun _ => bind .method fun _ =>
    bind (modifyRegion region _) fun _ => pure _

theorem openRegion : Drifting machine openRegion := by
  refine bind here fun start => bind .method fun method => bind ?_ fun _ => pure _
  intro before _ after _ success
  obtain rfl := modifyMethod_ok.mp success
  exact .mapMethod before (.refl _) rfl rfl rfl rfl rfl

/-- Keeping track of things leaves the iteration alone. -/
theorem elementary (named : machine.Named) (stepElementary : Elementary step) :
    Drifting machine step := by
  cases stepElementary with
  | labelsOf id => exact labelsOf id
  | here => exact here
  | protect segments handler catchType => exact protect segments handler catchType
  | declareLocal decl => exact declareLocal named decl
  | newSpillTemp type spans => exact newSpillTemp type spans
  | enterScope => exact enterScope
  | exitScope => exact exitScope
  | frames _ | catchSlots _ | switches _ =>
    intro before _ after _ success
    obtain rfl := modifyMethod_ok.mp success
    exact .mapMethod before (.refl _) rfl rfl rfl rfl rfl
  | openRegion => exact openRegion
  | suspendRegion region => exact suspendRegion region
  | resumeRegion region => exact resumeRegion region
  | closeRegion region => exact closeRegion region

end Drifting

/-! ## Runs -/

/-- A run that suspends at some of the given statements, in their order. -/
def SuspendsAmong (machine : Suspension) (stmts : List Stmt) (before after : Emission) : Prop :=
  Iterating machine after ∧
    ∃ sites, (sites.map Site.stmt).Sublist stmts ∧ Suspends machine before after sites

namespace SuspendsAmong

variable {machine : Suspension} {before between after : Emission} {stmts stmts' : List Stmt}

theorem ofDrifts (drifts : Drifts machine before after) (iterating : Iterating machine before) :
    SuspendsAmong machine stmts before after :=
  ⟨drifts.iterating iterating, [], List.nil_sublist _, drifts.suspends⟩

theorem trans (first : SuspendsAmong machine stmts before between)
    (second : SuspendsAmong machine stmts' between after) :
    SuspendsAmong machine (stmts ++ stmts') before after := by
  obtain ⟨-, sites, among, suspends⟩ := first
  obtain ⟨iterating, sites', among', suspends'⟩ := second
  refine ⟨iterating, sites ++ sites', ?_, suspends.trans suspends'⟩
  rw [List.map_append]
  exact among.append among'

theorem mono (run : SuspendsAmong machine stmts before after) (within : stmts.Sublist stmts') :
    SuspendsAmong machine stmts' before after := by
  obtain ⟨iterating, sites, among, suspends⟩ := run
  exact ⟨iterating, sites, among.trans within, suspends⟩

end SuspendsAmong

/-- Wherever `Call` holds, lowering a statement suspends at elements inside it. -/
def CallsSuspend (machine : Suspension) (lower : Lowering) (Call : MethodContext → Stmt → Prop) :
    Prop :=
  ∀ before after stmt, Call before.method.setting stmt →
    before.Ready before.method.setting stmt.ids [] [] → Iterating machine before →
      lower stmt before = .ok () after → SuspendsAmong machine stmt.elements before after

/-- A copy of a finally body does not suspend. -/
theorem SuspendsAmong.copied
    {stmts : List Stmt} {copyEnd : Emission} {finalizer : Stmt}
    (run : SuspendsAmong machine stmts (Tidy.copying finalizer before) copyEnd) :
    SuspendsAmong machine [] before (Tidy.copied copyEnd) := by
  obtain ⟨iterating, sites, -, suspends⟩ := run
  obtain rfl := suspends.outside (Nat.succ_pos _)
  refine ⟨⟨{ iterating.method with }, iterating.bounded⟩, [], List.nil_sublist _, ?_⟩
  have depth : copyEnd.method.finallyDepth = before.method.finallyDepth + 1 :=
    suspends.finallyDepth
  refine { suspends with finallyDepth := ?_, outside := fun _ => rfl }
  change copyEnd.method.finallyDepth - 1 = _
  omega

/-- A run suspends where the statements in it do. -/
theorem Runs.suspends
    (named : machine.Named)
    {lower : Lowering} {Call : MethodContext → Stmt → Prop}
    (calls : CallsSuspend machine lower Call)
    {parts : List Stmt}
    (iterating : Iterating machine before)
    (run : Runs lower Call before after parts) :
    SuspendsAmong machine (parts.flatMap Stmt.elements) before after := by
  induction run with
  | refl state => exact .ofDrifts (.refl state) iterating
  | trans _ _ firstHypothesis secondHypothesis =>
    have first := firstHypothesis iterating
    rw [List.flatMap_append]
    exact first.trans (secondHypothesis first.1)
  | less _ within ih =>
    exact (ih iterating).mono (within.flatMap _)
  | plain stepPlain success =>
    exact .ofDrifts (Drifting.plain stepPlain _ _ _ iterating success) iterating
  | elementary stepElementary success =>
    exact .ofDrifts (Drifting.elementary named stepElementary _ _ _ iterating success) iterating
  | @call _ _ stmt allowed ready success =>
    rw [List.flatMap_singleton]
    exact calls _ _ _ allowed ready iterating success
  | copy allowed ready success =>
    refine (calls _ _ _ allowed ready ?_ success).copied
    exact ⟨{ iterating.method with }, iterating.bounded⟩

/-! ## Suspension points -/

/-- The step emits the given instructions. -/
def Emits (instructions : List Instruction) (step : Emit Unit) : Prop :=
  ∀ before, step before = .ok () (before.mapCode fun code => instructions.foldl Code.emit code)

namespace Emits

theorem emit (instruction : Instruction) : Emits [instruction] (emit instruction) := fun _ => rfl

theorem seq {first second : List Instruction} {step : Emit Unit} {next : Emit Unit}
    (firstEmits : Emits first step) (nextEmits : Emits second next) :
    Emits (first ++ second) (step >>= fun _ => next) := by
  intro before
  refine bind_ok.mpr ⟨(), _, firstEmits before, ?_⟩
  rw [nextEmits]
  simp [Emission.mapCode, Emission.mapMethod, List.foldl_append]

theorem forM {values : List α} {step : α → Emit Unit} {instructions : α → List Instruction}
    (emits : ∀ value, Emits (instructions value) (step value)) :
    Emits (values.flatMap instructions) (values.forM step) := by
  induction values with
  | nil => exact fun _ => rfl
  | cons value values ih => exact (emits value).seq ih

end Emits

/-- The instructions that save slots. -/
def saves (live : List SavedSlot) : List Instruction :=
  live.flatMap fun saved =>
    [.load .reference 0, .load saved.kind saved.slot, .putField saved.field]

theorem saveLive_ok (success : saveLive before = .ok () after) :
    after = before.mapCode fun code => (saves before.method.live).foldl Code.emit code := by
  have rest := method_bind_eq.mp success
  have emits : Emits (saves before.method.live) (before.method.live.forM fun saved => do
      loadRef 0
      load saved.kind saved.slot
      putField saved.field) :=
    .forM fun saved => .seq (.emit _) (.seq (.emit _) (.emit _))
  have same := (emits before).symm.trans rest
  cases same
  rfl

theorem mapCode_mapCode (state : Emission) (first second : Code → Code) :
    (state.mapCode first).mapCode second = state.mapCode fun code => second (first code) := rfl

/-- A step that is refused on a condition. -/
theorem refuse_ok
    {condition : Prop}
    [Decidable condition]
    {error : Error} {next : Emit β} {result : β}
    (success : (if condition then (throw error : Emit PUnit) >>= fun _ => next else next) before =
      .ok result after) :
    ¬condition ∧ next before = .ok result after := by
  split_ifs at success with refused
  · obtain ⟨_, _, thrown, -⟩ := bind_ok.mp success
    exact (throw_ok.mp thrown).elim
  · exact ⟨refused, success⟩

/-- A suspension is outside of finally bodies. -/
theorem checkSuspendable_ok (success : checkSuspendable span before = .ok () after) :
    before = after ∧ before.method.finallyDepth = 0 := by
  simp only [checkSuspendable, holdsMonitor, catchSlot?, inFinally, bind_ok, method_ok,
    pure_ok] at success
  obtain ⟨_, _, ⟨_, _, ⟨rfl, rfl⟩, rfl, rfl⟩, success⟩ := success
  have afterMonitors := (refuse_ok success).2
  simp only [bind_ok, method_ok, pure_ok] at afterMonitors
  obtain ⟨_, _, ⟨_, _, ⟨rfl, rfl⟩, rfl, rfl⟩, success⟩ := afterMonitors
  have afterCatches := (refuse_ok success).2
  simp only [bind_ok, method_ok, pure_ok] at afterCatches
  obtain ⟨_, _, ⟨_, _, ⟨rfl, rfl⟩, rfl, rfl⟩, success⟩ := afterCatches
  split_ifs at success with inside
  · exact (throw_ok.mp success).elim
  · obtain ⟨-, rfl⟩ := pure_ok.mp success
    exact ⟨rfl, by simpa using inside⟩

/-- What claiming a point of resumption leads to. -/
theorem nextYield?_some
    {resume : Label}
    (success : nextYield? before = .ok (some (number, resume)) after) :
    ∃ suspension, before.method.suspension = some suspension ∧
      suspension.resume[number]? = some resume ∧ number = before.method.yieldCount + 1 ∧
        after = before.mapMethod fun method => { method with yieldCount := number } := by
  have rest := method_bind_eq.mp success
  cases suspended : before.method.suspension with
  | none =>
    simp only [suspended] at rest
    obtain ⟨claimed, -⟩ := pure_ok.mp rest
    contradiction
  | some suspension =>
    simp only [suspended] at rest
    replace rest := method_bind_eq.mp rest
    obtain ⟨_, counted, rest⟩ := seq_ok.mp rest
    obtain rfl := modifyMethod_ok.mp counted
    obtain ⟨claimed, rfl⟩ := pure_ok.mp rest
    obtain ⟨label, found, same⟩ := Option.map_eq_some_iff.mp claimed
    cases same
    exact ⟨suspension, rfl, found, rfl, rfl⟩

/-- The instructions of a suspension that follow the evaluation of the element. -/
def suspending (machine : Suspension) (number : Nat) (live : List SavedSlot) : List Instruction :=
  [.putField machine.current, .load .reference 0, .push (.int (.ofNat number)),
    .putField machine.state] ++ saves live ++ [.plain .iconst1, .plain .ireturn]

/-- What the code of a suspension consists of, step by step. -/
theorem lowerElement_ok
    (success : lowerElement suspension span value before = .ok () after) :
    ∃ own resume claimed evaluated,
      before.method.finallyDepth = 0 ∧
      before.method.suspension = some own ∧
      own.resume[before.method.yieldCount + 1]? = some resume ∧
      (∃ cls, claimed = { before with
        method := { before.method with yieldCount := before.method.yieldCount + 1 }, cls }) ∧
      pushValue value (claimed.mapCode fun code => code.emit (.load .reference 0)) =
        .ok () evaluated ∧
      (do mark resume; reloadLive) (evaluated.mapCode fun code =>
        (suspending suspension (before.method.yieldCount + 1) evaluated.method.live).foldl
          Code.emit code) = .ok () after := by
  obtain ⟨_, checked, rest⟩ := seq_ok.mp success
  obtain ⟨rfl, outside⟩ := checkSuspendable_ok checked
  obtain ⟨claim, claimed, claiming, rest⟩ := bind_ok.mp rest
  cases claim with
  | none => exact (throw_ok.mp rest).elim
  | some claim =>
    obtain ⟨number, resume⟩ := claim
    obtain ⟨own, suspended, found, rfl, rfl⟩ := nextYield?_some claiming
    obtain ⟨_, logged, rest⟩ := seq_ok.mp rest
    obtain rfl := modifyClass_ok.mp logged
    obtain ⟨_, loaded, rest⟩ := seq_ok.mp rest
    obtain rfl := emit_ok.mp loaded
    obtain ⟨evaluated, evaluating, rest⟩ := seq_ok.mp rest
    obtain ⟨_, stored, rest⟩ := seq_ok.mp rest
    obtain rfl := emit_ok.mp stored
    obtain ⟨_, loaded, rest⟩ := seq_ok.mp rest
    obtain rfl := emit_ok.mp loaded
    obtain ⟨_, pushed, rest⟩ := seq_ok.mp rest
    obtain rfl := emit_ok.mp pushed
    obtain ⟨_, stored, rest⟩ := seq_ok.mp rest
    obtain rfl := emit_ok.mp stored
    obtain ⟨_, saved, rest⟩ := seq_ok.mp rest
    obtain rfl := saveLive_ok saved
    obtain ⟨_, pushed, rest⟩ := seq_ok.mp rest
    obtain rfl := emit_ok.mp pushed
    obtain ⟨_, returned, rest⟩ := seq_ok.mp rest
    obtain rfl := emit_ok.mp returned
    refine ⟨own, resume, _, evaluated, outside, suspended, found, ⟨_, rfl⟩, evaluating, ?_⟩
    simp only [mapCode_mapCode] at rest
    simp only [suspending, List.foldl_append, List.foldl_cons, List.foldl_nil]
    exact rest

theorem spares_of_mem_saves
    {live : List SavedSlot}
    (spares : ∀ saved ∈ live, machine.Spares saved.field)
    (member : .putField field ∈ saves live) :
    machine.Spares field := by
  obtain ⟨saved, inLive, member⟩ := List.mem_flatMap.mp member
  simp only [List.mem_cons, reduceCtorEq, Instruction.putField.injEq, List.not_mem_nil, false_or,
    or_false] at member
  exact member ▸ spares saved inLive

/-- The fields that a suspension writes: the two of the iteration at fixed places, and others. -/
theorem putField_of_getElem?_suspending
    {index : Nat} {live : List SavedSlot}
    (spares : ∀ saved ∈ live, machine.Spares saved.field)
    (found : (suspending machine number live)[index]? = some (.putField field)) :
    machine.Spares field ∨ index = 0 ∨ index = 3 := by
  obtain _ | _ | _ | _ | index := index
  · exact .inr (.inl rfl)
  · simp [suspending] at found
  · simp [suspending] at found
  · exact .inr (.inr rfl)
  · have later : (saves live ++ [.plain .iconst1, .plain .ireturn])[index]? =
        some (.putField field) := found
    have member := List.mem_of_getElem? later
    simp only [List.mem_append, List.mem_cons, reduceCtorEq, List.not_mem_nil, or_false] at member
    exact .inl (spares_of_mem_saves spares member)

section Element

variable {machine : Suspension} {entry evaluated marked : Code}
variable {evaluation : List Instruction} {number : Nat} {live : List SavedSlot} {resume : Label}

/-- The place of a suspension whose code begins at the end of the code so far. -/
def siteOf (stmt : Stmt) (entry : Code) (evaluation : List Instruction) (live : List SavedSlot) :
    Site where
  stmt := stmt
  start := entry.size
  write := entry.size + evaluation.length + 4
  stop := entry.size + evaluation.length + (saves live).length + 7

/-- The code of a suspension has its place and its number. -/
theorem suspendsAt_siteOf
    {tag : StmtTag}
    (evaluates : Evaluates value evaluation)
    (bounded : evaluated.Bounded)
    (code : evaluated.instructions.toList =
      entry.instructions.toList ++ .load .reference 0 :: evaluation)
    (numbered : machine.resume[number]? = some resume)
    (mark : ((suspending machine number live).foldl Code.emit evaluated).mark resume =
      .ok marked) :
    machine.SuspendsAt marked number (siteOf (.yield tag (some value)) entry evaluation live) := by
  have size : evaluated.size = entry.size + evaluation.length + 1 := by
    rw [Code.size, ← Array.length_toList, code]
    simp [Code.size]
    omega
  obtain ⟨free, same⟩ := (Code.mark_eq_ok_iff _ _ _).mp mark
  refine ⟨tag, value, evaluation, saves live, resume, rfl, evaluates, ?_, rfl, ?_, numbered, ?_, ?_⟩
  · simp only [same, Code.Holds, Code.toList_foldl_emit, code, siteOf, Code.size,
      ← Array.length_toList, List.append_assoc, List.drop_left, suspending]
    simp
  · simp only [siteOf]
    omega
  · rw [Code.position?_of_mark_eq_ok mark]
    simp only [Code.size_foldl_emit, size, suspending, siteOf, List.length_append, List.length_cons,
      List.length_nil, Option.some.injEq]
    omega
  · have advances := same ▸ Code.Advances.mark free
    refine advances.sealed (bounded.sealed_foldl_emit _ ?_) ?_
    · simp only [siteOf]
      omega
    · simp only [Code.size_foldl_emit, size, suspending, siteOf, List.length_append,
        List.length_cons, List.length_nil]
      omega

/-- The fields that are written where an element is evaluated and handed out. -/
theorem writes_siteOf
    (spares : ∀ saved ∈ live, machine.Spares saved.field)
    (code : evaluated.instructions.toList =
      entry.instructions.toList ++ .load .reference 0 :: evaluation)
    (writes : WritesOnly machine.Spares (entry.size + 1) evaluated)
    (instructions : marked.instructions.toList =
      evaluated.instructions.toList ++ suspending machine number live)
    {stmt : Stmt} {position : Nat}
    (later : entry.size ≤ position)
    (written : marked.instructions[position]? = some (.putField field))
    (isInstance : field.isStatic = false) :
    machine.Spares field ∨ position = (siteOf stmt entry evaluation live).write ∨
      position = (siteOf stmt entry evaluation live).write - 3 := by
  have size : evaluated.size = entry.size + evaluation.length + 1 := by
    rw [Code.size, ← Array.length_toList, code]
    simp [Code.size]
    omega
  rw [← Array.getElem?_toList, instructions] at written
  by_cases inside : position < evaluated.size
  · rw [List.getElem?_append_left (by simpa [Code.size] using inside)] at written
    by_cases first : position = entry.size
    · rw [code, List.getElem?_append_right (by simp [first, Code.size])] at written
      simp [first, Code.size] at written
    · exact .inl (writes position field (by omega) (by simpa using written) isInstance)
  · rw [List.getElem?_append_right (by simpa [Code.size] using inside)] at written
    have offset : position - evaluated.instructions.toList.length = position - evaluated.size := by
      simp [Code.size]
    rw [offset] at written
    obtain spared | index | index := putField_of_getElem?_suspending spares written
    · exact .inl spared
    all_goals
      simp only [siteOf]
      omega

/-- Handing out an element suspends once. -/
theorem suspends_lowerElement
    {before after : Emission}
    (iterating : Iterating machine before)
    (suspended : before.method.suspension = some suspension)
    {tag : StmtTag}
    (success : lowerElement suspension tag.span value before = .ok () after) :
    SuspendsAmong machine [.yield tag (some value)] before after := by
  obtain ⟨own, resume, claimed, evaluated, outside, ownSuspended, found, ⟨cls, rfl⟩, evaluating,
    rest⟩ := lowerElement_ok success
  obtain ⟨state, current, resumes, -⟩ := iterating.method.agrees suspended
  have same : suspending suspension = suspending machine := by
    funext number live
    rw [suspending, suspending, state, current]
  have numbered : machine.resume[before.method.yieldCount + 1]? = some resume := by
    obtain rfl := Option.some.inj (suspended.symm.trans ownSuspended)
    rwa [← resumes]
  rw [same] at rest
  obtain ⟨_, marking, reloading⟩ := seq_ok.mp rest
  obtain ⟨marked, mark, rfl⟩ := tryCode_ok.mp marking
  have loaded : before.code.Advances (before.code.emit (.load .reference 0)) := .emit _ _
  have iteratingLoaded : Iterating machine (Emission.mapCode
      (fun code => code.emit (.load .reference 0))
      { before with
        method := { before.method with yieldCount := before.method.yieldCount + 1 }, cls }) :=
    ⟨{ iterating.method with }, iterating.bounded.advances loaded⟩
  have drifts := Drifting.code (.pushValue .all) _ _ _ iteratingLoaded evaluating
  have iteratingEvaluated := drifts.iterating iteratingLoaded
  obtain ⟨evaluation, extension⟩ := drifts.advances.grows.instructions
  have code : evaluated.code.instructions.toList =
      before.code.instructions.toList ++ .load .reference 0 :: evaluation := by
    rw [← extension]
    simp [Code.emit, Emission.code]
  have evaluates : Evaluates value evaluation := ⟨_, _, evaluating, extension.symm⟩
  obtain ⟨free, marks⟩ := (Code.mark_eq_ok_iff _ _ _).mp mark
  have advances : evaluated.code.Advances marked :=
    marks ▸ (Code.Advances.emits evaluated.code _).trans (.mark free)
  have instructions : marked.instructions.toList = evaluated.code.instructions.toList ++
      suspending machine (before.method.yieldCount + 1) evaluated.method.live := by
    rw [marks]
    exact Code.toList_foldl_emit _ _
  have suspendsAt : machine.SuspendsAt marked (before.method.yieldCount + 1)
      (siteOf (.yield tag (some value)) before.code evaluation evaluated.method.live) :=
    suspendsAt_siteOf evaluates iteratingEvaluated.bounded code numbered mark
  have writes : WritesOnly machine.Spares (before.code.size + 1) evaluated.code := by
    rw [← Code.size_emit before.code (.load .reference 0)]
    exact drifts.writes
  have bounded : marked.Bounded := iteratingEvaluated.bounded.advances advances
  let reached := (evaluated.mapCode fun code =>
    (suspending machine (before.method.yieldCount + 1) evaluated.method.live).foldl
      Code.emit code).mapCode fun _ => marked
  have iteratingReached : Iterating machine reached :=
    ⟨{ iteratingEvaluated.method with }, bounded⟩
  have suspends : Suspends machine before reached
      [siteOf (.yield tag (some value)) before.code evaluation evaluated.method.live] :=
    { advances := (loaded.trans drifts.advances).trans advances
      finallyDepth := drifts.finallyDepth
      count := drifts.yieldCount
      outside := fun inside => by omega
      within := by
        intro site member
        obtain rfl := List.mem_singleton.mp member
        obtain ⟨-, -, -, -, _, -, -, -, -, -, -, bound, -⟩ := suspendsAt
        exact ⟨Nat.le_refl _, bounded _ _ bound⟩
      ordered := List.pairwise_singleton _ _
      numbered := by
        intro index site member
        cases index with
        | zero =>
          obtain rfl := Option.some.inj member
          exact suspendsAt
        | succ index => simp at member
      writes := by
        intro position field later written isInstance
        obtain spares | place :=
          writes_siteOf iteratingEvaluated.method.live code writes instructions
          later written isInstance
        · exact .inl spares
        · exact .inr (.inr ⟨_, List.mem_singleton_self _, place⟩) }
  have reloads := Drifting.code .reloadLive _ _ _ iteratingReached reloading
  exact ⟨reloads.iterating iteratingReached, _, List.Sublist.refl _,
    suspends.trans reloads.suspends⟩

end Element

/-! ## The end of an iteration -/

section Ends

variable {machine : Suspension} {before after : Emission}

theorem emits_finishIteration (machine : Suspension) :
    Emits machine.ending (finishIteration machine.state) :=
  .seq (.emit _) (.seq (.emit _) (.seq (.emit _) (.seq (.emit _) (.emit _))))

theorem putField_of_getElem?_ending
    {index : Nat}
    (found : machine.ending[index]? = some (.putField field)) :
    index = 2 := by
  obtain _ | _ | _ | _ | _ | index := index
  all_goals simp_all [Suspension.ending]

/-- The end of an iteration is noted without a suspension. -/
theorem suspends_finishIteration
    (iterating : Iterating machine before)
    (success : finishIteration machine.state before = .ok () after) :
    SuspendsAmong machine [] before after := by
  rw [emits_finishIteration machine before, EStateM.Result.ok.injEq] at success
  obtain ⟨-, rfl⟩ := success
  have advances := Code.Advances.emits before.code machine.ending
  refine ⟨⟨{ iterating.method with }, iterating.bounded.advances advances⟩, [],
    List.nil_sublist _, ?_⟩
  refine
    { advances := advances
      finallyDepth := rfl
      count := rfl
      outside := fun _ => rfl
      within := nofun
      ordered := .nil
      numbered := by simp
      writes := ?_ }
  intro position field later written isInstance
  have beyond : before.code.instructions.toList.length ≤ position := by
    simpa [Emission.size, Code.size] using later
  rw [Emission.code_mapCode, ← Array.getElem?_toList, Code.toList_foldl_emit,
    List.getElem?_append_right beyond] at written
  have place := putField_of_getElem?_ending written
  have same : position = before.code.size + 2 := by
    simp only [Array.length_toList, Code.size] at *
    omega
  subst same
  refine .inr (.inl ⟨Nat.le_add_left _ _, ?_, ?_⟩)
  · rw [Nat.add_sub_cancel, Code.Holds, Emission.code_mapCode, Code.toList_foldl_emit, Code.size,
      ← Array.length_toList, List.drop_left]
  · exact iterating.bounded.sealed_foldl_emit _ (Nat.lt_succ_self _)

/-- Ending the iteration runs all cleanup and does not suspend. -/
theorem suspends_lowerEnd
    (named : machine.Named)
    {lower : Lowering} {Call : MethodContext → Stmt → Prop}
    (tidily : CallsTidily lower Call)
    (calls : CallsSuspend machine lower Call)
    (allowed : before.method.setting.AllowsCleanup Call)
    (suspended : before.method.suspension = some suspension)
    {ids : List StmtId}
    (ready : before.Ready before.method.setting ids [] [])
    (iterating : Iterating machine before)
    (success : lowerEnd lower suspension span before = .ok () after) :
    SuspendsAmong machine [] before after := by
  obtain ⟨_, _, asked, rest⟩ := bind_ok.mp success
  replace asked := method_bind_eq.mp asked
  obtain ⟨-, rfl⟩ := pure_ok.mp asked
  obtain ⟨-, rest⟩ := refuse_ok rest
  obtain ⟨cut, left, leaving, rest⟩ := bind_ok.mp rest
  obtain ⟨finished, finishing, resuming⟩ := seq_ok.mp rest
  replace leaving := method_bind_eq.mp leaving
  have leaves : Runs lower Call before left [] :=
    .cleanupFrames tidily allowed (List.nil_append _).symm (.ofReady ready) leaving
  have first := leaves.suspends named calls iterating
  rw [(iterating.method.agrees suspended).1] at finishing
  have second := suspends_finishIteration first.1 finishing
  have resumes : Runs lower Call finished after [] := .resumeRegions resuming
  exact (first.trans second).trans (resumes.suspends named calls second.1)

end Ends

/-! ## Statements -/

/-- Lowering a statement suspends at elements inside it, in the order of the source. -/
theorem callsSuspend_lowerWithin (named : machine.Named) (depth : Nat) :
    CallsSuspend machine (lowerWithin depth) Distinguished := by
  induction depth with
  | zero =>
    intro before after stmt _ _ _ success
    exact (throw_ok.mp success).elim
  | succ depth ih =>
    intro before after stmt distinguished ready iterating success
    unfold Emit.lowerWithin at success
    split_ifs at success with reachable
    · have tidily : CallsTidily (lowerWithin depth) (Calls stmt before.method.setting) := by
        intro method part called
        have inner := distinguished.calls called
        exact ⟨inner.distinct, .lowerWithin depth inner⟩
      have calls : CallsSuspend machine (lowerWithin depth) (Calls stmt before.method.setting) :=
        fun before after part called =>
          ih before after part (distinguished.calls called)
      by_cases yields : ∃ tag value, stmt = .yield tag value
      · obtain ⟨tag, value, rfl⟩ := yields
        have rest := method_bind_eq.mp success
        cases suspended : before.method.suspension with
        | none =>
          rw [suspended] at rest
          exact (throw_ok.mp rest).elim
        | some suspension =>
          rw [suspended] at rest
          cases value with
          | some value =>
            refine (suspends_lowerElement iterating suspended rest).mono ?_
            rw [Stmt.elements_eq]
            exact List.sublist_append_left _ _
          | none =>
            refine (suspends_lowerEnd named tidily calls ?_ suspended ready iterating rest).mono
              (List.nil_sublist _)
            exact fun _ _ _ _ _ frames kind => .cleanup frames kind
      · have continues : ∀ tag value, stmt ≠ .yield tag value :=
          fun tag value same => yields ⟨tag, value, same⟩
        have run := runs_lowerReachable continues distinguished ready success
        have whole := run.suspends named calls iterating
        rw [Stmt.elements_eq]
        exact whole.mono (List.sublist_append_right _ _)
    · obtain ⟨-, rfl⟩ := pure_ok.mp success
      exact .ofDrifts (.refl before) iterating

end Emit
end StackCode
