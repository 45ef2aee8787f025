import StackCode.Proofs.DispatchMachine
import StackCode.Proofs.Selection

/-!
# Dispatch on strings

A string switch tests its cases one by one, or it looks the selector up in a map that
is filled when the switch is first reached.  Both ways get from any string, and from no
string at all, to the section that lists it, else to the section with the default, else
to the end of the switch.
-/

namespace StackCode

/-- The string of a case label. -/
def Expr.text? (label : Expr) : Option String := label.constant?.bind Const.string?

/-- The string of a key. -/
def CaseKey.text? : CaseKey → Option String
  | .string text => some text
  | _ => none

theorem CaseKey.text?_eq_some {key : CaseKey} {text : String} :
    key.text? = some text ↔ key = .string text := by
  cases key <;> simp [text?]

/-- Strings are keys as they are. -/
theorem Const.bind_ofConst?_text? (value : Const) :
    (CaseKey.ofConst? value).bind CaseKey.text? = value.string? := by
  cases value <;> rfl

/-- The strings that a section lists. -/
def Section.texts (switchSection : Section) : List String :=
  switchSection.keys.filterMap CaseKey.text?

theorem Section.mem_texts {switchSection : Section} {text : String} :
    text ∈ switchSection.texts ↔ .string text ∈ switchSection.keys := by
  simp [texts, CaseKey.text?_eq_some]

theorem Section.texts_eq (switchSection : Section) :
    switchSection.texts = (Emit.sectionCases switchSection).filterMap Expr.text? := by
  rw [texts, keys, Emit.sectionCases, List.filterMap_filterMap, List.filterMap_filterMap]
  congr 1
  funext label
  cases label with
  | none => rfl
  | some label =>
    simp [CaseKey.ofLabel?, Expr.text?, Option.bind_assoc, Const.bind_ofConst?_text?]

namespace Dispatching

open Emit

variable {body : MethodBody} {stack : List Value} {store : Store} {slot : Nat}
variable {value : Option String}
variable {before after : Emission} {selector : Expr}

/-! ## Testing cases one by one -/

/-- The operands while the cases of a section are tested: what was found so far, if anything was. -/
def tested (count : Nat) (found : Bool) (stack : List Value) : List Value :=
  if count = 0 then stack else .ofBool found :: stack

/-- The selector is the string of some case. -/
def isCase (value : Option String) (labels : List Expr) : Bool :=
  labels.any fun label => value.any fun text => label.text? = some text

/-- Testing one case adds its answer to those of the cases before it. -/
theorem carries_testCase
    (holds : store.slots slot = .ofText value)
    (label : Expr) (count : Nat) (found : Bool)
    (fresh : count = 0 → found = false) :
    Carries body
      (do
        push (.string (← caseValue Const.string? label))
        loadRef slot
        invoke Library.stringEquals
        if 0 < count then op .ior)
      (tested count found stack) store
      fun position =>
        ⟨position, tested (count + 1) (found || isCase value [label]) stack, store⟩ := by
  refine .bind (.caseValue _ label) fun text returned => ?_
  obtain ⟨_, _, returned⟩ := returned
  have listed : label.text? = some text := (caseValue_ok.mp returned).1
  have answer : decide (value = some text) = isCase value [label] := by
    cases value <;> simp [isCase, listed, eq_comm]
  refine .seq (.push_string text) ?_
  refine .seq (.loadRef slot) ?_
  rw [holds]
  refine .seq (.invoke (call?_stringEquals _ value text _)) ?_
  rw [answer]
  by_cases first : count = 0
  · subst first
    rw [fresh rfl]
    exact .pure ()
  · rw [if_pos (Nat.pos_of_ne_zero first), tested, if_neg first]
    exact .op_ior found _

/-- The cases of a section are tested one after the other. -/
theorem carries_testCases
    (holds : store.slots slot = .ofText value)
    (labels : List Expr) (count : Nat) (found : Bool)
    (fresh : count = 0 → found = false) :
    Carries body
      ((labels.zipIdx count).forM fun entry => do
        push (.string (← caseValue Const.string? entry.1))
        loadRef slot
        invoke Library.stringEquals
        if 0 < entry.2 then op .ior)
      (tested count found stack) store
      fun position =>
        ⟨position, tested (count + labels.length) (found || isCase value labels) stack, store⟩ := by
  induction labels generalizing count found with
  | nil =>
    have none : isCase value [] = false := rfl
    rw [none, Bool.or_false]
    exact .pure ()
  | cons label labels ih =>
    have split :
        isCase value (label :: labels) = (isCase value [label] || isCase value labels) := by
      simp [isCase]
    have length : count + (label :: labels).length = count + 1 + labels.length := by
      rw [List.length_cons]
      omega
    rw [split, length, ← Bool.or_assoc]
    exact .seq (carries_testCase holds label count found fresh)
      (ih (count + 1) _ (fun impossible => absurd impossible (Nat.succ_ne_zero _)))

/-- After its cases are tested a section is entered or not. -/
theorem carries_testSection
    (holds : store.slots slot = .ofText value)
    (labels : List Expr) (start : Label) :
    Carries body (testSection slot labels start) stack store fun position =>
      ⟨if isCase value labels then body.position start else position, stack, store⟩ := by
  refine .seq (carries_testCases holds labels 0 false fun _ => rfl) ?_
  cases labels with
  | nil => exact .pure ()
  | cons label labels =>
    simp only [List.isEmpty_cons, Bool.not_false, if_true, Bool.false_or]
    exact .jump_ifne _ start

/-- The selector is the string of a case of the section exactly if the section lists it. -/
theorem isCase_sectionCases (value : Option String) (switchSection : Section) :
    isCase value (sectionCases switchSection) ↔
      ∃ text, value = some text ∧ .string text ∈ switchSection.keys := by
  rw [isCase, List.any_eq_true]
  cases value with
  | none => simp
  | some text =>
    have listed : text ∈ switchSection.texts ↔ _ := Section.mem_texts
    rw [Section.texts_eq, List.mem_filterMap] at listed
    simpa using listed

/-- The first section that lists the selector is entered. -/
theorem carries_testSections (holds : store.slots slot = .ofText value) (placed : PlacedSections) :
    Carries body
      (placed.forM fun entry => testSection slot (sectionCases entry.1) entry.2)
      stack store
      fun position =>
        ⟨((placed.find? fun entry => isCase value (sectionCases entry.1)).map fun entry =>
          body.position entry.2).getD position, stack, store⟩ := by
  induction placed with
  | nil => exact .pure ()
  | cons entry placed ih =>
    have first : Carries body (testSection slot (sectionCases entry.1) entry.2) stack store _ :=
      carries_testSection holds (sectionCases entry.1) entry.2
    rw [List.find?_cons]
    cases lists : isCase value (sectionCases entry.1) with
    | true =>
      rw [lists] at first
      change Carries body (_ >>= fun _ => _) stack store fun _ =>
        ⟨body.position entry.2, stack, store⟩
      refine .leave ?_ ih.grows
      exact first
    | false =>
      rw [lists] at first
      exact .seq first ih

variable {sections : List Section} {starts : List Label} {stop label : Label}

/-- The first section that lists a value is the one that is selected. -/
theorem getD_find?_eq
    (distinct : PlacedSections.keys (sections.zip starts) |>.Nodup)
    (selects : PlacedSections.Selects (sections.zip starts) stop (value.map .string) label) :
    (((sections.zip starts).find? fun entry => isCase value (sectionCases entry.1)).map
      Prod.snd).getD (Emit.defaultStart sections starts stop) = label := by
  obtain ⟨key, isKey, member⟩ | ⟨unlisted, same⟩ := selects.cases_of distinct
  · obtain ⟨text, rfl, rfl⟩ := Option.map_eq_some_iff.mp isKey
    obtain ⟨switchSection, placed, lists⟩ := PlacedSections.mem_entries.mp member
    cases found : (sections.zip starts).find? fun entry =>
        isCase (some text) (sectionCases entry.1) with
    | none =>
      have missed := List.find?_eq_none.mp found _ placed
      exact absurd ((isCase_sectionCases _ _).mpr ⟨text, rfl, lists⟩) missed
    | some entry =>
      have isListed : isCase (some text) (sectionCases entry.1) := by
        simpa using List.find?_some found
      obtain ⟨_, ⟨⟩, listed⟩ := (isCase_sectionCases _ _).mp isListed
      exact PlacedSections.entries_unique distinct
        (PlacedSections.mem_entries.mpr ⟨_, List.mem_of_find?_eq_some found, listed⟩) member
  · have missed : ((sections.zip starts).find? fun entry =>
        isCase value (sectionCases entry.1)) = none := by
      refine List.find?_eq_none.mpr fun entry placed isListed => ?_
      obtain ⟨text, rfl, lists⟩ := (isCase_sectionCases _ _).mp isListed
      exact unlisted _ rfl (List.mem_flatMap.mpr ⟨entry, placed, lists⟩)
    rw [missed]
    exact same

/-- Testing the cases one by one leads to the section that is selected. -/
theorem carries_dispatchByTests
    (distinct : PlacedSections.keys (sections.zip starts) |>.Nodup)
    (holds : store.slots slot = .ofText value)
    (selects : PlacedSections.Selects (sections.zip starts) stop (value.map .string) label) :
    Carries body
      (do
        (sections.zip starts).forM fun entry => testSection slot (sectionCases entry.1) entry.2
        goto (Emit.defaultStart sections starts stop))
      stack store
      fun _ => ⟨body.position label, stack, store⟩ := by
  rw [← getD_find?_eq distinct selects]
  have tests : Carries body _ stack store _ := carries_testSections holds (sections.zip starts)
  cases found : (sections.zip starts).find? fun entry => isCase value (sectionCases entry.1) with
  | some entry =>
    rw [found] at tests
    have leaves : Carries body (goto (Emit.defaultStart sections starts stop)) stack store _ :=
      .goto _
    refine .leave ?_ leaves.grows
    exact tests
  | none =>
    rw [found] at tests
    exact .seq tests (.goto _)

/-! ## The map of ordinals -/

/-- The entries that sections with their ordinals contribute to the map. -/
def ordinalEntries (numbered : List (Section × Nat)) : Table :=
  numbered.flatMap fun entry => entry.1.texts.map fun text =>
    (text, .other (.boxed (.ofNat entry.2)))

/-- The map has the strings of all sections, each with the ordinal of the section that lists it. -/
def Indexes (table : Table) (sections : List Section) : Prop :=
  ∀ text datum, table.lookup text = some datum ↔
    ∃ ordinal switchSection, sections[ordinal]? = some switchSection ∧
      .string text ∈ switchSection.keys ∧ datum = .other (.boxed (.ofNat ordinal))

/-- The map has the ordinals of the sections under their keys. -/
theorem mem_ordinalEntries {text : String} {datum : Value} :
    (text, datum) ∈ ordinalEntries sections.zipIdx ↔
      ∃ ordinal switchSection, sections[ordinal]? = some switchSection ∧
        .string text ∈ switchSection.keys ∧ datum = .other (.boxed (.ofNat ordinal)) := by
  simp only [ordinalEntries, List.mem_flatMap, List.mem_map, Prod.mk.injEq]
  constructor
  · rintro ⟨⟨switchSection, ordinal⟩, numbered, _, lists, rfl, rfl⟩
    exact ⟨ordinal, switchSection, List.mem_zipIdx_iff_getElem?.mp numbered,
      Section.mem_texts.mp lists, rfl⟩
  · rintro ⟨ordinal, switchSection, numbered, lists, rfl⟩
    exact ⟨(switchSection, ordinal), List.mem_zipIdx_iff_getElem?.mpr numbered, text,
      Section.mem_texts.mpr lists, rfl, rfl⟩

theorem map_fst_ordinalEntries (numbered : List (Section × Nat)) :
    (ordinalEntries numbered).map Prod.fst =
      ((numbered.map Prod.fst).flatMap Section.keys).filterMap CaseKey.text? := by
  simp [ordinalEntries, List.map_flatMap, List.filterMap_flatMap, Function.comp_def,
    List.flatMap_map, Section.texts]

/-- If no two labels have the same key, the entries of the sections make up the map. -/
theorem indexes_ordinalEntries (distinct : (sections.flatMap Section.keys).Nodup) :
    Indexes (ordinalEntries sections.zipIdx).reverse sections := by
  intro text datum
  rw [← mem_ordinalEntries]
  have once : ((ordinalEntries sections.zipIdx).reverse.map Prod.fst).Nodup := by
    rw [List.map_reverse, List.nodup_reverse, map_fst_ordinalEntries, List.zipIdx_map_fst]
    refine distinct.filterMap fun first second text ofFirst ofSecond => ?_
    rw [CaseKey.text?_eq_some.mp ofFirst, CaseKey.text?_eq_some.mp ofSecond]
  constructor
  · exact fun found => List.mem_reverse.mp (mem_of_lookup found)
  · exact fun member => lookup_of_mem once (List.mem_reverse.mpr member)

/-- A case is entered into the newest hash map. -/
theorem carries_fillCase (ordinal : Nat) (label : Expr) (base : List Table) (table : Table) :
    Carries body
      (do
        let text ← caseValue Const.string? label
        op .dup
        push (.string text)
        pushInt (.ofNat ordinal)
        invoke Library.boxInteger
        invoke Library.hashMapPut
        op .pop)
      (.other (.map base.length) :: stack) { store with tables := base ++ [table] }
      fun position => ⟨position, .other (.map base.length) :: stack,
        { store with
          tables := base ++ [(label.text?.toList.map fun text =>
            (text, .other (.boxed (.ofNat ordinal)))) ++ table] }⟩ := by
  refine .bind (.caseValue _ label) fun text returned => ?_
  obtain ⟨_, _, returned⟩ := returned
  have listed : label.text? = some text := (caseValue_ok.mp returned).1
  rw [listed]
  refine .seq (.op_dup _) ?_
  refine .seq (.push_string text) ?_
  refine .seq (.pushInt _) ?_
  refine .seq (.invoke (call?_boxInteger _ _ _)) ?_
  refine .seq (.invoke (call?_hashMapPut base table _ _ _)) ?_
  exact .op_pop _

/-- The cases of one section are entered into the newest hash map. -/
theorem carries_fillMap (ordinal : Nat) (labels : List Expr) (base : List Table) (table : Table) :
    Carries body (fillMap ordinal labels) (.other (.map base.length) :: stack)
      { store with tables := base ++ [table] }
      fun position => ⟨position, .other (.map base.length) :: stack,
        { store with
          tables := base ++ [((labels.filterMap Expr.text?).map fun text =>
            (text, .other (.boxed (.ofNat ordinal)))).reverse ++ table] }⟩ := by
  induction labels generalizing table with
  | nil => exact .pure ()
  | cons label labels ih =>
    have split :
        (((label :: labels).filterMap Expr.text?).map fun text =>
          (text, Datum.other (Thing.boxed (.ofNat ordinal)))).reverse ++ table =
        ((labels.filterMap Expr.text?).map fun text =>
          (text, Datum.other (Thing.boxed (.ofNat ordinal)))).reverse ++
            ((label.text?.toList.map fun text =>
              (text, .other (.boxed (.ofNat ordinal)))) ++ table) := by
      cases known : label.text? <;> simp [known]
    rw [split]
    exact .seq (carries_fillCase ordinal label base table) (ih _)

/-- The cases of all sections are entered into the newest hash map. -/
theorem carries_fillMaps (numbered : List (Section × Nat)) (base : List Table) (table : Table) :
    Carries body
      (numbered.forM fun entry => fillMap entry.2 (sectionCases entry.1))
      (.other (.map base.length) :: stack) { store with tables := base ++ [table] }
      fun position => ⟨position, .other (.map base.length) :: stack,
        { store with tables := base ++ [(ordinalEntries numbered).reverse ++ table] }⟩ := by
  induction numbered generalizing table with
  | nil => exact .pure ()
  | cons entry numbered ih =>
    have split : (ordinalEntries (entry :: numbered)).reverse ++ table =
        (ordinalEntries numbered).reverse ++
          ((((sectionCases entry.1).filterMap Expr.text?).map fun text =>
            (text, .other (.boxed (.ofNat entry.2)))).reverse ++ table) := by
      simp [ordinalEntries, Section.texts_eq]
    rw [split]
    exact .seq (carries_fillMap entry.2 _ base table) (ih _)

/-- The field has a map of the strings of all sections. -/
def Store.HasMap (store : Store) (field : FieldRef) (sections : List Section) : Prop :=
  ∃ address table, store.statics (key field) = .other (.map address) ∧
    store.tables[address]? = some table ∧ Indexes table sections

theorem carries_newObject :
    Carries body (newObject Library.hashMap) stack store fun position =>
      ⟨position, .other (.map store.tables.length) :: stack,
        { store with tables := store.tables ++ [[]] }⟩ :=
  .seq .new_hashMap (.seq (.op_dup _) (.invoke (call?_constructor _ _ _)))

/-- The map is there once the code that builds it was run, whether it was there before or not. -/
theorem buildMap_reaches
    {field : FieldRef}
    (isStatic : field.isStatic)
    (distinct : (sections.flatMap Section.keys).Nodup)
    (success : buildMap field sections before = .ok () after)
    (becomes : after.code.Becomes body)
    (start : store.statics (key field) = .null ∨ store.HasMap field sections) :
    ∃ result : Store, Reaches body ⟨before.size, stack, store⟩ ⟨after.size, stack, result⟩ ∧
      result.HasMap field sections := by
  obtain ⟨ready, labelled, making, rest⟩ := bind_ok.mp success
  obtain ⟨got, getting, rest⟩ := seq_ok.mp rest
  obtain ⟨tested, testing, rest⟩ := seq_ok.mp rest
  -- What happens from here on if the map is not there yet.
  let table := (ordinalEntries sections.zipIdx).reverse ++ []
  let filled : Store :=
    { store with
      tables := store.tables ++ [table]
      statics := Function.update store.statics (key field) (.other (.map store.tables.length)) }
  have fills : Carries body
      (do
        newObject Library.hashMap
        sections.zipIdx.forM fun entry => fillMap entry.2 (sectionCases entry.1)
        putField field
        mark ready)
      stack store fun position => ⟨position, stack, filled⟩ :=
    .seq carries_newObject
      (.seq (carries_fillMaps _ _ _) (.seq (.putField isStatic _) (.mark ready)))
  have gets : Carries body (getField field) stack store _ := .getField isStatic
  have tests : Carries body (jump .ifnonnull ready) (store.statics (key field) :: stack) store _ :=
    .jump_ifnonnull _ ready
  have becomesTested := becomes.of_grows (fills.grows rest)
  have becomesGot := becomesTested.of_grows (tests.grows testing)
  have reached := (gets.reaches getting becomesGot).trans (tests.reaches testing becomesTested)
  have labelledAt : labelled.size = before.size := by
    obtain ⟨-, rfl⟩ := newLabel_ok.mp making
    rfl
  rw [labelledAt] at reached
  obtain absent | present := start
  · rw [absent] at reached
    refine ⟨filled, reached.trans (fills.reaches rest becomes), store.tables.length,
      table, ?_, ?_, ?_⟩
    · exact Function.update_self ..
    · simp [filled]
    · simpa [table] using indexes_ordinalEntries distinct
  · obtain ⟨address, table, holds, found, indexed⟩ := present
    obtain ⟨_, -, rest⟩ := seq_ok.mp rest
    obtain ⟨_, -, rest⟩ := seq_ok.mp rest
    obtain ⟨_, -, marking⟩ := seq_ok.mp rest
    rw [holds, if_pos nofun, position_of_mark marking becomes] at reached
    exact ⟨store, reached, address, table, holds, found, indexed⟩

/-- Where the code of a selector stands in the code that is emitted around it. -/
def SelectorCode (selector : Expr) (before after : Emission) (first last : Nat) : Prop :=
  ∃ start finish, before.code.Grows start.code ∧ pushValue selector start = .ok () finish ∧
    finish.code.Grows after.code ∧ start.size = first ∧ finish.size = last

/-- Evaluating the selector leaves the field alone, and the map that is in it. -/
def Evaluation.KeepsMap (evaluation : Evaluation) (field : FieldRef) : Prop :=
  ∀ store, (evaluation.effect store).statics (key field) = store.statics (key field) ∧
    ∀ address, store.statics (key field) = .other (.map address) →
      (evaluation.effect store).tables[address]? = store.tables[address]?

/-- The code that boxed ordinals run through. -/
def unbox (ready : Label) (instruction : Instruction) : Emit Unit := do
  checkCast (.named Library.integer)
  invoke Library.integerValue
  mark ready
  emit instruction

/-- The code that runs if nothing was found, with the code that boxed ordinals run through. -/
def miss (found ready : Label) (ordinal : Int32) (instruction : Instruction) : Emit Unit := do
  op .pop
  pushInt ordinal
  goto ready
  mark found
  unbox ready instruction

/-- The code that follows the selector. -/
def lookUp (found ready : Label) (ordinal : Int32) (instruction : Instruction) : Emit Unit := do
  invoke Library.hashMapGet
  op .dup
  jump .ifnonnull found
  miss found ready ordinal instruction

theorem growing_unbox (ready : Label) (instruction : Instruction) :
    Growing (unbox ready instruction) :=
  .seq (.emit _) (.seq (.emit _) (.seq (.mark ready) (.emit instruction)))

theorem growing_miss (found ready : Label) (ordinal : Int32) (instruction : Instruction) :
    Growing (miss found ready ordinal instruction) :=
  .seq (.emit _) (.seq (.emit _) (.seq (.emit _) (.seq (.mark found) (growing_unbox _ _))))

theorem growing_lookUp (found ready : Label) (ordinal : Int32) (instruction : Instruction) :
    Growing (lookUp found ready ordinal instruction) :=
  .seq (.emit _) (.seq (.emit _) (.seq (.emit _) (growing_miss _ _ _ _)))

/-- What is found in the map, or not found, is sent on through a table. -/
theorem lookUp_reaches
    {found ready : Label} {instruction : Instruction} {table : Table} {address : Nat} {last : Int32}
    (success : lookUp found ready last instruction before = .ok () after)
    (becomes : after.code.Becomes body)
    (holds : store.tables[address]? = some table)
    (sent :
      table.answer (.ofText value) = .null ∧ instruction.destination? last = some label ∨
        ∃ ordinal, table.answer (.ofText value) = .other (.boxed ordinal) ∧
          instruction.destination? ordinal = some label) :
    Reaches body ⟨before.size, [.ofText value, .other (.map address)], store⟩
      ⟨body.position label, [], store⟩ := by
  have asks :
      Carries body (invoke Library.hashMapGet) [.ofText value, .other (.map address)] store _ :=
    .invoke (call?_hashMapGet holds value [])
  -- The steps after which the two labels are bound.
  obtain ⟨_, -, rest⟩ := seq_ok.mp success
  obtain ⟨_, -, rest⟩ := seq_ok.mp rest
  obtain ⟨_, -, rest⟩ := seq_ok.mp rest
  obtain ⟨_, -, rest⟩ := seq_ok.mp rest
  obtain ⟨_, -, rest⟩ := seq_ok.mp rest
  obtain ⟨_, -, rest⟩ := seq_ok.mp rest
  obtain ⟨boxed, markingFound, unboxes⟩ := seq_ok.mp rest
  obtain ⟨_, -, rest⟩ := seq_ok.mp unboxes
  obtain ⟨_, -, rest⟩ := seq_ok.mp rest
  obtain ⟨known, markingReady, switching⟩ := seq_ok.mp rest
  have foundAt := position_of_mark markingFound (becomes.of_grows (growing_unbox _ _ unboxes))
  have readyAt := position_of_mark markingReady (becomes.of_grows (Growing.emit _ switching))
  obtain ⟨missed, destination⟩ | ⟨ordinal, hit, destination⟩ := sent
  · rw [missed] at asks
    have carries : Carries body (lookUp found ready last instruction)
        [.ofText value, .other (.map address)] store fun _ =>
          ⟨body.position ready, [.int last], store⟩ :=
      .seq asks (.seq (.op_dup _) (.seq (.jump_ifnonnull .null found) (.seq (.op_pop _)
        (.seq (.pushInt last) (.leave (.goto ready) (.seq (.mark found) (growing_unbox _ _)))))))
    refine (carries.reaches success becomes).trans ?_
    rw [readyAt]
    exact (Carries.emit_switch destination).reaches switching becomes
  · rw [hit] at asks
    have jumps :
        Carries body
          (jump .ifnonnull found) [.other (.boxed ordinal), .other (.boxed ordinal)] store
        fun _ => ⟨body.position found, [.other (.boxed ordinal)], store⟩ := .jump_ifnonnull _ found
    have carries : Carries body (lookUp found ready last instruction)
        [.ofText value, .other (.map address)] store fun _ =>
          ⟨body.position found, [.other (.boxed ordinal)], store⟩ :=
      .seq asks (.seq (.op_dup _) (.leave jumps (growing_miss _ _ _ _)))
    have unboxed : Carries body (unbox ready instruction) [.other (.boxed ordinal)] store fun _ =>
        ⟨body.position label, [], store⟩ :=
      .seq (.checkCast ordinal) (.seq (.invoke (call?_integerValue _ _ _))
        (.seq (.mark ready) (.emit_switch destination)))
    refine (carries.reaches success becomes).trans ?_
    rw [foundAt]
    exact unboxed.reaches unboxes becomes

/-- The table of ordinals sends an ordinal to its section, and one more to the default. -/
theorem destination?_ordinal
    {ordinal : Nat} {default : Label}
    (bounded : starts.length < 2147483648)
    (entry : (starts ++ [default])[ordinal]? = some label) :
    (Instruction.tableSwitch 0 (.ofNat starts.length) default (starts ++ [default])).destination?
      (.ofNat ordinal) = some label := by
  have inside : ordinal < (starts ++ [default]).length := (List.getElem?_eq_some_iff.mp entry).1
  rw [List.length_append, List.length_singleton] at inside
  have low : (0 : Int32).toInt = 0 := rfl
  have value : (Int32.ofNat ordinal).toInt = ordinal := Int32.toInt_ofNat_of_lt (by omega)
  have high : (Int32.ofNat starts.length).toInt = starts.length := Int32.toInt_ofNat_of_lt bounded
  have within : 0 ≤ Int32.ofNat ordinal ∧ Int32.ofNat ordinal ≤ Int32.ofNat starts.length :=
    ⟨Int32.le_iff_toInt_le.mpr (by omega), Int32.le_iff_toInt_le.mpr (by omega)⟩
  rw [Instruction.destination?, if_pos within, value, low]
  simpa using entry

theorem keys_zip (lengths : starts.length = sections.length) :
    PlacedSections.keys (sections.zip starts) = sections.flatMap Section.keys := by
  rw [PlacedSections.keys, ← List.flatMap_map, List.map_fst_zip (Nat.le_of_eq lengths.symm)]

/-- The answer of a map of ordinals leads to the section that is selected. -/
theorem sent_of_indexes
    {table : Table}
    (bounded : starts.length < 2147483648)
    (lengths : starts.length = sections.length)
    (distinct : (sections.flatMap Section.keys).Nodup)
    (indexes : Indexes table sections)
    (selects : PlacedSections.Selects (sections.zip starts) stop (value.map .string) label) :
    let default := Emit.defaultStart sections starts stop
    let instruction : Instruction :=
      .tableSwitch 0 (.ofNat sections.length) default (starts ++ [default])
    table.answer (.ofText value) = .null ∧
        instruction.destination? (.ofNat sections.length) = some label ∨
      ∃ ordinal, table.answer (.ofText value) = .other (.boxed ordinal) ∧
        instruction.destination? ordinal = some label := by
  intro default instruction
  have once := distinct
  rw [← keys_zip lengths] at once
  obtain ⟨key, isKey, member⟩ | ⟨unlisted, same⟩ := selects.cases_of once
  · obtain ⟨text, rfl, rfl⟩ := Option.map_eq_some_iff.mp isKey
    obtain ⟨switchSection, placed, lists⟩ := PlacedSections.mem_entries.mp member
    obtain ⟨ordinal, here⟩ := List.mem_iff_getElem?.mp placed
    obtain ⟨isSection, start⟩ := List.getElem?_zip_eq_some.mp here
    have found := (indexes text _).mpr ⟨ordinal, switchSection, isSection, lists, rfl⟩
    refine .inr ⟨.ofNat ordinal, ?_, ?_⟩
    · simp [Table.answer, Datum.ofText, found]
    · have entry : (starts ++ [default])[ordinal]? = some label := by
        obtain ⟨inside, -⟩ := List.getElem?_eq_some_iff.mp start
        rw [List.getElem?_append_left inside, start]
      have sent := destination?_ordinal bounded entry
      rwa [lengths] at sent
  · refine .inl ⟨?_, ?_⟩
    · cases value with
      | none => rfl
      | some text =>
        have missing : table.lookup text = none := by
          refine Option.eq_none_iff_forall_ne_some.mpr fun datum found => ?_
          obtain ⟨ordinal, switchSection, isSection, lists, -⟩ := (indexes text datum).mp found
          refine unlisted _ rfl ?_
          rw [keys_zip lengths]
          exact List.mem_flatMap.mpr ⟨_, List.mem_of_getElem? isSection, lists⟩
        simp [Table.answer, Datum.ofText, missing]
    · have entry : (starts ++ [default])[starts.length]? = some default := by simp
      have sent := destination?_ordinal bounded entry
      rw [lengths] at sent
      exact same ▸ sent

/-- The code that tests the cases leads from any selector to the section that is selected. -/
theorem dispatchByTests_arrives
    (distinct : PlacedSections.keys (sections.zip starts) |>.Nodup)
    (success : dispatchByTests selector sections starts (Emit.defaultStart sections starts stop)
      before = .ok () after)
    (becomes : after.code.Becomes body) :
    ∃ first last, SelectorCode selector before after first last ∧
      ∀ value label effect store,
        PlacedSections.Selects (sections.zip starts) stop (value.map .string) label →
          ∃ result, Evaluation.Arrives ⟨first, last, .ofText value, effect⟩ body before.size store
            (body.position label) result := by
  obtain ⟨valued, valuing, rest⟩ := seq_ok.mp success
  obtain ⟨slot, reserved, reserving, rest⟩ := bind_ok.mp rest
  have growing : Growing
      (do
        storeRef slot
        (sections.zip starts).forM fun entry => testSection slot (sectionCases entry.1) entry.2
        goto (Emit.defaultStart sections starts stop)) :=
    .seq (.emit _) (.seq (.plain (.forM _ fun entry _ =>
      .testSection (fun _ _ => trivial) slot _ trivial)) (.emit _))
  have reservedAt : reserved.size = valued.size := by
    obtain ⟨-, rfl⟩ := newTemp_ok.mp reserving
    simp [Emission.size, Code.size]
  have reservedGrows : valued.code.Grows reserved.code := by
    obtain ⟨-, rfl⟩ := newTemp_ok.mp reserving
    exact Code.grows_allocate _ none .string
  refine ⟨before.size, valued.size, ⟨before, valued, .refl _, valuing,
    reservedGrows.trans (growing rest), rfl, rfl⟩, ?_⟩
  intro value label effect store selects
  let stored : Store :=
    { effect store with slots := Function.update (effect store).slots slot (.ofText value) }
  have holds : stored.slots slot = .ofText value := Function.update_self ..
  have carries : Carries body _ [.ofText value] (effect store) fun _ =>
      ⟨body.position label, [], stored⟩ :=
    .seq (.storeRef slot _) (carries_dispatchByTests distinct holds selects)
  refine ⟨stored, [], store, Relation.ReflTransGen.refl, ?_⟩
  rw [← reservedAt]
  exact carries.reaches rest becomes

/--
The code that looks the selector up leads from any selector to the section that is
selected, if the ordinals of all sections are integers of the machine.
-/
theorem dispatchByMap_leads
    (lengths : starts.length = sections.length)
    (distinct : (sections.flatMap Section.keys).Nodup)
    (success : dispatchByMap selector sections starts (Emit.defaultStart sections starts stop)
      before = .ok () after)
    (becomes : after.code.Becomes body) :
    let field := before.cls.newSwitchMap.1
    ∃ first last, SelectorCode selector before after first last ∧
      ∀ value label effect store, sections.length < 2147483648 →
        Evaluation.KeepsMap ⟨first, last, .ofText value, effect⟩ field →
        store.statics (key field) = .null ∨ store.HasMap field sections →
        PlacedSections.Selects (sections.zip starts) stop (value.map .string) label →
          ∃ result, Evaluation.Arrives ⟨first, last, .ofText value, effect⟩ body before.size store
            (body.position label) result ∧ result.HasMap field sections := by
  intro field
  obtain ⟨_, named, naming, rest⟩ := bind_ok.mp success
  obtain ⟨rfl, rfl⟩ := takeClass_ok.mp naming
  obtain ⟨logged, logging, rest⟩ := seq_ok.mp rest
  obtain rfl := modifyClass_ok.mp logging
  obtain ⟨built, building, rest⟩ := seq_ok.mp rest
  obtain ⟨found, labelled, labelling, rest⟩ := bind_ok.mp rest
  obtain ⟨-, rfl⟩ := newLabel_ok.mp labelling
  obtain ⟨ready, labelled, labelling, rest⟩ := bind_ok.mp rest
  obtain ⟨-, rfl⟩ := newLabel_ok.mp labelling
  obtain ⟨got, getting, rest⟩ := seq_ok.mp rest
  obtain ⟨valued, valuing, looking⟩ := seq_ok.mp rest
  have buildGrows := Growing.plain (.buildMap (fun _ _ => trivial) trivial rfl sections) building
  have getGrows : built.code.Grows got.code :=
    ((Code.Grows.newLabel _).trans (.newLabel _)).trans (Growing.emit _ getting)
  have lookGrows : valued.code.Grows after.code := growing_lookUp _ _ _ _ looking
  have valueGrows : got.code.Grows valued.code := Growing.plain (.pushValue .all) valuing
  refine ⟨got.size, valued.size, ⟨got, valued, buildGrows.trans getGrows, valuing, lookGrows,
    rfl, rfl⟩, ?_⟩
  intro value label effect store bounded keeps start selects
  have becomesGot : got.code.Becomes body := becomes.of_grows (valueGrows.trans lookGrows)
  obtain ⟨result, reached, address, table, holds, found, indexes⟩ :=
    buildMap_reaches rfl distinct building (becomesGot.of_grows getGrows) start
  have gets : Carries body (getField field) [] result _ := .getField rfl
  have ready := gets.reaches getting becomesGot
  rw [holds] at ready
  -- The selector leaves the map as it is.
  obtain ⟨sameField, sameTable⟩ := keeps result
  have stillFound : (effect result).tables[address]? = some table :=
    (sameTable address holds).trans found
  refine ⟨effect result, ⟨[.other (.map address)], result, reached.trans ready, ?_⟩,
    address, table, sameField.trans holds, stillFound, indexes⟩
  exact lookUp_reaches looking becomes stillFound
    (sent_of_indexes (lengths ▸ bounded) lengths distinct indexes selects)

/--
Both ways to dispatch on a string lead to where the source goes.  Every string, and no
string at all, selects one place: the section that lists it, else the section with the
default, else the end of the switch.  The code that tests the cases one by one leads
there, and so does the code that looks the string up, whether its map was built before
or not; it leaves a map for the next time.  Ordinals are integers of the machine, so a
switch that uses them has fewer than `2 ^ 31` sections.
-/
theorem stringDispatch_selects
    (selector : Expr)
    (sections : List Section)
    (starts : List Label)
    (stop : Label)
    (lengths : starts.length = sections.length)
    (distinct : (sections.flatMap Section.keys).Nodup)
    (value : Option String) :
    ∃ label, PlacedSections.Selects (sections.zip starts) stop (value.map .string) label ∧
      (∀ other, PlacedSections.Selects (sections.zip starts) stop (value.map .string) other →
        other = label) ∧
      (∀ before after body,
        dispatchByTests selector sections starts (Emit.defaultStart sections starts stop) before =
          .ok () after →
        after.code.Becomes body →
        ∃ first last, SelectorCode selector before after first last ∧ ∀ effect store,
          ∃ result, Evaluation.Arrives ⟨first, last, .ofText value, effect⟩ body before.size store
            (body.position label) result) ∧
      (sections.length < 2147483648 → ∀ before after body,
        dispatchByMap selector sections starts (Emit.defaultStart sections starts stop) before =
          .ok () after →
        after.code.Becomes body →
        let field := before.cls.newSwitchMap.1
        ∃ first last, SelectorCode selector before after first last ∧ ∀ effect store,
          Evaluation.KeepsMap ⟨first, last, .ofText value, effect⟩ field →
          store.statics (key field) = .null ∨ store.HasMap field sections →
          ∃ result, Evaluation.Arrives ⟨first, last, .ofText value, effect⟩ body before.size store
            (body.position label) result ∧ result.HasMap field sections) := by
  have once : (PlacedSections.keys (sections.zip starts)).Nodup := by rwa [keys_zip lengths]
  obtain ⟨label, selects⟩ :=
    PlacedSections.Selects.exists_label (sections.zip starts) stop (value.map .string)
  refine ⟨label, selects, fun other also => also.unique once selects, ?_, ?_⟩
  · intro before after body success becomes
    obtain ⟨first, last, stands, arrives⟩ := dispatchByTests_arrives once success becomes
    exact ⟨first, last, stands, fun effect store => arrives value label effect store selects⟩
  · intro bounded before after body success becomes
    obtain ⟨first, last, stands, leads⟩ := dispatchByMap_leads lengths distinct success becomes
    exact ⟨first, last, stands, fun effect store keeps start =>
      leads value label effect store bounded keeps start selects⟩

/-- Two sections, the first of which is the default as well. -/
def twoSections : List Section :=
  [{ labels := [some (.ofConst (.string "a")), none], body := [] },
    { labels := [some (.ofConst (.string "b"))], body := [] }]

/-- A method in which three labels stand at the first three positions. -/
def threeLabels : Emission :=
  { method :=
      { MethodContext.start "A" "m" true .void false with
        code :=
          { instructions := #[.plain .nop, .plain .nop, .plain .nop]
            marks := #[some 0, some 1, some 2] } }
    cls := { name := "A" } }

/-- A string is looked up in a map that is built on the way. -/
theorem stringDispatch_selects_twoSections :
    ∃ after body first last,
      dispatchByMap (.ofConst (.string "b")) twoSections [⟨0⟩, ⟨1⟩] ⟨0⟩ threeLabels =
          .ok () after ∧
        after.code.finish = .ok body ∧
        ∀ store, store.statics (key threeLabels.cls.newSwitchMap.1) = .null →
          ∃ result, Evaluation.Arrives ⟨first, last, .text "b", id⟩ body 3 store 1 result := by
  have run : ∃ after body,
      dispatchByMap (.ofConst (.string "b")) twoSections [⟨0⟩, ⟨1⟩] ⟨0⟩ threeLabels =
        .ok () after ∧ after.code.finish = .ok body ∧ after.code.position? ⟨1⟩ = some 1 :=
    ⟨_, _, rfl, rfl, rfl⟩
  obtain ⟨after, body, emitted, finished, bound⟩ := run
  have here : body.position ⟨1⟩ = 1 := (Code.finishes_of_finish finished).position _ _ bound
  obtain ⟨label, -, only, -, byMap⟩ :=
    stringDispatch_selects (.ofConst (.string "b")) twoSections [⟨0⟩, ⟨1⟩] ⟨2⟩ rfl (by decide)
      (some "b")
  have same : ⟨1⟩ = label :=
    only ⟨1⟩ (.listed (List.mem_cons_of_mem _ List.mem_cons_self) (by decide))
  obtain ⟨first, last, -, arrives⟩ := byMap (by decide) threeLabels after body emitted
    ⟨after.code, .refl _, Code.finishes_of_finish finished⟩
  refine ⟨after, body, first, last, emitted, finished, fun store absent => ?_⟩
  obtain ⟨result, arrived, -⟩ := arrives id store (fun _ => ⟨rfl, fun _ _ => rfl⟩) (.inl absent)
  rw [← same, here] at arrived
  exact ⟨result, arrived⟩

end Dispatching
end StackCode
