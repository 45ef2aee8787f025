import StackCode.Lower.Cleanup

/-!
# Switches

An integral switch dispatches through a table when its keys are consecutive and
through a sorted list of pairs otherwise.  A string switch tests its cases one
by one if it has few sections; with more, it looks the selector up in a map that
is built once and dispatches on the ordinal of the section.
-/

namespace StackCode
namespace Emit

/-- From this number of sections on, a string switch uses a map. -/
def stringMapThreshold : Nat := 7

/-- The constant of a case label. -/
def caseConstant (label : Expr) : Emit Const :=
  match label.constant? with
  | some value => return value
  | none => throw (.nonConstantCaseLabel label.span)

/-- Read something off the constant of a case label. -/
def caseValue (read : Const → Option α) (label : Expr) : Emit α := do
  match read (← caseConstant label) with
  | some value => return value
  | none => throw (.nonConstantCaseLabel label.span)

/-- The labels of all sections together with where their sections begin. -/
def labeledSections (sections : List Section) (starts : List Label) : List (Option Expr × Label) :=
  (sections.zip starts).flatMap fun entry => entry.1.labels.map fun label => (label, entry.2)

/-- The keys of all sections; of equal keys the last one counts. -/
def caseMap (sections : List Section) (starts : List Label) : Emit CaseMap := do
  let entries ← (labeledSections sections starts).mapM fun entry => do
    match entry.1 with
    | none => return (CaseKey.default, entry.2)
    | some label => return (← caseValue CaseKey.ofConst? label, entry.2)
  return entries.reverse

/-- The integral keys of all sections. -/
def integralPairs
    (sections : List Section)
    (starts : List Label) :
    Emit (List (Int32 × Label)) := do
  let pairs ← (labeledSections sections starts).mapM fun entry => do
    match entry.1 with
    | none => return none
    | some label => return some (← caseValue Const.switchKey? label, entry.2)
  return pairs.filterMap fun pair => pair

/-- The instruction that dispatches on pairs in ascending order of their keys. -/
def dispatchSorted (pairs : List (Int32 × Label)) (default : Label) : Instruction :=
  match pairs.head?, pairs.getLast? with
  | some (low, _), some (high, _) =>
    if high.toInt - low.toInt = pairs.length - 1 then
      .tableSwitch low high default (pairs.map Prod.snd)
    else .lookupSwitch default pairs
  | _, _ => .lookupSwitch default pairs

/-- The instruction that dispatches on pairs of keys and labels. -/
def dispatch (pairs : List (Int32 × Label)) (default : Label) : Instruction :=
  dispatchSorted (pairs.mergeSort fun first second => first.1 ≤ second.1) default

/-- Test a selector in a slot against the cases of one section. -/
def testSection (slot : Nat) (labels : List Expr) (start : Label) : Emit Unit := do
  labels.zipIdx.forM fun entry => do
    push (.string (← caseValue Const.string? entry.1))
    loadRef slot
    invoke Library.stringEquals
    if 0 < entry.2 then op .ior
  if !labels.isEmpty then jump .ifne start

/-- The cases of a section, its default left out. -/
def sectionCases (switchSection : Section) : List Expr :=
  switchSection.labels.filterMap fun label => label

/-- Dispatch on a string by testing the sections one by one. -/
def dispatchByTests
    (selector : Expr)
    (sections : List Section)
    (starts : List Label)
    (default : Label) :
    Emit Unit := do
  pushValue selector
  let slot ← newTemp .string
  storeRef slot
  (sections.zip starts).forM fun entry => testSection slot (sectionCases entry.1) entry.2
  goto default

/-- Enter the cases of one section into the map on the stack. -/
def fillMap (ordinal : Nat) (labels : List Expr) : Emit Unit :=
  labels.forM fun label => do
    let text ← caseValue Const.string? label
    op .dup
    push (.string text)
    pushInt (.ofNat ordinal)
    invoke Library.boxInteger
    invoke Library.hashMapPut
    op .pop

/-- Build the map from strings to ordinals unless it is there. -/
def buildMap (field : FieldRef) (sections : List Section) : Emit Unit := do
  let ready ← newLabel
  getField field
  jump .ifnonnull ready
  newObject Library.hashMap
  sections.zipIdx.forM fun entry => fillMap entry.2 (sectionCases entry.1)
  putField field
  mark ready

/-- Dispatch on a string by looking it up; what is not found counts as one section more. -/
def dispatchByMap
    (selector : Expr)
    (sections : List Section)
    (starts : List Label)
    (default : Label) :
    Emit Unit := do
  let field ← takeClass ClassContext.newSwitchMap
  log .debug
    ("string switch with " ++ toString sections.length ++ " sections uses " ++ field.text)
  buildMap field sections
  let found ← newLabel
  let ready ← newLabel
  let miss : Int32 := .ofNat sections.length
  getField field
  pushValue selector
  invoke Library.hashMapGet
  op .dup
  jump .ifnonnull found
  op .pop
  pushInt miss
  goto ready
  mark found
  checkCast (.named Library.integer)
  invoke Library.integerValue
  mark ready
  emit (.tableSwitch 0 miss default (starts ++ [default]))

/-- Dispatch on the selector of a switch. -/
def lowerDispatch
    (selector : Expr)
    (kind : SelectorKind)
    (sections : List Section)
    (starts : List Label)
    (default : Label) :
    Emit Unit := do
  match kind with
  | .integral =>
    pushValue selector
    emit (dispatch (← integralPairs sections starts) default)
  | .enumeration ordinal =>
    pushValue selector
    invoke ordinal
    emit (dispatch (← integralPairs sections starts) default)
  | .string =>
    if sections.length < stringMapThreshold then dispatchByTests selector sections starts default
    else dispatchByMap selector sections starts default

/-- Where an unmatched selector goes. -/
def defaultStart (sections : List Section) (starts : List Label) (stop : Label) : Label :=
  (((sections.zip starts).find? fun entry => entry.1.isDefault).map Prod.snd).getD stop

/-- A switch. -/
def lowerSwitch
    (lower : Lowering)
    (id : StmtId)
    (selector : Expr)
    (kind : SelectorKind)
    (sections : List Section) :
    Emit Unit :=
  inScope do
    let labels ← labelsOf id
    let starts ← newLabels sections.length
    let cases ← caseMap sections starts
    lowerDispatch selector kind sections starts (defaultStart sections starts labels.stop)
    pushSwitch id cases
    pushFrame id .switch
    (sections.zip starts).forM fun entry => do
      mark entry.2
      entry.1.body.forM lower
    popFrame
    popSwitch
    mark labels.stop

end Emit
end StackCode
