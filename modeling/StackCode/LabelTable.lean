import StackCode.Span

/-!
# Labels of statements

The labels of loops, switches and labeled statements are found by statement
identifier in a table with layers.  Emitting a statement a second time pushes a
layer that owns the statements inside it, so the copy gets labels of its own
while jumps to statements outside still find the shared ones.
-/

namespace StackCode

/-- The labels of a statement in one emission. -/
structure StmtLabels where
  /-- Where the statement begins. -/
  start : Label
  /-- Where a `continue` lands. -/
  next : Label
  /-- Where a `break` lands. -/
  stop : Label
  deriving DecidableEq, Repr, Inhabited

/-- A finite map from statements to their labels; the newest entry counts. -/
abbrev StmtLabelMap := List (StmtId × StmtLabels)

/-- The labels given out while a copy of some statements is emitted. -/
structure LabelLayer where
  /-- The statements inside the copy. -/
  owned : List StmtId
  /-- The labels given out so far. -/
  labels : StmtLabelMap := []
  deriving Repr, Inhabited

/-- The labels of one method: a base layer that owns every statement, and the copies in progress. -/
structure LabelTable where
  /-- The copies in progress, the innermost one first. -/
  layers : List LabelLayer := []
  /-- The labels outside of every copy. -/
  base : StmtLabelMap := []
  deriving Repr, Inhabited

namespace LabelTable

/-- Begin a copy of the given statements. -/
def pushLayer (table : LabelTable) (ids : List StmtId) : LabelTable :=
  { table with layers := { owned := ids } :: table.layers }

/-- End the innermost copy; the base layer stays. -/
def popLayer (table : LabelTable) : LabelTable :=
  { table with layers := table.layers.tail }

/-- The number of layers, the base included. -/
def depth (table : LabelTable) : Nat := table.layers.length + 1

/-- The labels of a statement in the innermost layer that owns it. -/
def find? (base : StmtLabelMap) (id : StmtId) : List LabelLayer → Option StmtLabels
  | [] => base.lookup id
  | layer :: outer => if id ∈ layer.owned then layer.labels.lookup id else find? base id outer

/-- The labels of a statement in the current emission, if it has any yet. -/
def get? (table : LabelTable) (id : StmtId) : Option StmtLabels :=
  find? table.base id table.layers

/-- A copy has no labels of its own statements yet. -/
theorem get?_pushLayer_of_mem
    (table : LabelTable)
    {ids : List StmtId}
    {id : StmtId}
    (owned : id ∈ ids) :
    (table.pushLayer ids).get? id = none := by
  simp [get?, pushLayer, find?, owned]

/-- A copy shares the labels of all other statements. -/
theorem get?_pushLayer_of_not_mem
    (table : LabelTable)
    {ids : List StmtId}
    {id : StmtId}
    (foreign : id ∉ ids) :
    (table.pushLayer ids).get? id = table.get? id := by
  simp [get?, pushLayer, find?, foreign]

/-- Enter labels into the innermost of the given layers that owns the statement. -/
def insertInto (id : StmtId) (labels : StmtLabels) : List LabelLayer → Option (List LabelLayer)
  | [] => none
  | layer :: outer =>
    if id ∈ layer.owned then some ({ layer with labels := (id, labels) :: layer.labels } :: outer)
    else (insertInto id labels outer).map (layer :: ·)

/-- Give a statement its labels in the current emission. -/
def insert (table : LabelTable) (id : StmtId) (labels : StmtLabels) : LabelTable :=
  match insertInto id labels table.layers with
  | some layers => { table with layers }
  | none => { table with base := (id, labels) :: table.base }

theorem insertInto_cons
    {id : StmtId}
    {labels : StmtLabels}
    {layer : LabelLayer}
    {outer inserted : List LabelLayer} :
    insertInto id labels (layer :: outer) = some inserted ↔
      id ∈ layer.owned ∧ { layer with labels := (id, labels) :: layer.labels } :: outer = inserted ∨
        id ∉ layer.owned ∧ ∃ rest, insertInto id labels outer = some rest ∧
          layer :: rest = inserted := by
  by_cases owned : id ∈ layer.owned <;> simp [insertInto, owned]

/-- Labels put into a layer are found there. -/
theorem find?_of_insertInto_eq_some
    {base : StmtLabelMap}
    {id : StmtId}
    {labels : StmtLabels}
    {layers inserted : List LabelLayer}
    (insertion : insertInto id labels layers = some inserted) :
    find? base id inserted = some labels := by
  induction layers generalizing inserted with
  | nil => simp [insertInto] at insertion
  | cons layer outer ih =>
    obtain ⟨owned, rfl⟩ | ⟨foreign, rest, restInsertion, rfl⟩ := insertInto_cons.mp insertion
    · simp [find?, owned]
    · simpa [find?, foreign] using ih restInsertion

/-- Labels that belong to no layer are found at the bottom. -/
theorem find?_of_insertInto_eq_none
    {base : StmtLabelMap}
    {id : StmtId}
    {labels : StmtLabels}
    {layers : List LabelLayer}
    (insertion : insertInto id labels layers = none) :
    find? ((id, labels) :: base) id layers = some labels := by
  induction layers with
  | nil => simp [find?]
  | cons layer outer ih =>
    by_cases owned : id ∈ layer.owned
    · simp [insertInto, owned] at insertion
    · simp only [insertInto, owned, if_false, Option.map_eq_none_iff] at insertion
      simpa [find?, owned] using ih insertion

/-- A statement has the labels that it was given last. -/
@[simp] theorem get?_insert_self (table : LabelTable) (id : StmtId) (labels : StmtLabels) :
    (table.insert id labels).get? id = some labels := by
  unfold insert get?
  cases insertion : insertInto id labels table.layers with
  | none => exact find?_of_insertInto_eq_none insertion
  | some layers => exact find?_of_insertInto_eq_some insertion

/-- The labels of a statement in the current emission; a statement without any gets fresh ones. -/
def getOrAllocate
    [Monad m]
    (fresh : m Label)
    (table : LabelTable)
    (id : StmtId) :
    m (StmtLabels × LabelTable) := do
  match table.get? id with
  | some labels => return (labels, table)
  | none =>
    let start ← fresh
    let next ← fresh
    let stop ← fresh
    let labels : StmtLabels := { start, next, stop }
    return (labels, table.insert id labels)

end LabelTable

end StackCode
