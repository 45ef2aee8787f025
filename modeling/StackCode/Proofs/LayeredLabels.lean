import Mathlib.Logic.Function.Basic
import StackCode.Proofs.Growth

/-!
# Labels in layers

What a table of labels answers after any sequence of operations.  The operations
alone tell which layers are open and which of them owns a statement; a layer is
known by its number, so one that was popped is never taken for a later one.  The
table has labels for a statement exactly if they were asked for under the layer
that owns it now, and these are the labels that were given then.  Labels given
under different layers, or to different statements, have nothing in common.
-/

namespace StackCode

namespace LabelTable

/-- What can be done with a table. -/
inductive Operation where
  /-- Begin a copy of some statements. -/
  | push (ids : List StmtId)
  /-- End the innermost copy. -/
  | pop
  /-- Look the labels of a statement up. -/
  | get (id : StmtId)
  /-- Look the labels of a statement up, and give it labels if it has none. -/
  | allocate (id : StmtId)

/-- What was done with a table, the newest operation first. -/
abbrev History := List Operation

/-! ## Layers -/

/-- A layer that is open. -/
structure OpenLayer where
  /-- The number of layers pushed up to this one; the base has the number zero. -/
  number : Nat
  /-- The statements of the copy. -/
  owned : List StmtId

/-- The number of the innermost layer that owns a statement. -/
def ownerIn (id : StmtId) : List OpenLayer → Nat
  | [] => 0
  | layer :: outer => if id ∈ layer.owned then layer.number else ownerIn id outer

theorem ownerIn_lt {id : StmtId} {layers : List OpenLayer} {bound : Nat} (positive : 0 < bound)
    (below : ∀ layer ∈ layers, layer.number < bound) : ownerIn id layers < bound := by
  induction layers with
  | nil => exact positive
  | cons layer outer ih =>
    obtain ⟨first, below⟩ := List.forall_mem_cons.mp below
    rw [ownerIn]
    split
    · exact first
    · exact ih below

/-- Layers above the owner do not matter. -/
theorem ownerIn_append_of_le {id : StmtId} {newer older : List OpenLayer} {bound : Nat}
    (above : ∀ layer ∈ newer, bound < layer.number) (below : ownerIn id (newer ++ older) ≤ bound) :
    ownerIn id (newer ++ older) = ownerIn id older := by
  induction newer with
  | nil => rfl
  | cons layer newer ih =>
    obtain ⟨first, above⟩ := List.forall_mem_cons.mp above
    rw [List.cons_append, ownerIn] at below ⊢
    split at below
    · omega
    · next foreign => rw [if_neg foreign, ih above below]

namespace History

/-- The number of layers that were pushed. -/
def pushed : History → Nat
  | [] => 0
  | .push _ :: earlier => pushed earlier + 1
  | _ :: earlier => pushed earlier

/-- The layers that are open, the innermost one first. -/
def opened : History → List OpenLayer
  | [] => []
  | .push ids :: earlier => { number := pushed earlier + 1, owned := ids } :: opened earlier
  | .pop :: earlier => (opened earlier).tail
  | _ :: earlier => opened earlier

/-- The number of the layer that owns a statement. -/
def owner (history : History) (id : StmtId) : Nat := ownerIn id history.opened

theorem pushed_le (more history : History) : history.pushed ≤ pushed (more ++ history) := by
  induction more with
  | nil => exact Nat.le_refl _
  | cons operation more ih => cases operation <;> simp only [List.cons_append, pushed] <;> omega

/-- Layers are numbered from the outside in. -/
theorem opened_ordered (history : History) :
    history.opened.Pairwise (fun inner outer => outer.number < inner.number) ∧
      ∀ layer ∈ history.opened, 0 < layer.number ∧ layer.number ≤ history.pushed := by
  induction history with
  | nil => simp [opened]
  | cons operation earlier ih =>
    obtain ⟨ordered, bounded⟩ := ih
    cases operation with
    | push ids =>
      simp only [opened, pushed, List.pairwise_cons, List.forall_mem_cons]
      refine ⟨⟨fun layer member => ?_, ordered⟩, by omega, fun layer member => ?_⟩
      · exact Nat.lt_succ_of_le (bounded layer member).2
      · exact ⟨(bounded layer member).1, Nat.le_succ_of_le (bounded layer member).2⟩
    | pop => exact ⟨ordered.tail, fun layer member => bounded layer (List.mem_of_mem_tail member)⟩
    | get id => exact ⟨ordered, bounded⟩
    | allocate id => exact ⟨ordered, bounded⟩

theorem owner_le (history : History) (id : StmtId) : history.owner id ≤ history.pushed :=
  Nat.le_of_lt_succ (ownerIn_lt (Nat.succ_pos _) fun layer member =>
    Nat.lt_succ_of_le ((opened_ordered history).2 layer member).2)

/-- Of the layers that were open at a time, an outer part is still open later. -/
theorem filter_opened_suffix (more history : History) :
    (opened (more ++ history)).filter (fun layer => layer.number ≤ history.pushed) <:+
      history.opened := by
  induction more with
  | nil =>
    rw [List.nil_append, List.filter_eq_self.mpr]
    exact fun layer member => decide_eq_true ((opened_ordered history).2 layer member).2
  | cons operation more ih =>
    cases operation with
    | push ids =>
      have grown := pushed_le more history
      rwa [List.cons_append, opened, List.filter_cons_of_neg (by simp; omega)]
    | pop => exact ((List.tail_suffix _).filter _).trans ih
    | get id => exact ih
    | allocate id => exact ih

variable {history inner earlier : History}

/-- Layers that are open again after some operations were open all the time. -/
theorem opened_suffix (suffix : earlier <:+ inner)
    (same : opened (inner ++ history) = history.opened) :
    history.opened <:+ opened (earlier ++ history) := by
  obtain ⟨more, rfl⟩ := suffix
  have within := filter_opened_suffix more (earlier ++ history)
  rw [List.append_assoc] at same
  rwa [same, List.filter_eq_self.mpr] at within
  intro layer member
  have old := ((opened_ordered history).2 layer member).2
  exact decide_eq_true (old.trans (pushed_le earlier history))

/-- While a layer is open, what belongs to a layer below it belongs to the same one as before. -/
theorem owner_of_le {ids : List StmtId} {id : StmtId}
    (same : opened (inner ++ .push ids :: history) = opened (.push ids :: history))
    (suffix : .allocate id :: earlier <:+ inner)
    (below : owner (earlier ++ .push ids :: history) id ≤ history.pushed) :
    owner (earlier ++ .push ids :: history) id = history.owner id := by
  obtain ⟨newer, split⟩ := opened_suffix ((List.suffix_cons _ _).trans suffix) same
  have ordered := (opened_ordered (earlier ++ .push ids :: history)).1
  rw [← split, List.pairwise_append] at ordered
  rw [opened, List.append_cons] at split
  rw [owner, ← split] at below ⊢
  refine ownerIn_append_of_le (List.forall_mem_append.mpr ⟨fun layer member => ?_, ?_⟩) below
  · exact Nat.lt_of_succ_lt (ordered.2.2 layer member _ List.mem_cons_self)
  · exact List.forall_mem_singleton.mpr (Nat.lt_succ_self _)

end History

/-! ## Tables -/

/-- A table has, in every layer, the labels that were recorded under the number of the layer. -/
inductive Represents (record : Nat → StmtId → Option StmtLabels) :
    List OpenLayer → LabelTable → Prop where
  | base {entries : StmtLabelMap} (labels : ∀ id, entries.lookup id = record 0 id) :
    Represents record [] { base := entries }
  | layer {opened : List OpenLayer} {table : LabelTable}
    (outer : Represents record opened table)
    {number : Nat} {ids : List StmtId} {entries : StmtLabelMap}
    (labels : ∀ id ∈ ids, entries.lookup id = record number id) :
    Represents record ({ number, owned := ids } :: opened)
      { table with layers := { owned := ids, labels := entries } :: table.layers }

namespace Represents

variable {record changed : Nat → StmtId → Option StmtLabels} {opened : List OpenLayer}
variable {table : LabelTable} {id : StmtId} {labels : StmtLabels}

theorem get? (represents : Represents record opened table) (id : StmtId) :
    table.get? id = record (ownerIn id opened) id := by
  induction represents with
  | base labels => exact labels id
  | @layer _ _ _ _ ids _ labels ih =>
    by_cases owned : id ∈ ids
    · simp [LabelTable.get?, find?, ownerIn, owned, labels]
    · simpa [LabelTable.get?, find?, ownerIn, owned] using ih

/-- What is recorded under other numbers does not matter. -/
theorem congr (represents : Represents record opened table)
    (bottom : changed 0 = record 0)
    (agree : ∀ layer ∈ opened, changed layer.number = record layer.number) :
    Represents changed opened table := by
  induction represents with
  | base labels => exact .base fun id => by rw [labels, bottom]
  | layer outer labels ih =>
    obtain ⟨first, agree⟩ := List.forall_mem_cons.mp agree
    exact .layer (ih agree) fun id member => by rw [labels id member, first]

theorem lookup_enter {entries : StmtLabelMap} {layer : Nat} {other : StmtId}
    (own : changed layer id = some labels)
    (same : other ≠ id → entries.lookup other = changed layer other) :
    ((id, labels) :: entries).lookup other = changed layer other := by
  by_cases equal : other = id
  · rw [equal, own, List.lookup_cons_self]
  · rw [List.lookup_cons, beq_eq_false_iff_ne.mpr equal, ← same equal]

/-- Labels are entered under the layer that owns their statement. -/
theorem insert
    (represents : Represents record opened table)
    (ordered : opened.Pairwise fun inner outer => outer.number < inner.number)
    (positive : ∀ layer ∈ opened, 0 < layer.number)
    (own : changed (ownerIn id opened) id = some labels)
    (others : ∀ layer other, (ownerIn id opened = layer → id ≠ other) →
      changed layer other = record layer other) :
    Represents changed opened (table.insert id labels) := by
  induction represents with
  | base labels =>
    refine .base fun other => lookup_enter own fun different => ?_
    exact (labels other).trans (others _ _ fun _ => different.symm).symm
  | @layer opened table outer number ids entries labels ih =>
    obtain ⟨lower, ordered⟩ := List.pairwise_cons.mp ordered
    obtain ⟨numbered, positive⟩ := List.forall_mem_cons.mp positive
    by_cases owned : id ∈ ids
    · simp only [ownerIn, if_pos owned] at own others
      have kept : ∀ other < number, changed other = record other := fun other less =>
        funext fun _ => others _ _ fun same => absurd same (Nat.ne_of_gt less)
      have entered : ∀ other ∈ ids, List.lookup other ((id, _) :: entries) = changed number other :=
        fun other member => lookup_enter own fun different =>
          (labels other member).trans (others _ _ fun _ => different.symm).symm
      have stored := (outer.congr (kept 0 numbered) fun layer member => kept _ (lower layer member))
        |>.layer entered
      simpa only [LabelTable.insert, insertInto, if_pos owned] using stored
    · simp only [ownerIn, if_neg owned] at own others
      have different : ownerIn id opened ≠ number := Nat.ne_of_lt (ownerIn_lt numbered lower)
      have entered : ∀ other ∈ ids, entries.lookup other = changed number other :=
        fun other member =>
          (labels other member).trans (others _ _ fun same => absurd same different).symm
      have stored := (ih ordered positive own others).layer entered
      simp only [LabelTable.insert, insertInto, if_neg owned] at stored ⊢
      cases insertion : insertInto id _ table.layers <;>
        simpa only [insertion, Option.map_none, Option.map_some] using stored

theorem pop (represents : Represents record opened table) :
    Represents record opened.tail table.popLayer := by
  cases represents with
  | base labels => exact .base labels
  | layer outer labels => exact outer

end Represents

/-! ## Runs -/

/-- A source of labels with a state of its own. -/
structure Allocator where
  /-- What the allocator remembers. -/
  State : Type
  /-- What it remembers at first. -/
  start : State
  /-- Hand out a label. -/
  next : StateM State Label

namespace Allocator

variable (pool : Allocator)

/-- The state after the given number of labels was handed out. -/
def after : Nat → pool.State
  | 0 => pool.start
  | count + 1 => (pool.next (after count)).2

/-- The labels that are handed out, one after the other. -/
def drawn (count : Nat) : Label := (pool.next (pool.after count)).1

/-- What an operation does to a table and to the allocator. -/
def perform (state : LabelTable × pool.State) : Operation → LabelTable × pool.State
  | .push ids => (state.1.pushLayer ids, state.2)
  | .pop => (state.1.popLayer, state.2)
  | .get _ => state
  | .allocate id =>
    let answer := state.1.getOrAllocate pool.next id state.2
    (answer.1.2, answer.2)

/-- The table, empty at first, and the allocator after a history. -/
def run : History → LabelTable × pool.State
  | [] => ({}, pool.start)
  | operation :: earlier => pool.perform (run earlier) operation

/-- The labels that the table has for a statement after a history. -/
def visible (history : History) (id : StmtId) : Option StmtLabels :=
  (pool.run history).1.get? id

/-- The labels that a statement is given if they are asked for after a history. -/
def given (history : History) (id : StmtId) : StmtLabels :=
  let state := pool.run history
  (state.1.getOrAllocate pool.next id state.2).1.1

/-- The labels that were given to a statement under the layer with a number. -/
def recorded : History → Nat → StmtId → Option StmtLabels
  | [], _, _ => none
  | .allocate id :: earlier, layer, other =>
    if History.owner earlier id = layer ∧ id = other then some (pool.given earlier id)
    else recorded earlier layer other
  | _ :: earlier, layer, other => recorded earlier layer other

/-- A statement that has labels is given these, and any other one gets new ones. -/
theorem run_allocate (history : History) (id : StmtId) :
    pool.visible history id = some (pool.given history id) ∧
        pool.run (.allocate id :: history) = pool.run history ∨
      pool.visible history id = none ∧
        (pool.run (.allocate id :: history)).1 =
          (pool.run history).1.insert id (pool.given history id) ∧
        ∀ count, (pool.run history).2 = pool.after count →
          (pool.given history id).toList = (List.range' count 3).map pool.drawn ∧
            (pool.run (.allocate id :: history)).2 = pool.after (count + 3) := by
  unfold visible given
  cases known : (pool.run history).1.get? id <;> simp only [run, perform, getOrAllocate, known]
  · refine .inr ⟨trivial, rfl, fun count same => ?_⟩
    rw [same]
    exact ⟨rfl, rfl⟩
  · exact .inl ⟨rfl, rfl⟩

variable {pool} {history : History} {id : StmtId} {labels : StmtLabels}

/-- Nothing was given under a layer that is still to be pushed. -/
theorem recorded_eq_none {layer : Nat} (unused : history.pushed < layer) (id : StmtId) :
    pool.recorded history layer id = none := by
  induction history with
  | nil => rfl
  | cons operation earlier ih =>
    cases operation with
    | push ids => exact ih (Nat.lt_of_succ_lt unused)
    | pop => exact ih unused
    | get other => exact ih unused
    | allocate other =>
      have older : History.owner earlier other < layer :=
        (History.owner_le earlier other).trans_lt unused
      rw [recorded, if_neg fun same => Nat.ne_of_lt older same.1]
      exact ih unused

theorem recorded_allocate
    (known : pool.recorded history (history.owner id) id = some (pool.given history id)) :
    pool.recorded (.allocate id :: history) = pool.recorded history := by
  funext layer other
  refine ite_eq_right_iff.mpr ?_
  rintro ⟨rfl, rfl⟩
  exact known.symm

variable (pool) in
/-- The table represents the layers that its history has opened. -/
theorem represents_run (history : History) :
    Represents (pool.recorded history) history.opened (pool.run history).1 := by
  induction history with
  | nil => exact .base fun _ => rfl
  | cons operation earlier ih =>
    cases operation with
    | push ids => exact ih.layer fun id _ => (recorded_eq_none (Nat.lt_succ_self _) id).symm
    | pop => exact ih.pop
    | get id => exact ih
    | allocate id =>
      obtain ⟨known, same⟩ | ⟨-, entered, -⟩ := pool.run_allocate earlier id
      · rw [recorded_allocate ((ih.get? id).symm.trans known), same]
        exact ih
      · obtain ⟨ordered, bounded⟩ := History.opened_ordered earlier
        rw [entered]
        refine ih.insert ordered (fun layer member => (bounded layer member).1)
          (if_pos ⟨rfl, rfl⟩) ?_
        exact fun layer other different => if_neg fun same => different same.1 same.2

/-- The table has what was recorded under the layer that owns a statement. -/
theorem visible_eq (history : History) (id : StmtId) :
    pool.visible history id = pool.recorded history (history.owner id) id :=
  (pool.represents_run history).get? id

theorem given_eq (recording : pool.recorded history (history.owner id) id = some labels) :
    pool.given history id = labels := by
  rw [← visible_eq] at recording
  obtain ⟨known, -⟩ | ⟨unknown, -⟩ := pool.run_allocate history id
  · exact Option.some.inj (known.symm.trans recording)
  · cases unknown.symm.trans recording

/-- Later operations add to the record and change nothing in it. -/
theorem recorded_append {more : History} {layer : Nat} :
    pool.recorded (more ++ history) layer id = some labels ↔
      pool.recorded history layer id = some labels ∨
        ∃ earlier, .allocate id :: earlier <:+ more ∧
          History.owner (earlier ++ history) id = layer ∧
            pool.recorded (earlier ++ history) layer id = none ∧
              pool.given (earlier ++ history) id = labels := by
  induction more with
  | nil => simp
  | cons operation more ih =>
    simp only [List.suffix_cons_iff, or_and_right, exists_or, List.cons_append]
    rw [or_left_comm, ← ih]
    cases operation with
    | push ids => simp [recorded]
    | pop => simp [recorded]
    | get other => simp [recorded]
    | allocate other =>
      rw [recorded]
      split
      · next same =>
        obtain ⟨rfl, rfl⟩ := same
        cases known :
          pool.recorded (more ++ history) (History.owner (more ++ history) other) other with
        | none => simp [known]
        | some found => simp [given_eq known, known]
      · next different =>
        rw [or_iff_right]
        rintro ⟨_, same, owned, -⟩
        cases same
        exact different ⟨owned, rfl⟩

/-- Labels that were recorded were handed out before, no label for two records. -/
theorem recorded_disjoint (distinct : Function.Injective pool.drawn) (history : History) :
    ∃ count, (pool.run history).2 = pool.after count ∧
      (∀ layer id labels, pool.recorded history layer id = some labels →
        ∀ label ∈ labels.toList, ∃ index < count, pool.drawn index = label) ∧
      ∀ layer id labels otherLayer otherId others,
        pool.recorded history layer id = some labels →
          pool.recorded history otherLayer otherId = some others →
            (layer, id) ≠ (otherLayer, otherId) → labels.toList.Disjoint others.toList := by
  induction history with
  | nil => exact ⟨0, rfl, nofun, nofun⟩
  | cons operation earlier ih =>
    cases operation with
    | push ids => exact ih
    | pop => exact ih
    | get id => exact ih
    | allocate id =>
      obtain ⟨count, allocator, drawing, disjoint⟩ := ih
      obtain ⟨known, same⟩ | ⟨-, -, new⟩ := pool.run_allocate earlier id
      · refine ⟨count, same ▸ allocator, ?_⟩
        rw [recorded_allocate ((visible_eq earlier id).symm.trans known)]
        exact ⟨drawing, disjoint⟩
      · obtain ⟨labels, allocated⟩ := new count allocator
        have recent : ∀ label ∈ (pool.given earlier id).toList,
            ∃ index, count ≤ index ∧ index < count + 3 ∧ pool.drawn index = label := by
          simp only [labels, List.mem_map, List.mem_range'_1, and_assoc, imp_self, implies_true]
        have apart : ∀ layer other found, pool.recorded earlier layer other = some found →
            (pool.given earlier id).toList.Disjoint found.toList := by
          intro layer other found recording label isNew isOld
          obtain ⟨old, less, oldSame⟩ := drawing _ _ _ recording label isOld
          obtain ⟨index, least, -, same⟩ := recent label isNew
          obtain rfl := distinct (same.trans oldSame.symm)
          omega
        refine ⟨count + 3, allocated, ?_, ?_⟩
        · intro layer other found recording label member
          rw [recorded] at recording
          split at recording
          · cases recording
            obtain ⟨index, -, less, same⟩ := recent label member
            exact ⟨index, less, same⟩
          · obtain ⟨index, less, same⟩ := drawing _ _ _ recording label member
            exact ⟨index, by omega, same⟩
        · intro layer other found otherLayer another others first second different
          rw [recorded] at first second
          split at first <;> split at second
          · next one two => exact absurd (by rw [← one.1, ← one.2, ← two.1, ← two.2]) different
          · cases first
            exact apart _ _ _ second
          · cases second
            exact fun _ old new => apart _ _ _ first new old
          · exact disjoint _ _ _ _ _ _ first second different

variable (pool) in
/--
If the allocator never repeats a label: labels stay while the layer that owns their
statement does; those of different layers or statements have nothing in common; a
statement has labels exactly if they were asked for under the layer that owns it.
When a layer is popped, what was visible before it was pushed is visible again,
together with what was since then given under the layers below it.  The base is
never popped.
-/
theorem visible_by_layer (distinct : Function.Injective pool.drawn) (history : History) :
    (∀ more id labels, pool.visible history id = some labels →
      History.owner (more ++ history) id = history.owner id →
        pool.visible (more ++ history) id = some labels) ∧
    (∀ first second id other,
      .allocate id :: first <:+ history → .allocate other :: second <:+ history →
        (History.owner first id, id) ≠ (History.owner second other, other) →
          (pool.given first id).toList.Disjoint (pool.given second other).toList) ∧
    (∀ id labels, pool.visible history id = some labels ↔
      ∃ earlier, .allocate id :: earlier <:+ history ∧
        History.owner earlier id = history.owner id ∧ pool.given earlier id = labels) ∧
    (∀ inner ids,
      History.opened (inner ++ .push ids :: history) = History.opened (.push ids :: history) →
        ∀ id labels, pool.visible (.pop :: (inner ++ .push ids :: history)) id = some labels ↔
          pool.visible history id = some labels ∨
            ∃ earlier, .allocate id :: earlier <:+ inner ∧
              History.owner (earlier ++ .push ids :: history) id ≤ history.pushed ∧
                pool.visible (earlier ++ .push ids :: history) id = none ∧
                  pool.given (earlier ++ .push ids :: history) id = labels) ∧
    (history.opened = [] → pool.run (.pop :: history) = pool.run history) := by
  have asked : ∀ id earlier, .allocate id :: earlier <:+ history →
      pool.recorded history (History.owner earlier id) id = some (pool.given earlier id) := by
    rintro id earlier ⟨more, rfl⟩
    exact recorded_append.mpr (.inl (if_pos ⟨rfl, rfl⟩))
  obtain ⟨_, -, -, disjoint⟩ := recorded_disjoint distinct history
  refine ⟨fun more id labels => ?_, fun first second id other firstAsked secondAsked => ?_,
    fun id labels => ⟨fun found => ?_, ?_⟩, fun inner ids same id labels => ?_, fun none => ?_⟩
  · rw [visible_eq, visible_eq]
    intro recording same
    rw [same]
    exact recorded_append.mpr (.inl recording)
  · exact disjoint _ _ _ _ _ _ (asked id first firstAsked) (asked other second secondAsked)
  · rw [visible_eq, ← List.append_nil history, recorded_append, List.append_nil] at found
    obtain ⟨_, ⟨⟩⟩ | ⟨earlier, suffix, owned, -, same⟩ := found
    rw [List.append_nil] at owned same
    exact ⟨earlier, suffix, owned, same⟩
  · rintro ⟨earlier, suffix, owned, rfl⟩
    rw [visible_eq, ← owned]
    exact asked id earlier suffix
  · have popped : History.owner (.pop :: (inner ++ .push ids :: history)) id = history.owner id :=
      congrArg (fun layers : List OpenLayer => ownerIn id layers.tail) same
    rw [visible_eq, popped, visible_eq]
    refine recorded_append.trans (or_congr_right (exists_congr fun earlier => ?_))
    refine and_congr_right fun suffix => ?_
    constructor
    · rintro ⟨owned, unknown, rfl⟩
      exact ⟨owned ▸ history.owner_le id, by rw [visible_eq, owned, unknown], rfl⟩
    · rintro ⟨below, unknown, rfl⟩
      have owned := History.owner_of_le same suffix below
      rw [visible_eq, owned] at unknown
      exact ⟨owned, unknown, rfl⟩
  · have represents := pool.represents_run history
    refine Prod.ext ?_ rfl
    change popLayer _ = _
    rw [none] at represents
    generalize (pool.run history).1 = table at represents ⊢
    cases represents
    rfl

/-- The allocator that counts. -/
def counting : Allocator := { State := Nat, start := 0, next := fun count => (⟨count⟩, count + 1) }

/-- A copy has labels of its own; after it, the shared ones are back. -/
theorem visible_by_layer_counting :
    Function.Injective counting.drawn ∧
      counting.visible (.pop :: ([.allocate ⟨2⟩] ++ .push [⟨2⟩] :: [.allocate ⟨2⟩, .get ⟨1⟩])) ⟨2⟩ =
        some { start := ⟨0⟩, next := ⟨1⟩, stop := ⟨2⟩ } := by
  have distinct : Function.Injective counting.drawn := by
    have counted : ∀ count, counting.after count = count := fun count => by
      induction count with
      | zero => rfl
      | succ count ih => exact congrArg Nat.succ ih
    intro first second same
    have indices := congrArg Label.index same
    rwa [drawn, drawn, counted, counted] at indices
  exact ⟨distinct, ((visible_by_layer counting distinct _).2.2.2.1 _ _ rfl _ _).mpr (.inl rfl)⟩

end Allocator
end LabelTable
end StackCode
