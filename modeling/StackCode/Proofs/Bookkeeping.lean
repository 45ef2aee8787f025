import Mathlib.Data.List.Nodup
import Mathlib.Data.List.Pairwise
import StackCode.Proofs.Woven

/-!
# Bookkeeping

Lowering keeps books: every label is bound at most once, and everything that is
opened is closed again.  This module states what is in order before a step and
after it.  A step may bind the labels that are set aside for it, the labels of
statements that are lowered in it, the points of resumption that it claims, and
labels that are handed out on the way, but no others.
-/

namespace StackCode

variable {label : Label}

namespace LabelTable

variable {id : StmtId} {labels : StmtLabels} {table : LabelTable}

/-- All labels that were given to statements, in whatever copy. -/
def entries (table : LabelTable) : List (StmtId × StmtLabels) :=
  table.layers.flatMap LabelLayer.labels ++ table.base

/-- The labels that some statement has. -/
def given (table : LabelTable) : List Label := table.entries.flatMap fun entry => entry.2.toList

/-- Labels that are found are entries of the table. -/
theorem mem_entries_of_get?_eq_some (found : table.get? id = some labels) :
    (id, labels) ∈ table.entries := by
  obtain ⟨layers, base⟩ := table
  unfold get? at found
  unfold entries
  dsimp only at found ⊢
  induction layers with
  | nil => exact mem_of_lookup found
  | cons layer outer ih =>
    rw [find?] at found
    rw [List.flatMap_cons, List.append_assoc]
    split at found
    · exact List.mem_append_left _ (mem_of_lookup found)
    · exact List.mem_append_right _ (ih found)

theorem mem_given_of_get?_eq_some
    (found : table.get? id = some labels)
    (member : label ∈ labels.toList) :
    label ∈ table.given :=
  List.mem_flatMap.mpr ⟨_, mem_entries_of_get?_eq_some found, member⟩

/-- Distinct labels belong to one statement only. -/
theorem id_eq_of_mem
    (distinct : table.given.Nodup)
    {other : StmtId} {found : StmtLabels}
    (first : table.get? id = some labels)
    (second : table.get? other = some found)
    (inFirst : label ∈ labels.toList)
    (inSecond : label ∈ found.toList) :
    id = other := by
  by_contra apart
  have disjoint := (List.nodup_flatMap.mp distinct).2
  have entriesApart : (id, labels) ≠ (other, found) := fun same => apart (congrArg Prod.fst same)
  have symmetric : Std.Symm (Function.onFun List.Disjoint
      fun entry : StmtId × StmtLabels => entry.2.toList) :=
    ⟨fun _ _ separate _ left right => separate right left⟩
  have separate := disjoint.forall
    (mem_entries_of_get?_eq_some first) (mem_entries_of_get?_eq_some second) entriesApart
  exact separate inFirst inSecond

/-- Putting labels into a layer adds one entry. -/
theorem perm_of_insertInto_eq_some
    {layers inserted : List LabelLayer}
    (insertion : insertInto id labels layers = some inserted) :
    (inserted.flatMap LabelLayer.labels).Perm
      ((id, labels) :: layers.flatMap LabelLayer.labels) := by
  induction layers generalizing inserted with
  | nil => simp [insertInto] at insertion
  | cons layer outer ih =>
    obtain ⟨-, rfl⟩ | ⟨-, rest, restInsertion, rfl⟩ := insertInto_cons.mp insertion
    · exact .refl _
    · rw [List.flatMap_cons, List.flatMap_cons]
      have below := (ih restInsertion).append_left layer.labels
      exact below.trans List.perm_middle

/-- Giving labels to a statement adds them and nothing else. -/
theorem perm_entries_insert (table : LabelTable) (id : StmtId) (labels : StmtLabels) :
    (table.insert id labels).entries.Perm ((id, labels) :: table.entries) := by
  unfold LabelTable.insert
  cases insertion : insertInto id labels table.layers with
  | some inserted => exact (perm_of_insertInto_eq_some insertion).append_right table.base
  | none => exact List.perm_middle

theorem perm_given_insert (table : LabelTable) (id : StmtId) (labels : StmtLabels) :
    (table.insert id labels).given.Perm (labels.toList ++ table.given) :=
  (perm_entries_insert table id labels).flatMap_right _

/-- Ending a copy forgets its labels. -/
theorem sublist_given_popLayer (table : LabelTable) :
    table.popLayer.given.Sublist table.given := by
  refine List.Sublist.flatMap ?_ _
  exact ((List.tail_sublist _).flatMap _).append_right _

end LabelTable

namespace Emission

/-- The label was handed out and is not bound yet. -/
def Unbound (state : Emission) (label : Label) : Prop :=
  state.code.marks[label.index]? = some none

/-- The points of resumption that no suspension has claimed yet. -/
def unclaimed (state : Emission) : List Label :=
  (state.method.suspension.map fun suspension =>
    suspension.resume.drop (state.method.yieldCount + 1)).getD []

/-- The region protects what is emitted next. -/
def IsOpen (state : Emission) (region : RegionId) : Prop :=
  ∃ found, state.method.regions[region]? = some found ∧ found.current.isSome

/-- No label was given out twice, and the points of resumption still wait to be bound. -/
structure Orderly (state : Emission) : Prop where
  /-- No label belongs to two statements, or to a statement and a suspension. -/
  distinct : (state.method.labels.given ++ state.unclaimed).Nodup
  /-- Labels of statements were handed out. -/
  handedOut : ∀ label ∈ state.method.labels.given, label.index < state.code.marks.size
  /-- Points of resumption are bound when they are claimed. -/
  waiting : ∀ label ∈ state.unclaimed, state.Unbound label

/-- The constructs around the current point have regions of their own, and these are open. -/
structure Framed (state : Emission) : Prop where
  /-- No two constructs share a region. -/
  distinct : (state.method.frames.filterMap Frame.region?).Nodup
  /-- The regions of the constructs are open. -/
  isOpen : ∀ frame ∈ state.method.frames, ∀ region ∈ frame.region?, state.IsOpen region

/-- What a step binds: the given labels, and the labels of the given statements. -/
structure Binds (ids : List StmtId) (labels : List Label) (before after : Emission) : Prop where
  /-- A label that was not bound is one that the step may bind, or it is still not bound. -/
  unbound : ∀ label, before.Unbound label → after.Unbound label ∨ label ∈ labels ∨
    (∃ id ∈ ids, ∃ found, before.method.labels.get? id = some found ∧ label ∈ found.toList) ∨
      label ∈ before.unclaimed
  /-- Statements get fresh labels, and those of other statements are not bound. -/
  entered : ∀ id found, before.method.labels.get? id = none →
    after.method.labels.get? id = some found → ∀ label ∈ found.toList,
      before.code.marks.size ≤ label.index ∧ (id ∉ ids → after.Unbound label)

variable {before between after : Emission}

namespace Evolves

/-- Only the points of resumption that are claimed are no longer waiting. -/
theorem sublist_unclaimed (evolves : before.Evolves after) :
    after.unclaimed.Sublist before.unclaimed := by
  have same := evolves.suspension
  unfold unclaimed
  cases suspended : before.method.suspension with
  | none => simp_all
  | some suspension =>
    cases suspendedAfter : after.method.suspension with
    | none => simp_all
    | some other =>
      simp only [suspended, suspendedAfter, Option.map_some, Option.some.injEq] at same
      have resume : other.resume = suspension.resume := by
        have kept := congrArg Suspension.resume same
        exact kept
      have later := Nat.add_le_add_right evolves.yieldCount 1
      simpa [resume] using List.drop_sublist_drop_left suspension.resume later

theorem marks_size (evolves : before.Evolves after) :
    before.code.marks.size ≤ after.code.marks.size := evolves.code.handedOut

end Evolves

/-- A label that is not bound was handed out. -/
theorem Unbound.lt_size {state : Emission} (unbound : state.Unbound label) :
    label.index < state.code.marks.size := (Array.getElem?_eq_some_iff.mp unbound).1

/-! ## Before a step -/

/--
What a step finds that may bind the given labels and those of the given
statements, and that closes the given regions.
-/
structure Ready
    (start : MethodContext)
    (ids : List StmtId)
    (labels : List Label)
    (regions : List RegionId)
    (state : Emission) :
    Prop where
  /-- The constructs around the current point are the given ones. -/
  setting : state.method.setting = start
  orderly : state.Orderly
  framed : state.Framed
  /-- Each label is there once. -/
  labelsNodup : labels.Nodup
  /-- The labels are not bound. -/
  labelsUnbound : ∀ label ∈ labels, state.Unbound label
  /-- No label is a point of resumption. -/
  labelsApart : ∀ label ∈ labels, label ∉ state.unclaimed
  /-- Each statement is there once. -/
  idsNodup : ids.Nodup
  /-- The labels of the statements are not bound, and none of them is one of the labels. -/
  pending : ∀ id ∈ ids, ∀ found, state.method.labels.get? id = some found →
    ∀ label ∈ found.toList, state.Unbound label ∧ label ∉ labels
  /-- Each region is there once. -/
  regionsNodup : regions.Nodup
  /-- The regions are open. -/
  regionsOpen : ∀ region ∈ regions, state.IsOpen region

/-- What a step leaves. -/
structure Kept
    (stop : MethodContext)
    (ids : List StmtId)
    (labels : List Label)
    (regions : List RegionId)
    (before after : Emission) :
    Prop where
  /-- The constructs around the current point are the given ones. -/
  setting : after.method.setting = stop
  orderly : after.Orderly
  framed : after.Framed
  evolves : before.Evolves after
  binds : before.Binds ids labels after
  /-- No region is cut but the given ones. -/
  keepsOpen : ∀ region, before.IsOpen region → region ∉ regions → after.IsOpen region

variable {start middle stop : MethodContext}
variable {ids ids' : List StmtId} {labels labels' : List Label} {regions regions' : List RegionId}

theorem nodup_of_subperm {α : Type} {less more : List α} (nodup : more.Nodup)
    (within : less.Subperm more) : less.Nodup := by
  obtain ⟨between, permutation, sublist⟩ := within
  exact permutation.nodup_iff.mp (nodup.sublist sublist)

/-- Less may be used up. -/
theorem Ready.mono
    (ready : before.Ready start ids labels regions)
    (idsWithin : ids'.Subperm ids)
    (labelsWithin : labels'.Subperm labels)
    (regionsWithin : regions'.Subperm regions) :
    before.Ready start ids' labels' regions' where
  setting := ready.setting
  orderly := ready.orderly
  framed := ready.framed
  labelsNodup := nodup_of_subperm ready.labelsNodup labelsWithin
  labelsUnbound := fun label member => ready.labelsUnbound label (labelsWithin.subset member)
  labelsApart := fun label member => ready.labelsApart label (labelsWithin.subset member)
  idsNodup := nodup_of_subperm ready.idsNodup idsWithin
  pending := by
    intro id member found known label inFound
    obtain ⟨unbound, apart⟩ := ready.pending id (idsWithin.subset member) found known label inFound
    exact ⟨unbound, fun inLabels => apart (labelsWithin.subset inLabels)⟩
  regionsNodup := nodup_of_subperm ready.regionsNodup regionsWithin
  regionsOpen := fun region member => ready.regionsOpen region (regionsWithin.subset member)

/-- More may have been bound. -/
theorem Binds.mono
    (binds : before.Binds ids' labels' after)
    (idsWithin : ids' ⊆ ids)
    (labelsWithin : labels' ⊆ labels) :
    before.Binds ids labels after where
  unbound := by
    intro label unbound
    obtain still | bound | ⟨id, member, rest⟩ | claimed := binds.unbound label unbound
    · exact .inl still
    · exact .inr (.inl (labelsWithin bound))
    · exact .inr (.inr (.inl ⟨id, idsWithin member, rest⟩))
    · exact .inr (.inr (.inr claimed))
  entered := by
    intro id found missing entered label member
    obtain ⟨fresh, unbound⟩ := binds.entered id found missing entered label member
    exact ⟨fresh, fun absent => unbound fun inIds => absent (idsWithin inIds)⟩

/-- More may have been used up. -/
theorem Kept.mono
    (kept : before.Kept stop ids' labels' regions' after)
    (idsWithin : ids' ⊆ ids)
    (labelsWithin : labels' ⊆ labels)
    (regionsWithin : regions' ⊆ regions) :
    before.Kept stop ids labels regions after where
  setting := kept.setting
  orderly := kept.orderly
  framed := kept.framed
  evolves := kept.evolves
  binds := kept.binds.mono idsWithin labelsWithin
  keepsOpen := fun region isOpen absent =>
    kept.keepsOpen region isOpen fun inRegions => absent (regionsWithin inRegions)

/-- The labels of a statement that the first step leaves alone still wait for the second one. -/
theorem Kept.pending
    (ready : before.Ready start (ids ++ ids') (labels ++ labels') (regions ++ regions'))
    (kept : before.Kept middle ids labels regions between)
    {id : StmtId}
    (member : id ∈ ids')
    {found : StmtLabels}
    (known : between.method.labels.get? id = some found)
    (inFound : label ∈ found.toList) :
    between.Unbound label ∧ label ∉ labels' := by
  have absent : id ∉ ids := fun inIds => ready.idsNodup.disjoint inIds member
  cases knownBefore : before.method.labels.get? id with
  | none =>
    obtain ⟨fresh, unbound⟩ := kept.binds.entered id found knownBefore known label inFound
    refine ⟨unbound absent, fun inLabels => ?_⟩
    have old := (ready.labelsUnbound label (List.mem_append_right _ inLabels)).lt_size
    omega
  | some foundBefore =>
    obtain rfl : foundBefore = found := by
      have kept := kept.evolves.labels.get? knownBefore
      rw [known] at kept
      exact (Option.some.inj kept).symm
    obtain ⟨unbound, apart⟩ :=
      ready.pending id (List.mem_append_right _ member) foundBefore knownBefore label inFound
    refine ⟨?_, fun inLabels => apart (List.mem_append_right _ inLabels)⟩
    have distinct := List.nodup_append.mp ready.orderly.distinct
    obtain still | bound | ⟨other, inIds, otherFound, otherKnown, inOther⟩ | claimed :=
      kept.binds.unbound label unbound
    · exact still
    · exact absurd (List.mem_append_left _ bound) apart
    · obtain rfl := LabelTable.id_eq_of_mem distinct.1 knownBefore otherKnown inFound inOther
      exact absurd inIds absent
    · have given := LabelTable.mem_given_of_get?_eq_some knownBefore inFound
      exact absurd rfl (distinct.2.2 label given label claimed)

/-- What the first step leaves is what the second one finds. -/
theorem Kept.ready
    (ready : before.Ready start (ids ++ ids') (labels ++ labels') (regions ++ regions'))
    (kept : before.Kept middle ids labels regions between) :
    between.Ready middle ids' labels' regions' where
  setting := kept.setting
  orderly := kept.orderly
  framed := kept.framed
  labelsNodup := ready.labelsNodup.of_append_right
  labelsUnbound := by
    intro label member
    have unbound := ready.labelsUnbound label (List.mem_append_right _ member)
    obtain still | bound | ⟨id, inIds, found, known, inFound⟩ | claimed :=
      kept.binds.unbound label unbound
    · exact still
    · exact absurd member fun inLater => ready.labelsNodup.disjoint bound inLater
    · have apart := (ready.pending id (List.mem_append_left _ inIds) found known label inFound).2
      exact absurd (List.mem_append_right _ member) apart
    · exact absurd claimed (ready.labelsApart label (List.mem_append_right _ member))
  labelsApart := fun label member claimed =>
    ready.labelsApart label (List.mem_append_right _ member)
      (kept.evolves.sublist_unclaimed.subset claimed)
  idsNodup := ready.idsNodup.of_append_right
  pending := fun _ member _ known _ inFound => kept.pending ready member known inFound
  regionsNodup := ready.regionsNodup.of_append_right
  regionsOpen := fun region member =>
    kept.keepsOpen region (ready.regionsOpen region (List.mem_append_right _ member))
      fun inEarlier => ready.regionsNodup.disjoint inEarlier member

/-- Two steps bind what each of them binds. -/
theorem Binds.trans
    (old : ∀ label ∈ labels', label.index < before.code.marks.size)
    (orderly : between.Orderly)
    (firstEvolves : before.Evolves between)
    (secondEvolves : between.Evolves after)
    (first : before.Binds ids labels between)
    (second : between.Binds ids' labels' after) :
    before.Binds (ids ++ ids') (labels ++ labels') after where
  unbound := by
    intro label unbound
    obtain still | bound | ⟨id, inIds, found, known, inFound⟩ | claimed :=
      first.unbound label unbound
    · obtain still | bound | ⟨id, inIds, found, known, inFound⟩ | claimed :=
        second.unbound label still
      · exact .inl still
      · exact .inr (.inl (List.mem_append_right _ bound))
      · cases knownBefore : before.method.labels.get? id with
        | none =>
          have fresh := (first.entered id found knownBefore known label inFound).1
          have handedOut := unbound.lt_size
          omega
        | some foundBefore =>
          have kept := firstEvolves.labels.get? knownBefore
          rw [known] at kept
          obtain rfl := Option.some.inj kept
          exact .inr (.inr (.inl ⟨id, List.mem_append_right _ inIds, found, knownBefore, inFound⟩))
      · exact .inr (.inr (.inr (firstEvolves.sublist_unclaimed.subset claimed)))
    · exact .inr (.inl (List.mem_append_left _ bound))
    · exact .inr (.inr (.inl ⟨id, List.mem_append_left _ inIds, found, known, inFound⟩))
    · exact .inr (.inr (.inr claimed))
  entered := by
    intro id found missing entered label inFound
    cases known : between.method.labels.get? id with
    | none =>
      obtain ⟨fresh, unbound⟩ := second.entered id found known entered label inFound
      have grown := firstEvolves.marks_size
      exact ⟨by omega, fun absent => unbound fun inIds => absent (List.mem_append_right _ inIds)⟩
    | some foundBetween =>
      have kept := secondEvolves.labels.get? known
      rw [entered] at kept
      obtain rfl := Option.some.inj kept
      obtain ⟨fresh, unbound⟩ := first.entered id found missing known label inFound
      refine ⟨fresh, fun absent => ?_⟩
      have unboundBetween := unbound fun inIds => absent (List.mem_append_left _ inIds)
      have distinct := List.nodup_append.mp orderly.distinct
      obtain still | bound | ⟨other, inIds, otherFound, otherKnown, inOther⟩ | claimed :=
        second.unbound label unboundBetween
      · exact still
      · have handedOut := old label bound
        omega
      · obtain rfl := LabelTable.id_eq_of_mem distinct.1 known otherKnown inFound inOther
        exact absurd (List.mem_append_right _ inIds) absent
      · have given := LabelTable.mem_given_of_get?_eq_some known inFound
        exact absurd rfl (distinct.2.2 label given label claimed)

/-- One step after the other. -/
theorem Kept.trans
    (ready : before.Ready start (ids ++ ids') (labels ++ labels') (regions ++ regions'))
    (first : before.Kept middle ids labels regions between)
    (second : between.Kept stop ids' labels' regions' after) :
    before.Kept stop (ids ++ ids') (labels ++ labels') (regions ++ regions') after where
  setting := second.setting
  orderly := second.orderly
  framed := second.framed
  evolves := first.evolves.trans second.evolves
  binds := by
    refine .trans (fun label member => ?_) first.orderly first.evolves second.evolves first.binds
      second.binds
    exact (ready.labelsUnbound label (List.mem_append_right _ member)).lt_size
  keepsOpen := by
    intro region isOpen absent
    rw [List.mem_append, not_or] at absent
    exact second.keepsOpen region (first.keepsOpen region isOpen absent.1) absent.2

/-- Nothing happens. -/
theorem Kept.refl
    {state : Emission}
    (orderly : state.Orderly)
    (framed : state.Framed) :
    state.Kept state.method.setting ids labels regions state where
  setting := rfl
  orderly := orderly
  framed := framed
  evolves := .refl state
  binds.unbound := fun _ unbound => .inl unbound
  binds.entered := by
    intro id found missing known
    rw [missing] at known
    contradiction
  keepsOpen := fun _ isOpen _ => isOpen

/--
A step after some preparation that binds nothing.  The preparation may hand out
labels, give labels to statements, and open regions, all of them new.
-/
theorem Kept.prepared
    (evolves : before.Evolves between)
    (orderly : between.Orderly)
    (unbound : ∀ label, before.Unbound label → between.Unbound label)
    (entered : ∀ id found, between.method.labels.get? id = some found →
      before.method.labels.get? id = some found ∨
        (before.method.labels.get? id = none ∧ ∀ label ∈ found.toList,
          before.code.marks.size ≤ label.index ∧
            (id ∉ ids → between.Unbound label ∧ label ∉ labels')))
    (idsWithin : ids' ⊆ ids)
    (labelsWithin : ∀ label ∈ labels', before.Unbound label → label ∈ labels ∨
      (∃ id ∈ ids, ∃ found, before.method.labels.get? id = some found ∧ label ∈ found.toList) ∨
        label ∈ before.unclaimed)
    (keepsOpen : ∀ region, before.IsOpen region → between.IsOpen region)
    (regionsWithin : ∀ region ∈ regions', before.IsOpen region → region ∈ regions)
    (kept : between.Kept stop ids' labels' regions' after) :
    before.Kept stop ids labels regions after where
  setting := kept.setting
  orderly := kept.orderly
  framed := kept.framed
  evolves := evolves.trans kept.evolves
  binds.unbound := by
    intro label unboundBefore
    obtain still | bound | ⟨id, inIds, found, known, inFound⟩ | claimed :=
      kept.binds.unbound label (unbound label unboundBefore)
    · exact .inl still
    · exact .inr (labelsWithin label bound unboundBefore)
    · obtain knownBefore | ⟨-, fresh⟩ := entered id found known
      · exact .inr (.inr (.inl ⟨id, idsWithin inIds, found, knownBefore, inFound⟩))
      · have old := unboundBefore.lt_size
        have := (fresh label inFound).1
        omega
    · exact .inr (.inr (.inr (evolves.sublist_unclaimed.subset claimed)))
  binds.entered := by
    intro id found missing known label inFound
    cases knownBetween : between.method.labels.get? id with
    | none =>
      obtain ⟨fresh, unboundAfter⟩ := kept.binds.entered id found knownBetween known label inFound
      have grown := evolves.marks_size
      exact ⟨by omega, fun absent => unboundAfter fun inIds => absent (idsWithin inIds)⟩
    | some foundBetween =>
      have same := kept.evolves.labels.get? knownBetween
      rw [known] at same
      obtain rfl := Option.some.inj same
      obtain knownBefore | ⟨-, fresh⟩ := entered id found knownBetween
      · rw [missing] at knownBefore
        contradiction
      · obtain ⟨old, unboundBetween⟩ := fresh label inFound
        refine ⟨old, fun absent => ?_⟩
        have distinct := List.nodup_append.mp orderly.distinct
        obtain still | bound | ⟨other, inIds, otherFound, otherKnown, inOther⟩ | claimed :=
          kept.binds.unbound label (unboundBetween absent).1
        · exact still
        · exact absurd bound (unboundBetween absent).2
        · obtain rfl := LabelTable.id_eq_of_mem distinct.1 knownBetween otherKnown inFound inOther
          exact absurd (idsWithin inIds) absent
        · have given := LabelTable.mem_given_of_get?_eq_some knownBetween inFound
          exact absurd rfl (distinct.2.2 label given label claimed)
  keepsOpen := fun region isOpen absent =>
    kept.keepsOpen region (keepsOpen region isOpen) fun inRegions =>
      absent (regionsWithin region inRegions isOpen)

/-! ## Changes that the books do not show -/

/-- The states differ in nothing that is kept in the books, the constructs apart. -/
structure SameBooks (before after : Emission) : Prop where
  code : before.code.Grows after.code
  marks : after.code.marks = before.code.marks
  scopes :
    after.code.scopes.map LocalScope.firstSlot = before.code.scopes.map LocalScope.firstSlot
  labels : after.method.labels = before.method.labels
  suspension :
    after.method.suspension.map Suspension.setting =
      before.method.suspension.map Suspension.setting
  yieldCount : after.method.yieldCount = before.method.yieldCount
  regions : after.method.regions = before.method.regions

namespace SameBooks

theorem refl (state : Emission) : state.SameBooks state :=
  ⟨.refl _, rfl, rfl, rfl, rfl, rfl, rfl⟩

theorem trans (first : before.SameBooks between) (second : between.SameBooks after) :
    before.SameBooks after where
  code := first.code.trans second.code
  marks := second.marks.trans first.marks
  scopes := second.scopes.trans first.scopes
  labels := second.labels.trans first.labels
  suspension := second.suspension.trans first.suspension
  yieldCount := second.yieldCount.trans first.yieldCount
  regions := second.regions.trans first.regions

theorem evolves (same : before.SameBooks after) : before.Evolves after where
  code := same.code
  scopes := same.scopes
  labels := by rw [same.labels]; exact .refl _
  suspension := same.suspension
  yieldCount := Nat.le_of_eq same.yieldCount.symm

/-- The same points of resumption are unclaimed. -/
theorem unclaimed_eq (same : before.SameBooks after) : after.unclaimed = before.unclaimed := by
  have resume := congrArg (Option.map Suspension.resume) same.suspension
  simp only [Option.map_map] at resume
  have resumeSame : (Suspension.resume ∘ Suspension.setting) = Suspension.resume := rfl
  rw [resumeSame] at resume
  unfold unclaimed
  rw [same.yieldCount]
  have split : ∀ suspension : Option Suspension,
      (suspension.map fun suspension =>
        suspension.resume.drop (before.method.yieldCount + 1)) =
      (suspension.map Suspension.resume).map (List.drop (before.method.yieldCount + 1)) := by
    intro suspension
    cases suspension <;> rfl
  rw [split, split, resume]

theorem unbound_iff (same : before.SameBooks after) :
    after.Unbound label ↔ before.Unbound label := by
  unfold Unbound
  rw [same.marks]

theorem isOpen_iff (same : before.SameBooks after) {region : RegionId} :
    after.IsOpen region ↔ before.IsOpen region := by
  unfold IsOpen
  rw [same.regions]

theorem orderly (same : before.SameBooks after) (orderly : before.Orderly) : after.Orderly where
  distinct := by rw [same.labels, same.unclaimed_eq]; exact orderly.distinct
  handedOut := by rw [same.labels, same.marks]; exact orderly.handedOut
  waiting := by
    intro label member
    rw [same.unclaimed_eq] at member
    exact same.unbound_iff.mpr (orderly.waiting label member)

/-- The constructs around the current point may be fewer than before. -/
theorem framed
    (same : before.SameBooks after)
    (fewer : after.method.frames.Sublist before.method.frames)
    (framed : before.Framed) :
    after.Framed where
  distinct := framed.distinct.sublist (fewer.filterMap _)
  isOpen := fun frame member region found =>
    same.isOpen_iff.mpr (framed.isOpen frame (fewer.subset member) region found)

/-- Where the books stay the same, everything is kept. -/
theorem kept
    (same : before.SameBooks after)
    (ready : before.Ready start ids labels regions)
    (fewer : after.method.frames.Sublist before.method.frames) :
    before.Kept after.method.setting ids' labels' regions' after where
  setting := rfl
  orderly := same.orderly ready.orderly
  framed := same.framed fewer ready.framed
  evolves := same.evolves
  binds.unbound := fun _ unbound => .inl (same.unbound_iff.mpr unbound)
  binds.entered := by
    intro id found missing known
    rw [same.labels, missing] at known
    contradiction
  keepsOpen := fun _ isOpen _ => same.isOpen_iff.mpr isOpen

/-- A step after a change that the books do not show. -/
theorem prepare
    (same : before.SameBooks between)
    (ready : before.Ready start ids labels regions)
    (kept : between.Kept stop ids labels regions after) :
    before.Kept stop ids labels regions after := by
  refine .prepared same.evolves (same.orderly ready.orderly) ?_ ?_
    (List.Subset.refl _) ?_ ?_ ?_ kept
  · exact fun _ unbound => same.unbound_iff.mpr unbound
  · exact fun _ _ known => .inl (by rwa [same.labels] at known)
  · exact fun _ member _ => .inl member
  · exact fun _ isOpen => same.isOpen_iff.mpr isOpen
  · exact fun _ member _ => member

/-- What is ready stays so, with the given constructs around the current point. -/
theorem ready
    (same : before.SameBooks after)
    (ready : before.Ready start ids labels regions)
    (framed : after.Framed) :
    after.Ready after.method.setting ids labels regions where
  setting := rfl
  orderly := same.orderly ready.orderly
  framed := framed
  labelsNodup := ready.labelsNodup
  labelsUnbound := fun label member => same.unbound_iff.mpr (ready.labelsUnbound label member)
  labelsApart := fun label member => by
    rw [same.unclaimed_eq]
    exact ready.labelsApart label member
  idsNodup := ready.idsNodup
  pending := by
    intro id member found known label inFound
    rw [same.labels] at known
    obtain ⟨unbound, apart⟩ := ready.pending id member found known label inFound
    exact ⟨same.unbound_iff.mpr unbound, apart⟩
  regionsNodup := ready.regionsNodup
  regionsOpen := fun region member => same.isOpen_iff.mpr (ready.regionsOpen region member)

end SameBooks

end Emission

end StackCode
