import StackCode.Proofs.Bookkeeping

/-!
# Balanced steps

Every step of a lowering keeps the books: if it succeeds, it has bound no labels
but those that it may bind and closed what it has opened, and if it fails, then
not because of the books.
-/

namespace StackCode
namespace Emit

variable {label : Label} {error : Error}

/-! ## Failures -/

section Failures

variable {before after : Emission} {error : Error}

theorem throw_error {thrown : Error} :
    (throw thrown : Emit α) before = .error error after ↔ thrown = error ∧ before = after := by
  constructor
  · intro failure
    cases failure
    exact ⟨rfl, rfl⟩
  · rintro ⟨rfl, rfl⟩
    rfl

theorem tryCode_error
    {change : Code → Except Error Code}
    (failure : tryCode change before = .error error after) :
    change before.code = .error error := by
  replace failure := method_bind_eq.mp failure
  cases changed : change before.method.code with
  | ok code =>
    rw [changed] at failure
    cases failure
  | error found =>
    rw [changed] at failure
    obtain ⟨rfl, -⟩ := throw_error.mp failure
    exact changed

/-- A label that waits to be bound can be bound. -/
theorem mark_error
    (unbound : before.Unbound label)
    (failure : mark label before = .error error after) :
    False := by
  have failed := tryCode_error failure
  have free : before.code.marks[label.index]? = some none := unbound
  simp [Code.mark, free] at failed

end Failures

/-- A step that keeps the books. -/
structure Tidy
    (start stop : MethodContext)
    (ids : List StmtId)
    (labels : List Label)
    (regions : List RegionId)
    (step : Emit α) :
    Prop where
  /-- What the step leaves if it succeeds. -/
  kept : ∀ {before value after}, before.Ready start ids labels regions →
    step before = .ok value after → before.Kept stop ids labels regions after
  /-- The step does not fail because of the books. -/
  proper : ∀ {before error after}, before.Ready start ids labels regions →
    step before = .error error after → error.breaksBookkeeping = false

/-! ## Plain steps -/

/-- A plain step binds no labels but the given ones. -/
theorem PlainTo.unbound
    {basis : Basis} {allowed : Label → Prop} {bound : List Label}
    {refs : α → List Reference} {step : Emit α}
    (plain : PlainTo (fun _ => True) basis allowed bound refs step)
    (free : basis.targets = none)
    {before after : Emission} {value : α}
    (success : step before = .ok value after)
    (unbound : before.Unbound label) :
    after.Unbound label ∨ label ∈ bound := by
  induction plain generalizing before after with
  | pureTo _ =>
    obtain ⟨-, rfl⟩ := pure_ok.mp success
    exact .inl unbound
  | throw _ _ => exact (throw_ok.mp success).elim
  | bindTo _ _ within firstHypothesis nextHypothesis =>
    obtain ⟨result, between, firstSuccess, nextSuccess⟩ := bind_ok.mp success
    obtain still | inEarlier := firstHypothesis free firstSuccess unbound
    · obtain still | inLater := nextHypothesis result free nextSuccess still
      · exact .inl still
      · exact .inr (within.subset (List.mem_append_right _ inLater))
    · exact .inr (within.subset (List.mem_append_left _ inEarlier))
  | reading _ _ nextHypothesis =>
    exact nextHypothesis before.method before.method.storesTo_all (by simp [free]) free success
      unbound
  | emit _ _ _ =>
    obtain rfl := emit_ok.mp success
    exact .inl unbound
  | fresh _ nextHypothesis =>
    obtain ⟨fresh, between, firstSuccess, nextSuccess⟩ := bind_ok.mp success
    obtain ⟨rfl, rfl⟩ := newLabel_ok.mp firstSuccess
    have old := unbound.lt_size
    have still : (before.mapCode fun code => code.newLabel.2).Unbound label := by
      simp only [Emission.Unbound, Emission.code_mapCode, Code.newLabel, Array.getElem?_push]
      rw [if_neg (by omega)]
      exact unbound
    obtain still | member := nextHypothesis _ free nextSuccess still
    · exact .inl still
    · obtain member | same := List.mem_append.mp member
      · exact .inr member
      · obtain rfl := List.mem_singleton.mp same
        exact absurd old (Nat.lt_irrefl _)
  | @mark _ _ _ marked _ member =>
    obtain ⟨-, rfl⟩ := mark_ok.mp success
    by_cases same : label = marked
    · exact .inr (same ▸ member)
    · have apart : marked.index ≠ label.index := by
        intro sameIndex
        obtain ⟨index⟩ := label
        obtain ⟨other⟩ := marked
        exact same (congrArg Label.mk sameIndex.symm)
      refine .inl ?_
      simp only [Emission.Unbound, Emission.code_mapCode]
      rwa [Array.getElem?_setIfInBounds_ne apart]
  | allocate name type =>
    obtain ⟨-, rfl⟩ := takeCode_ok.mp success
    refine .inl ?_
    simp only [Emission.Unbound, Emission.code_mapCode, Code.marks_allocate]
    exact unbound
  | takeClass _ _ =>
    obtain ⟨-, rfl⟩ := takeClass_ok.mp success
    exact .inl unbound
  | log level text =>
    obtain rfl := modifyClass_ok.mp success
    exact .inl unbound

/-- A plain step does not bind a label again. -/
theorem PlainTo.proper
    {basis : Basis} {allowed : Label → Prop} {bound : List Label}
    {refs : α → List Reference} {step : Emit α}
    (plain : PlainTo (fun _ => True) basis allowed bound refs step)
    (free : basis.targets = none)
    {before after : Emission}
    (distinct : bound.Nodup)
    (unbound : ∀ label ∈ bound, before.Unbound label)
    (failure : step before = .error error after) :
    error.breaksBookkeeping = false := by
  induction plain generalizing before after with
  | pureTo _ => cases failure
  | throw proper _ =>
    obtain ⟨rfl, -⟩ := throw_error.mp failure
    exact (Bool.or_eq_false_iff.mp (Bool.or_eq_false_iff.mp proper).1).1
  | @bindTo _ _ _ _ _ earlier later _ _ _ _ firstPlain _ within firstHypothesis nextHypothesis =>
    have apart : (earlier ++ later).Nodup := Emission.nodup_of_subperm distinct within
    have available : ∀ label ∈ earlier ++ later, before.Unbound label :=
      fun label member => unbound label (within.subset member)
    obtain failure | ⟨result, between, success, failure⟩ := bind_error.mp failure
    · exact firstHypothesis free apart.of_append_left
        (fun label member => available label (List.mem_append_left _ member)) failure
    · refine nextHypothesis result free apart.of_append_right (fun label member => ?_) failure
      have before := available label (List.mem_append_right _ member)
      obtain still | inEarlier := firstPlain.unbound free success before
      · exact still
      · exact absurd member fun inLater => apart.disjoint inEarlier inLater
  | reading _ _ nextHypothesis =>
    exact nextHypothesis before.method before.method.storesTo_all (by simp [free]) free distinct
      unbound failure
  | emit _ _ _ => cases failure
  | @fresh _ _ _ bound _ _ _ nextHypothesis =>
    obtain failure | ⟨fresh, between, success, failure⟩ := bind_error.mp failure
    · cases failure
    · obtain ⟨rfl, rfl⟩ := newLabel_ok.mp success
      have absent : (⟨before.code.marks.size⟩ : Label) ∉ bound := fun member =>
        absurd (unbound _ member).lt_size (Nat.lt_irrefl _)
      refine nextHypothesis _ free ?_ ?_ failure
      · exact List.nodup_append.mpr ⟨distinct, List.nodup_singleton _, by
          rintro label member other same rfl
          obtain rfl := List.mem_singleton.mp same
          exact absent member⟩
      · intro label member
        simp only [Emission.Unbound, Emission.code_mapCode, Code.newLabel, Array.getElem?_push]
        obtain member | same := List.mem_append.mp member
        · have old := unbound label member
          have inBounds := old.lt_size
          rw [if_neg (by omega)]
          exact old
        · obtain rfl := List.mem_singleton.mp same
          simp
  | mark _ member => exact (mark_error (unbound _ member) failure).elim
  | allocate name type => cases failure
  | takeClass _ _ => cases failure
  | log level text => cases failure

namespace Tidy

variable {start middle stop : MethodContext}
variable {ids ids' : List StmtId} {labels labels' : List Label} {regions regions' : List RegionId}
variable {before after between : Emission} {id : StmtId} {found : StmtLabels} {step : Emit α}

theorem fails (proper : error.breaksBookkeeping = false) :
    Tidy start stop ids labels regions (throw error : Emit α) where
  kept := fun _ success => (throw_ok.mp success).elim
  proper := fun _ failure => (throw_error.mp failure).1 ▸ proper

/-- Plain steps keep the books. -/
theorem plain (stepPlain : Plainly labels step) : Tidy start start ids labels regions step where
  kept := by
    intro before value after ready success
    have stores := before.method.storesTo_all
    have method := stepPlain.method_eq stores success
    have evolves := stepPlain.evolves stores success
    have setting : after.method.setting = before.method.setting := by rw [method]; rfl
    have frames : after.method.frames = before.method.frames := by rw [method]
    have table : after.method.labels = before.method.labels := by rw [method]
    have unclaimed : after.unclaimed = before.unclaimed := by
      unfold Emission.unclaimed
      rw [method]
    have isOpen : ∀ region, after.IsOpen region ↔ before.IsOpen region := by
      intro region
      unfold Emission.IsOpen
      rw [method]
    refine
      { setting := setting.trans ready.setting
        orderly := ?_
        framed := ?_
        evolves := evolves
        binds := ⟨?_, ?_⟩
        keepsOpen := fun region found _ => (isOpen region).mpr found }
    · refine ⟨by rw [table, unclaimed]; exact ready.orderly.distinct, ?_, ?_⟩
      · intro label member
        rw [table] at member
        exact Nat.lt_of_lt_of_le (ready.orderly.handedOut label member) evolves.marks_size
      · intro label member
        rw [unclaimed] at member
        obtain still | bound := stepPlain.unbound rfl success (ready.orderly.waiting label member)
        · exact still
        · exact absurd member (ready.labelsApart label bound)
    · refine ⟨by rw [frames]; exact ready.framed.distinct, ?_⟩
      rw [frames]
      exact fun frame member region found =>
        (isOpen region).mpr (ready.framed.isOpen frame member region found)
    · intro label unbound
      obtain still | bound := stepPlain.unbound rfl success unbound
      · exact .inl still
      · exact .inr (.inl bound)
    · intro id found missing known
      rw [table, missing] at known
      contradiction
  proper := fun ready failure => stepPlain.proper rfl ready.labelsNodup ready.labelsUnbound failure

/-! ## Sequences -/

/-- A step may bind fewer labels than it is allowed to. -/
theorem mono
    (tidy : Tidy start stop ids' labels' regions' step)
    (idsWithin : ids'.Subperm ids)
    (labelsWithin : labels'.Subperm labels)
    (regionsWithin : regions'.Subperm regions) :
    Tidy start stop ids labels regions step where
  kept := fun ready success =>
    (tidy.kept (ready.mono idsWithin labelsWithin regionsWithin) success).mono idsWithin.subset
      labelsWithin.subset regionsWithin.subset
  proper := fun ready failure =>
    tidy.proper (ready.mono idsWithin labelsWithin regionsWithin) failure

/-- Two steps together bind what each of them binds. -/
theorem bind
    {first : Emit α} {next : α → Emit β}
    (firstTidy : Tidy start middle ids labels regions first)
    (nextTidy : ∀ value, Tidy middle stop ids' labels' regions' (next value)) :
    Tidy start stop (ids ++ ids') (labels ++ labels') (regions ++ regions') (first >>= next) where
  kept := by
    intro before _ after ready success
    obtain ⟨value, between, firstSuccess, nextSuccess⟩ := bind_ok.mp success
    have firstReady : before.Ready start ids labels regions :=
      ready.mono (List.sublist_append_left _ _).subperm (List.sublist_append_left _ _).subperm
        (List.sublist_append_left _ _).subperm
    have firstKept := firstTidy.kept firstReady firstSuccess
    have nextReady := Emission.Kept.ready ready firstKept
    exact .trans ready firstKept ((nextTidy value).kept nextReady nextSuccess)
  proper := by
    intro before error after ready failure
    have firstReady : before.Ready start ids labels regions :=
      ready.mono (List.sublist_append_left _ _).subperm (List.sublist_append_left _ _).subperm
        (List.sublist_append_left _ _).subperm
    obtain failure | ⟨value, between, firstSuccess, failure⟩ := bind_error.mp failure
    · exact firstTidy.proper firstReady failure
    · have nextReady := Emission.Kept.ready ready (firstTidy.kept firstReady firstSuccess)
      exact (nextTidy value).proper nextReady failure

theorem reading
    {next : MethodContext → Emit β}
    (nextTidy : ∀ method, method.setting = start →
      Tidy start stop ids labels regions (next method)) :
    Tidy start stop ids labels regions (method >>= next) where
  kept := by
    intro before _ after ready success
    have rest := method_bind_eq.mp success
    exact (nextTidy _ ready.setting).kept ready rest
  proper := by
    intro before error after ready failure
    exact (nextTidy _ ready.setting).proper ready (method_bind_eq.mp failure)

/-- A change that the books do not show, apart from the constructs around the current point. -/
theorem unseen
    (same : ∀ {before value after}, step before = .ok value after →
      before.SameBooks after ∧ after.method.frames.Sublist before.method.frames ∧
        (before.method.setting = start → after.method.setting = stop))
    (proper : ∀ {before error after}, step before = .error error after →
      error.breaksBookkeeping = false) :
    Tidy start stop ids labels regions step where
  kept := by
    intro before _ after ready success
    obtain ⟨books, fewer, setting⟩ := same success
    have kept : before.Kept after.method.setting ids labels regions after :=
      books.kept ready fewer
    rwa [setting ready.setting] at kept
  proper := fun _ failure => proper failure

/-! ## Labels -/

/-- Handing out a label binds nothing. -/
theorem unbound_newLabel (unbound : before.Unbound label) :
    (before.mapCode fun code => code.newLabel.2).Unbound label := by
  have inBounds := unbound.lt_size
  simp only [Emission.Unbound, Emission.code_mapCode, Code.newLabel, Array.getElem?_push]
  rw [if_neg (by omega)]
  exact unbound

theorem evolves_newLabel (before : Emission) :
    before.Evolves (before.mapCode fun code => code.newLabel.2) :=
  { Emission.Evolves.refl before with code := .newLabel _ }

theorem orderly_newLabel (orderly : before.Orderly) :
    (before.mapCode fun code => code.newLabel.2).Orderly where
  distinct := orderly.distinct
  handedOut := fun label member =>
    Nat.lt_of_lt_of_le (orderly.handedOut label member) (evolves_newLabel before).marks_size
  waiting := fun label member => unbound_newLabel (orderly.waiting label member)

/-- A label that was just handed out can be set aside for the steps that follow. -/
theorem ready_newLabel (ready : before.Ready start ids labels regions) :
    (before.mapCode fun code => code.newLabel.2).Ready start ids
      (labels ++ [⟨before.code.marks.size⟩]) regions where
  setting := ready.setting
  orderly := orderly_newLabel ready.orderly
  framed := ⟨ready.framed.distinct, ready.framed.isOpen⟩
  labelsNodup := by
    refine List.nodup_append.mpr ⟨ready.labelsNodup, List.nodup_singleton _, ?_⟩
    rintro label member other same rfl
    obtain rfl := List.mem_singleton.mp same
    exact absurd (ready.labelsUnbound _ member).lt_size (Nat.lt_irrefl _)
  labelsUnbound := by
    intro label member
    obtain member | same := List.mem_append.mp member
    · exact unbound_newLabel (ready.labelsUnbound label member)
    · obtain rfl := List.mem_singleton.mp same
      simp [Emission.Unbound, Code.newLabel]
  labelsApart := by
    intro label member
    obtain member | same := List.mem_append.mp member
    · exact ready.labelsApart label member
    · obtain rfl := List.mem_singleton.mp same
      exact fun claimed => absurd (ready.orderly.waiting _ claimed).lt_size (Nat.lt_irrefl _)
  idsNodup := ready.idsNodup
  pending := by
    intro id member found known label inFound
    obtain ⟨unbound, apart⟩ := ready.pending id member found known label inFound
    refine ⟨unbound_newLabel unbound, fun inLabels => ?_⟩
    obtain inLabels | same := List.mem_append.mp inLabels
    · exact apart inLabels
    · obtain rfl := List.mem_singleton.mp same
      exact absurd unbound.lt_size (Nat.lt_irrefl _)
  regionsNodup := ready.regionsNodup
  regionsOpen := ready.regionsOpen

/-- A label that is handed out may be bound by the steps that follow. -/
theorem fresh
    {next : Label → Emit β}
    (nextTidy : ∀ label, Tidy start stop ids (labels ++ [label]) regions (next label)) :
    Tidy start stop ids labels regions (newLabel >>= next) where
  kept := by
    intro before _ after ready success
    obtain ⟨label, between, handedOut, rest⟩ := bind_ok.mp success
    obtain ⟨rfl, rfl⟩ := newLabel_ok.mp handedOut
    refine .prepared (evolves_newLabel before) (orderly_newLabel ready.orderly)
      (fun _ => unbound_newLabel) (fun _ _ known => .inl known) (List.Subset.refl _) ?_
      (fun _ isOpen => isOpen) (fun _ member _ => member)
      ((nextTidy _).kept (ready_newLabel ready) rest)
    intro label member unbound
    obtain member | same := List.mem_append.mp member
    · exact .inl member
    · obtain rfl := List.mem_singleton.mp same
      exact absurd unbound.lt_size (Nat.lt_irrefl _)
  proper := by
    intro before error after ready failure
    obtain failure | ⟨label, between, handedOut, failure⟩ := bind_error.mp failure
    · cases failure
    · obtain ⟨rfl, rfl⟩ := newLabel_ok.mp handedOut
      exact (nextTidy _).proper (ready_newLabel ready) failure

/-! ### Labels of statements -/

/-- What looking up the labels of a statement leads to. -/
structure LooksUp (id : StmtId) (labels : StmtLabels) (before after : Emission) : Prop where
  evolves : before.Evolves after
  orderly : after.Orderly
  setting : after.method.setting = before.method.setting
  regions : after.method.regions = before.method.regions
  unclaimed : after.unclaimed = before.unclaimed
  unbound : ∀ label, before.Unbound label → after.Unbound label
  /-- The statement has the labels. -/
  found : after.method.labels.get? id = some labels
  /-- They are the ones that it had, or new ones. -/
  known : before.method.labels.get? id = some labels ∨
    (before.method.labels.get? id = none ∧ ∀ label ∈ labels.toList,
      before.code.marks.size ≤ label.index ∧ after.Unbound label)
  /-- All other statements have the labels that they had. -/
  others : ∀ other, other ≠ id →
    after.method.labels.get? other = before.method.labels.get? other

theorem get?_insert_of_ne
    (table : LabelTable) {other : StmtId} (labels : StmtLabels)
    (apart : other ≠ id) :
    (table.insert id labels).get? other = table.get? other := by
  unfold LabelTable.insert LabelTable.get?
  cases insertion : LabelTable.insertInto id labels table.layers with
  | none => exact LabelTable.find?_cons_of_ne apart _
  | some inserted =>
    exact LabelTable.find?_drop_of_insertInto_of_ne insertion apart 0

/-- The code with three more labels. -/
theorem unbound_push_three
    {marks : Array (Option Nat)} {index : Nat}
    (waiting : marks[index]? = some none ∨ marks.size ≤ index ∧ index < marks.size + 3) :
    (((marks.push none).push none).push none)[index]? = some none := by
  obtain unbound | ⟨new, recent⟩ := waiting
  · have inBounds := (Array.getElem?_eq_some_iff.mp unbound).1
    simp only [Array.getElem?_push, Array.size_push]
    rw [if_neg (by omega), if_neg (by omega), if_neg (by omega)]
    exact unbound
  · simp only [Array.getElem?_push, Array.size_push]
    split
    · rfl
    · split
      · rfl
      · rw [if_pos (by omega)]

theorem mem_toList_freshLabels {code : Code}
    (member : label ∈ (freshLabels code).toList) :
    code.marks.size ≤ label.index ∧ label.index < code.marks.size + 3 := by
  simp only [freshLabels, StmtLabels.toList, List.mem_cons, List.not_mem_nil, or_false] at member
  obtain rfl | rfl | rfl := member <;> exact ⟨by simp, by simp⟩

theorem nodup_toList_freshLabels (code : Code) : (freshLabels code).toList.Nodup := by
  simp [freshLabels, StmtLabels.toList]

/-- The labels of a statement are those given before, or fresh ones. -/
theorem looksUp (orderly : before.Orderly) (success : labelsOf id before = .ok found after) :
    LooksUp id found before after := by
  obtain ⟨known, rfl⟩ | ⟨missing, rfl, rfl⟩ := labelsOf_cases success
  · exact
      { evolves := .refl before
        orderly := orderly
        setting := rfl
        regions := rfl
        unclaimed := rfl
        unbound := fun _ unbound => unbound
        found := known
        known := .inl known
        others := fun _ _ => rfl }
  · refine
      { evolves :=
          { Emission.Evolves.refl before with
            code := (Code.Grows.push _ none).trans ((Code.Grows.push _ none).trans (.push _ none))
            labels := .insert missing _ }
        orderly := ⟨?_, ?_, ?_⟩
        setting := rfl
        regions := rfl
        unclaimed := rfl
        unbound := fun _ unbound => unbound_push_three (.inl unbound)
        found := LabelTable.get?_insert_self _ _ _
        known := .inr ⟨missing, ?_⟩
        others := fun _ apart => get?_insert_of_ne _ _ apart }
    · have permutation := (LabelTable.perm_given_insert before.method.labels id
        (freshLabels before.code)).append_right before.unclaimed
      refine permutation.nodup_iff.mpr ?_
      rw [List.append_assoc]
      refine List.nodup_append.mpr ⟨nodup_toList_freshLabels _, orderly.distinct, ?_⟩
      rintro label new other old rfl
      have recent := (mem_toList_freshLabels new).1
      obtain given | claimed := List.mem_append.mp old
      · exact absurd (orderly.handedOut label given) (by omega)
      · exact absurd (orderly.waiting label claimed).lt_size (by omega)
    · intro label member
      have permutation := LabelTable.perm_given_insert before.method.labels id
        (freshLabels before.code)
      simp only [Emission.code_mapMethod, Array.size_push]
      obtain new | old := List.mem_append.mp (permutation.mem_iff.mp member)
      · have recent := (mem_toList_freshLabels new).2
        exact recent
      · have handedOut := orderly.handedOut label old
        unfold Emission.code at handedOut
        omega
    · exact fun label member => unbound_push_three (.inl (orderly.waiting label member))
    · intro label member
      have recent := mem_toList_freshLabels member
      exact ⟨recent.1, unbound_push_three (.inr recent)⟩

/-- Labels of a statement can always be had. -/
theorem labelsOf_error (failure : labelsOf id before = .error error after) :
    False := by
  simp only [labelsOf, bind_error] at failure
  obtain failure | ⟨_, _, read, failure | ⟨_, _, _, failure | ⟨_, _, _, failure⟩⟩⟩ := failure
  · cases failure
  · obtain ⟨rfl, rfl⟩ := method_ok.mp read
    cases known : before.method.labels.get? id with
    | none =>
      simp only [LabelTable.getOrAllocate, known] at failure
      cases failure
    | some found =>
      simp only [LabelTable.getOrAllocate, known] at failure
      cases failure
  · cases failure
  · cases failure

/-- The constructs are as before. -/
theorem LooksUp.framed (looksUp : LooksUp id found before after) (framed : before.Framed) :
    after.Framed := by
  have frames : after.method.frames = before.method.frames := by
    have kept := congrArg MethodContext.frames looksUp.setting
    exact kept
  refine ⟨by rw [frames]; exact framed.distinct, ?_⟩
  rw [frames]
  intro frame member region found
  unfold Emission.IsOpen
  rw [looksUp.regions]
  exact framed.isOpen frame member region found

/-- The labels of a statement that is to be lowered can be set aside for the steps that follow. -/
theorem LooksUp.ready
    (looksUp : LooksUp id found before after)
    (ready : before.Ready start (id :: ids) labels regions) :
    after.Ready start ids (labels ++ found.toList) regions := by
  have distinct := List.nodup_append.mp looksUp.orderly.distinct
  have own : ∀ label ∈ found.toList, after.Unbound label ∧ label ∉ labels := by
    intro label member
    obtain known | ⟨-, new⟩ := looksUp.known
    · obtain ⟨unbound, apart⟩ := ready.pending id List.mem_cons_self found known label member
      exact ⟨looksUp.unbound label unbound, apart⟩
    · obtain ⟨recent, unbound⟩ := new label member
      refine ⟨unbound, fun inLabels => ?_⟩
      have old := (ready.labelsUnbound label inLabels).lt_size
      omega
  have foundNodup : found.toList.Nodup :=
    (List.nodup_flatMap.mp distinct.1).1 _ (LabelTable.mem_entries_of_get?_eq_some looksUp.found)
  exact
    { setting := looksUp.setting.trans ready.setting
      orderly := looksUp.orderly
      framed := looksUp.framed ready.framed
      labelsNodup := List.nodup_append.mpr ⟨ready.labelsNodup, foundNodup, by
        rintro label inLabels other inFound rfl
        exact (own label inFound).2 inLabels⟩
      labelsUnbound := by
        intro label member
        obtain inLabels | inFound := List.mem_append.mp member
        · exact looksUp.unbound label (ready.labelsUnbound label inLabels)
        · exact (own label inFound).1
      labelsApart := by
        intro label member
        obtain inLabels | inFound := List.mem_append.mp member
        · rw [looksUp.unclaimed]
          exact ready.labelsApart label inLabels
        · have given := LabelTable.mem_given_of_get?_eq_some looksUp.found inFound
          exact fun claimed => distinct.2.2 label given label claimed rfl
      idsNodup := ready.idsNodup.of_cons
      pending := by
        intro other member otherFound known label inFound
        have apart : other ≠ id := by
          rintro rfl
          exact (List.nodup_cons.mp ready.idsNodup).1 member
        have knownBefore := known
        rw [looksUp.others other apart] at knownBefore
        obtain ⟨unbound, absent⟩ :=
          ready.pending other (List.mem_cons_of_mem _ member) otherFound knownBefore label inFound
        refine ⟨looksUp.unbound label unbound, fun inLabels => ?_⟩
        obtain inLabels | inOwn := List.mem_append.mp inLabels
        · exact absent inLabels
        · exact apart (LabelTable.id_eq_of_mem distinct.1 known looksUp.found inFound inOwn)
      regionsNodup := ready.regionsNodup
      regionsOpen := by
        intro region member
        unfold Emission.IsOpen
        rw [looksUp.regions]
        exact ready.regionsOpen region member }

/-- What a step leaves that comes after looking up the labels of a statement. -/
theorem LooksUp.kept
    (looksUp : LooksUp id found before between)
    (within : ids' ⊆ ids)
    (own : before.method.labels.get? id = none → id ∉ ids → ∀ label ∈ found.toList, label ∉ labels')
    (labelsWithin : ∀ label ∈ labels', before.Unbound label → label ∈ labels ∨
      (∃ id ∈ ids, ∃ found, before.method.labels.get? id = some found ∧ label ∈ found.toList) ∨
        label ∈ before.unclaimed)
    (kept : between.Kept stop ids' labels' regions after) :
    before.Kept stop ids labels regions after := by
  have isOpen : ∀ region, before.IsOpen region → between.IsOpen region := by
    intro region isOpen
    unfold Emission.IsOpen
    rwa [looksUp.regions]
  refine .prepared looksUp.evolves looksUp.orderly looksUp.unbound ?_ within labelsWithin isOpen
    (fun _ member _ => member) kept
  intro other otherFound known
  by_cases same : other = id
  · subst same
    rw [looksUp.found] at known
    obtain rfl := Option.some.inj known
    obtain knownBefore | ⟨missing, new⟩ := looksUp.known
    · exact .inl knownBefore
    · exact .inr ⟨missing, fun label member =>
        ⟨(new label member).1, fun absent =>
          ⟨(new label member).2, own missing absent label member⟩⟩⟩
  · rw [looksUp.others other same] at known
    exact .inl known

/-- The labels of the statement itself may be bound by what follows. -/
theorem ownLabels
    {next : StmtLabels → Emit β}
    (nextTidy : ∀ found : StmtLabels,
      Tidy start stop ids (labels ++ found.toList) regions (next found)) :
    Tidy start stop (id :: ids) labels regions (labelsOf id >>= next) where
  kept := by
    intro before _ after ready success
    obtain ⟨found, between, looking, rest⟩ := bind_ok.mp success
    have looksUp := looksUp ready.orderly looking
    refine looksUp.kept (List.subset_cons_self _ _) (fun _ absent => ?_) ?_
      ((nextTidy found).kept (looksUp.ready ready) rest)
    · exact absurd List.mem_cons_self absent
    · intro label member unbound
      obtain inLabels | inFound := List.mem_append.mp member
      · exact .inl inLabels
      · obtain known | ⟨-, new⟩ := looksUp.known
        · exact .inr (.inl ⟨id, List.mem_cons_self, found, known, inFound⟩)
        · have recent := (new label inFound).1
          have old := unbound.lt_size
          omega
  proper := by
    intro before error after ready failure
    obtain failure | ⟨found, between, looking, failure⟩ := bind_error.mp failure
    · exact (labelsOf_error failure).elim
    · exact (nextTidy found).proper ((looksUp ready.orderly looking).ready ready) failure

/-- Labels of another statement are only looked up. -/
theorem otherLabels (id : StmtId) : Tidy start start ids labels regions (labelsOf id) where
  kept := by
    intro before found after ready success
    have looksUp := looksUp ready.orderly success
    have unchanged : after.Kept after.method.setting ids labels regions after :=
      .refl looksUp.orderly (looksUp.framed ready.framed)
    rw [looksUp.setting, ready.setting] at unchanged
    refine looksUp.kept (List.Subset.refl _) ?_ (fun label member _ => .inl member) unchanged
    intro missing _ label member inLabels
    obtain known | ⟨-, new⟩ := looksUp.known
    · rw [missing] at known
      contradiction
    · have recent := (new label member).1
      have old := (ready.labelsUnbound label inLabels).lt_size
      omega
  proper := fun _ failure => (labelsOf_error failure).elim

/-! ## Storage, scopes and constructs -/

/-- A change of the method that the books do not show. -/
theorem modifyMethod
    {change : MethodContext → MethodContext}
    (same : ∀ before : Emission, before.SameBooks (before.mapMethod change))
    (fewer : ∀ method, (change method).frames.Sublist method.frames)
    (setting : ∀ method : MethodContext, method.setting = start → (change method).setting = stop) :
    Tidy start stop ids labels regions (modifyMethod change) := by
  refine unseen ?_ nofun
  intro before _ after success
  obtain rfl := modifyMethod_ok.mp success
  exact ⟨same before, fewer _, setting _⟩

/-- A step that the books do not show, and that leaves the constructs as they are. -/
structure Unseen (step : Emit α) : Prop where
  books : ∀ {before value after}, step before = .ok value after →
    before.SameBooks after ∧ after.method.setting = before.method.setting
  proper : ∀ {before error after}, step before = .error error after →
    error.breaksBookkeeping = false

namespace Unseen

theorem tidy {step : Emit α} (stepUnseen : Unseen step) :
    Tidy start start ids labels regions step := by
  refine unseen ?_ stepUnseen.proper
  intro before _ after success
  obtain ⟨books, setting⟩ := stepUnseen.books success
  have frames : after.method.frames = before.method.frames := by
    have kept := congrArg MethodContext.frames setting
    exact kept
  exact ⟨books, by rw [frames], setting.trans⟩

theorem bind
    {first : Emit α} {next : α → Emit β}
    (firstUnseen : Unseen first)
    (nextUnseen : ∀ value, Unseen (next value)) :
    Unseen (first >>= next) where
  books := by
    intro before _ after success
    obtain ⟨value, between, firstSuccess, nextSuccess⟩ := bind_ok.mp success
    obtain ⟨firstBooks, firstSetting⟩ := firstUnseen.books firstSuccess
    obtain ⟨nextBooks, nextSetting⟩ := (nextUnseen value).books nextSuccess
    exact ⟨firstBooks.trans nextBooks, nextSetting.trans firstSetting⟩
  proper := by
    intro before error after failure
    obtain failure | ⟨value, between, -, failure⟩ := bind_error.mp failure
    · exact firstUnseen.proper failure
    · exact (nextUnseen value).proper failure

theorem pure (value : α) : Unseen (pure value : Emit α) where
  books := by
    intro before _ after success
    obtain ⟨-, rfl⟩ := pure_ok.mp success
    exact ⟨.refl before, rfl⟩
  proper := nofun

theorem method : Unseen method where
  books := by
    intro before _ after success
    obtain ⟨-, rfl⟩ := method_ok.mp success
    exact ⟨.refl before, rfl⟩
  proper := nofun

theorem allocate (name : Option String) (type : Ty) :
    Unseen (takeCode fun code => code.allocate name type) where
  books := by
    intro before _ after success
    obtain ⟨-, rfl⟩ := takeCode_ok.mp success
    refine ⟨{ Emission.SameBooks.refl before with code := ?_, marks := ?_, scopes := ?_ }, rfl⟩
    · exact Code.grows_allocate _ name type
    · exact Code.marks_allocate _ name type
    · exact Code.map_firstSlot_allocate _ name type
  proper := nofun

theorem saveSlot (saved : SavedSlot) : Unseen (saveSlot saved) where
  books := by
    intro before _ after success
    obtain rfl := modifyMethod_ok.mp success
    refine ⟨{ Emission.SameBooks.refl before with suspension := ?_ }, rfl⟩
    cases suspension : before.method.suspension <;> simp [suspension, Suspension.setting]
  proper := nofun

theorem setAccess (id : LocalId) (access : LocalAccess) : Unseen (setAccess id access) where
  books := by
    intro before _ after success
    obtain rfl := modifyMethod_ok.mp success
    exact ⟨{ Emission.SameBooks.refl before with }, rfl⟩
  proper := nofun

theorem protect (segments : List (Label × Label)) (handler : Label) (catchType : Option Ty) :
    Unseen (protect segments handler catchType) := by
  unfold Emit.protect
  induction segments with
  | nil => exact pure ()
  | cons segment segments ih =>
    refine .bind ⟨?_, nofun⟩ fun _ => ih
    intro before _ after success
    obtain rfl := modifyCode_ok.mp success
    exact ⟨{ Emission.SameBooks.refl before with code := .addRegion _ _ }, rfl⟩

theorem declareLocal (decl : LocalDecl) : Unseen (declareLocal decl) := by
  refine .bind method fun _ => ?_
  split
  · exact pure _
  · refine .bind (allocate _ _) fun slot => .bind (.bind method fun _ => pure _) fun field => ?_
    cases field with
    | some field => exact .bind (saveSlot _) fun _ => .bind (setAccess _ _) fun _ => pure _
    | none => exact .bind (setAccess _ _) fun _ => pure _

/-- A new temporary is not in the books. -/
theorem newSpillTemp (type : Ty) (spans : Bool) : Unseen (newSpillTemp type spans) := by
  refine .bind (allocate _ _) fun slot => ⟨?_, ?_⟩
  · intro before value after success
    have rest := method_bind_eq.mp success
    cases suspended : before.method.suspension with
    | none =>
      rw [suspended] at rest
      exact (pure slot).books rest
    | some suspension =>
      rw [suspended] at rest
      cases spans with
      | false => exact (pure slot).books rest
      | true =>
        obtain ⟨between, spilled, rest⟩ := seq_ok.mp rest
        obtain rfl := modifyMethod_ok.mp spilled
        obtain ⟨books, setting⟩ := (Unseen.bind (saveSlot _) fun _ => pure slot).books rest
        refine ⟨.trans ?_ books, setting⟩
        refine { Emission.SameBooks.refl before with suspension := ?_ }
        simp [suspended, Suspension.setting]
  · intro before error after failure
    replace failure := method_bind_eq.mp failure
    cases suspended : before.method.suspension with
    | none =>
      rw [suspended] at failure
      cases failure
    | some suspension =>
      rw [suspended] at failure
      cases spans <;> cases failure

end Unseen

theorem popFrame : Tidy start start.pop ids labels regions popFrame := by
  refine modifyMethod (fun before => { Emission.SameBooks.refl before with }) ?_ ?_
  · exact fun method => List.tail_sublist _
  · rintro method rfl
    rfl

theorem catchSlots (change : List Nat → List Nat) :
    Tidy start { start with catchSlots := change start.catchSlots } ids labels regions
      (Emit.modifyMethod fun method => { method with catchSlots := change method.catchSlots }) := by
  refine modifyMethod (fun before => { Emission.SameBooks.refl before with }) ?_ ?_
  · exact fun method => List.Sublist.refl _
  · rintro method rfl
    rfl

theorem switches (change : List (StmtId × CaseMap) → List (StmtId × CaseMap)) :
    Tidy start { start with switches := change start.switches } ids labels regions
      (Emit.modifyMethod fun method => { method with switches := change method.switches }) := by
  refine modifyMethod (fun before => { Emission.SameBooks.refl before with }) ?_ ?_
  · exact fun method => List.Sublist.refl _
  · rintro method rfl
    rfl

/-- What a construct finds that begins. -/
theorem ready_pushFrame
    {frame : Frame}
    (ready : before.Ready start ids labels regions)
    (opened : ∀ region ∈ frame.region?, region ∈ regions ∧
      ∀ other ∈ start.frames, other.region? ≠ some region) :
    (before.mapMethod fun method => { method with frames := frame :: method.frames }).Ready
      (start.push frame) ids labels regions := by
  have same : before.SameBooks
      (before.mapMethod fun method => { method with frames := frame :: method.frames }) :=
    { Emission.SameBooks.refl before with }
  have frames : before.method.frames = start.frames := by
    have kept := congrArg MethodContext.frames ready.setting
    exact kept
  have framed : (before.mapMethod fun method =>
      { method with frames := frame :: method.frames }).Framed := by
    constructor
    · simp only [Emission.method_mapMethod, List.filterMap_cons]
      cases found : frame.region? with
      | none => exact ready.framed.distinct
      | some region =>
        refine List.nodup_cons.mpr ⟨fun member => ?_, ready.framed.distinct⟩
        obtain ⟨other, otherMember, otherRegion⟩ := List.mem_filterMap.mp member
        rw [frames] at otherMember
        exact (opened region found).2 other otherMember otherRegion
    · intro other member region found
      obtain rfl | member := List.mem_cons.mp member
      · exact ready.regionsOpen region (opened region found).1
      · exact ready.framed.isOpen other member region found
  have pushed := same.ready ready framed
  have setting : (before.mapMethod fun method =>
      { method with frames := frame :: method.frames }).method.setting = start.push frame := by
    rw [← ready.setting]
    rfl
  rwa [setting] at pushed

/-- Inside a construct its region is open. -/
theorem pushFrame
    {kind : FrameKind} {next : Emit β}
    (opened : ∀ region ∈ Frame.region? { stmt := id, kind }, region ∈ regions ∧
      ∀ frame ∈ start.frames, frame.region? ≠ some region)
    (nextTidy : Tidy (start.push { stmt := id, kind }) stop ids labels regions next) :
    Tidy start stop ids labels regions (pushFrame id kind >>= fun _ => next) where
  kept := by
    intro before _ after ready success
    obtain ⟨between, pushed, rest⟩ := seq_ok.mp success
    obtain rfl := modifyMethod_ok.mp pushed
    have same : before.SameBooks (before.mapMethod fun method =>
        { method with frames := { stmt := id, kind } :: method.frames }) :=
      { Emission.SameBooks.refl before with }
    exact same.prepare ready (nextTidy.kept (ready_pushFrame ready opened) rest)
  proper := by
    intro before error after ready failure
    obtain failure | ⟨_, between, pushed, failure⟩ := bind_error.mp failure
    · cases failure
    · obtain rfl := modifyMethod_ok.mp pushed
      exact nextTidy.proper (ready_pushFrame ready opened) failure

/-! ### Scopes -/

/-- Entering a scope is not seen in the books, the scopes apart. -/
theorem ready_enterScope (ready : before.Ready start ids labels regions) :
    (before.mapMethod MethodContext.enterScope).Ready start ids labels regions := by
  have unclaimed : (before.mapMethod MethodContext.enterScope).unclaimed = before.unclaimed := by
    unfold Emission.unclaimed
    cases suspended : before.method.suspension <;> simp [MethodContext.enterScope, suspended]
  exact
    { ready with
      setting := ready.setting
      orderly :=
        { distinct := by rw [unclaimed]; exact ready.orderly.distinct
          handedOut := ready.orderly.handedOut
          waiting := by rw [unclaimed]; exact ready.orderly.waiting }
      framed := ⟨ready.framed.distinct, ready.framed.isOpen⟩
      labelsApart := by rw [unclaimed]; exact ready.labelsApart }

/-- A scope that a step was run in is still there to be closed. -/
theorem exitScope_error
    (evolves : (before.mapMethod MethodContext.enterScope).Evolves between)
    (failure : exitScope between = .error error after) :
    False := by
  have scopes := evolves.scopes
  simp only [Emission.code_mapMethod, MethodContext.enterScope, Code.enterScope,
    List.map_cons] at scopes
  obtain ⟨scope, outer, opened⟩ := List.map_eq_cons_iff.mp scopes |>.imp fun scope rest =>
    rest.imp fun outer found => found.1
  simp only [exitScope, bind_error] at failure
  obtain failure | ⟨_, closed, closing, failure | ⟨_, _, read, failure⟩⟩ := failure
  · have failed := tryCode_error failure
    obtain ⟨empty, -⟩ := (Code.exitScope_eq_error_iff _ _).mp failed
    rw [opened] at empty
    contradiction
  · cases failure
  · obtain ⟨rfl, rfl⟩ := method_ok.mp read
    obtain ⟨code, -, rfl⟩ := tryCode_ok.mp closing
    have suspension := evolves.suspension
    simp only [Emission.method_mapMethod, MethodContext.enterScope] at suspension
    cases suspended : between.method.suspension with
    | none =>
      simp only [Emission.method_mapCode, suspended] at failure
      cases failure
    | some inner =>
      cases outside : before.method.suspension with
      | none => simp [suspended, outside] at suspension
      | some kept =>
        simp only [suspended, outside, Option.map_some, Option.some.injEq] at suspension
        have marks := congrArg Suspension.scopeMarks suspension
        simp only [Suspension.setting] at marks
        simp only [Emission.method_mapCode, suspended, marks] at failure
        cases failure

/-- A scope that is opened and closed again. -/
theorem evolves_exitScope
    (evolves : (before.mapMethod MethodContext.enterScope).Evolves between)
    (exited : exitScope between = .ok () after) :
    before.Evolves after ∧ after.code.marks = between.code.marks ∧
      after.method.setting = between.method.setting ∧
      after.method.labels = between.method.labels ∧
      after.method.regions = between.method.regions ∧
      after.unclaimed = between.unclaimed := by
  obtain ⟨scope, outer, scopes, exit⟩ := exitScope_cases exited
  have opened := evolves.scopes
  simp only [scopes, Emission.code_mapMethod, MethodContext.enterScope, Code.enterScope,
    List.map_cons, List.cons.injEq] at opened
  have entered : before.code.Grows (before.mapMethod MethodContext.enterScope).code :=
    .of_eq rfl rfl rfl
  have grows : before.code.Grows (between.code.closeScope scope outer) :=
    entered.trans (evolves.code.trans (.closeScope _ _ _))
  have suspension := evolves.suspension
  simp only [Emission.method_mapMethod, MethodContext.enterScope] at suspension
  obtain ⟨suspended, rfl⟩ | ⟨inner, mark, marks, suspended, markFound, rfl⟩ := exit
  · refine ⟨?_, rfl, rfl, rfl, rfl, rfl⟩
    cases outside : before.method.suspension with
    | some _ => simp [suspended, outside] at suspension
    | none =>
      exact
        { evolves with
          code := grows
          scopes := opened.2
          suspension := by simp [suspended, outside] }
  · refine ⟨?_, rfl, rfl, rfl, rfl, ?_⟩
    · cases outside : before.method.suspension with
      | none => simp [suspended, outside] at suspension
      | some kept =>
        simp only [suspended, outside, Option.map_some, Option.some.injEq, Suspension.setting,
          Suspension.mk.injEq, markFound, List.cons.injEq] at suspension
        exact
          { evolves with
            code := grows
            scopes := opened.2
            suspension := by simp [outside, Suspension.setting, suspension] }
    · simp [Emission.unclaimed, suspended]

/-- A scope around a step does not touch the books. -/
theorem inScope
    {step : Emit Unit}
    (inside : Tidy start start ids labels regions step) :
    Tidy start start ids labels regions (inScope step) where
  kept := by
    intro before _ after ready success
    obtain ⟨_, entered, rest⟩ := seq_ok.mp success
    obtain ⟨between, stepped, exited⟩ := seq_ok.mp rest
    obtain rfl := enterScope_ok.mp entered
    have kept := inside.kept (ready_enterScope ready) stepped
    obtain ⟨evolves, marks, setting, labels, regions, unclaimed⟩ :=
      evolves_exitScope kept.evolves exited
    have unclaimedBefore :
        (before.mapMethod MethodContext.enterScope).unclaimed = before.unclaimed := by
      unfold Emission.unclaimed
      cases suspended : before.method.suspension <;> simp [MethodContext.enterScope, suspended]
    have frames : after.method.frames = between.method.frames := by
      have kept := congrArg MethodContext.frames setting
      exact kept
    have unbound : ∀ label, after.Unbound label ↔ between.Unbound label := by
      intro label
      unfold Emission.Unbound
      rw [marks]
    have isOpen : ∀ region, after.IsOpen region ↔ between.IsOpen region := by
      intro region
      unfold Emission.IsOpen
      rw [regions]
    refine
      { setting := setting.trans kept.setting
        orderly := ⟨?_, ?_, ?_⟩
        framed := ⟨?_, ?_⟩
        evolves := evolves
        binds := ⟨?_, ?_⟩
        keepsOpen := fun region found absent =>
          (isOpen region).mpr (kept.keepsOpen region found absent) }
    · rw [labels, unclaimed]
      exact kept.orderly.distinct
    · rw [labels, marks]
      exact kept.orderly.handedOut
    · rw [unclaimed]
      exact fun label member => (unbound label).mpr (kept.orderly.waiting label member)
    · rw [frames]
      exact kept.framed.distinct
    · rw [frames]
      exact fun frame member region found =>
        (isOpen region).mpr (kept.framed.isOpen frame member region found)
    · intro label waiting
      obtain still | others := kept.binds.unbound label waiting
      · exact .inl ((unbound label).mpr still)
      · rw [unclaimedBefore] at others
        exact .inr others
    · intro id found missing known label member
      rw [labels] at known
      obtain ⟨fresh, waiting⟩ := kept.binds.entered id found missing known label member
      exact ⟨fresh, fun absent => (unbound label).mpr (waiting absent)⟩
  proper := by
    intro before error after ready failure
    simp only [Emit.inScope, bind_error] at failure
    obtain failure | ⟨_, _, entered, failure | ⟨_, between, stepped, failure⟩⟩ := failure
    · cases failure
    · obtain rfl := enterScope_ok.mp entered
      exact inside.proper (ready_enterScope ready) failure
    · obtain rfl := enterScope_ok.mp entered
      have kept := inside.kept (ready_enterScope ready) stepped
      exact (exitScope_error kept.evolves failure).elim

end Tidy

end Emit
end StackCode
