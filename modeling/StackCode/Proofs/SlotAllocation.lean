import StackCode.Proofs.LabelResolution

/-!
# Slots and the table of locals

Whatever is done with code, its living locals share no slot, and closing a scope
brings the slots back to where they were when it was entered.  Slots are used again,
so two locals of the table may share one, but then the first has ended where the second
begins: each local gets a lifetime, and no slot belongs to two lifetimes at a time.
-/

namespace StackCode

/-- No slot belongs to both locals. -/
def LiveLocal.Apart (first second : LiveLocal) : Prop :=
  first.slot + first.width ≤ second.slot ∨ second.slot + second.width ≤ first.slot

/-- A local with the position at which it ends. -/
structure Lifetime extends LiveLocal where
  /-- The first position at which the local is gone. -/
  stop : Nat

namespace Lifetime

/-- The table entry of a local; temporaries have none. -/
def entry? (lifetime : Lifetime) : Option LocalVarEntry :=
  lifetime.name.map fun name =>
    { start := lifetime.start
      length := lifetime.stop - lifetime.start
      name
      descriptor := lifetime.descriptor
      slot := lifetime.slot }

/-- At no position does a slot belong to both locals. -/
def Apart (first second : Lifetime) : Prop :=
  first.toLiveLocal.Apart second.toLiveLocal ∨
    first.stop ≤ second.start ∨ second.stop ≤ first.start

end Lifetime

namespace Code

/-- The locals that live, the newest one first. -/
def live (code : Code) : List LiveLocal :=
  code.scopes.flatMap LocalScope.locals ++ code.outermost

/-- The local for which slots are reserved next. -/
def next (code : Code) (name : Option String) (type : Ty) : LiveLocal :=
  { name
    descriptor := type.descriptor
    slot := code.nextSlot
    width := max type.kind.width 1
    start := code.size }

namespace History

/-- The moments at which the open scopes were entered, the innermost one first. -/
def entered : History → List History
  | [] => []
  | .enterScope :: earlier => earlier :: entered earlier
  | .exitScope :: earlier => (entered earlier).tail
  | _ :: earlier => entered earlier

/-- The locals for which slots were reserved, the newest one first. -/
def allocated (debugInfo : Bool) : History → List LiveLocal
  | [] => []
  | .allocate name type :: earlier =>
    (run debugInfo earlier).next name type :: allocated debugInfo earlier
  | _ :: earlier => allocated debugInfo earlier

end History

variable {code : Code} {debugInfo : Bool}

@[simp] theorem live_allocate (code : Code) (name : Option String) (type : Ty) :
    (code.allocate name type).2.live = code.next name type :: code.live := by
  cases scopes : code.scopes <;> simp [allocate, live, next, scopes]

theorem perform_mark_eq (code : Code) (label : Label) :
    ∃ marks, code.perform (.mark label) = { code with marks } := by
  rw [perform_mark]
  split
  · exact ⟨_, rfl⟩
  · exact ⟨_, rfl⟩

/-! ## Slots -/

/-- The locals share no slot and lie below the first free one. -/
structure Placed (live : List LiveLocal) (nextSlot : Nat) : Prop where
  apart : live.Pairwise LiveLocal.Apart
  below : ∀ owner ∈ live, owner.slot + owner.width ≤ nextSlot

theorem Placed.cons {live : List LiveLocal} (placed : Placed live code.nextSlot)
    (name : Option String) (type : Ty) :
    Placed (code.next name type :: live) (code.nextSlot + max type.kind.width 1) where
  apart := .cons (fun owner member => .inr (placed.below owner member)) placed.apart
  below := List.forall_mem_cons.mpr
    ⟨Nat.le_refl _, fun owner member => Nat.le_add_right_of_le (placed.below owner member)⟩

/--
The open scopes were entered at the given moments: without the innermost one, scopes and
slots are as they were at its moment.
-/
inductive Opened (debugInfo : Bool) : List History → List LocalScope → List LiveLocal → Prop
  | nil (outermost : List LiveLocal) : Opened debugInfo [] [] outermost
  | cons {before : History} {moments : List History} (locals : List LiveLocal) :
    Opened debugInfo moments (run debugInfo before).scopes (run debugInfo before).outermost →
    Placed (run debugInfo before).live (run debugInfo before).nextSlot →
    Opened debugInfo (before :: moments)
      (⟨(run debugInfo before).nextSlot, locals⟩ :: (run debugInfo before).scopes)
      (run debugInfo before).outermost

theorem Opened.eq_nil_iff {moments : List History} {scopes : List LocalScope}
    {outermost : List LiveLocal} (opened : Opened debugInfo moments scopes outermost) :
    scopes = [] ↔ moments = [] := by
  cases opened <;> simp

/-- Slots and scopes agree with what was done. -/
structure Allocates (debugInfo : Bool) (moments : List History) (code : Code) : Prop where
  opened : Opened debugInfo moments code.scopes code.outermost
  placed : Placed code.live code.nextSlot
  bounded : code.nextSlot ≤ code.maxLocals
  scopes : ∀ scope ∈ code.scopes, scope.firstSlot ≤ code.maxLocals

/-- A slot is allocated in the innermost scope. -/
theorem Allocates.allocate {moments : List History} (allocates : Allocates debugInfo moments code)
    (name : Option String) (type : Ty) :
    Allocates debugInfo moments (code.allocate name type).2 := by
  refine ⟨?_, ?_, ?_, ?_⟩
  · have opened := allocates.opened
    cases scopes : code.scopes with
    | nil =>
      rw [scopes] at opened
      cases opened
      simp only [Code.allocate, scopes]
      exact .nil _
    | cons scope outer =>
      rw [scopes] at opened
      simp only [Code.allocate, scopes]
      generalize code.outermost = outermost at opened
      cases opened with
      | cons locals opened placed => exact .cons _ opened placed
  · rw [live_allocate, nextSlot_allocate]
    exact allocates.placed.cons name type
  · cases scopes : code.scopes <;> simp only [Code.allocate, scopes] <;> exact Nat.le_max_right _ _
  · have bounded := allocates.scopes
    cases scopes : code.scopes with
    | nil => simp [Code.allocate, scopes]
    | cons scope outer =>
      simp only [scopes, List.forall_mem_cons] at bounded
      simp only [Code.allocate, scopes, List.forall_mem_cons]
      exact ⟨Nat.le_trans bounded.1 (Nat.le_max_left _ _),
        fun scope member => Nat.le_trans (bounded.2 scope member) (Nat.le_max_left _ _)⟩

/-- Closing a scope leads back to the scopes and slots of the moment at which it was entered. -/
theorem Allocates.exitScope {moments : List History} {closed : Code}
    (allocates : Allocates debugInfo moments code) (success : code.exitScope = .ok closed) :
    ∃ before outer, moments = before :: outer ∧
      closed.nextSlot = (run debugInfo before).nextSlot ∧
      closed.live = (run debugInfo before).live ∧ Allocates debugInfo outer closed := by
  obtain ⟨opened, -, -, bounded⟩ := allocates
  unfold Code.exitScope at success
  cases scopes : code.scopes with
  | nil => simp [scopes] at success
  | cons scope outer =>
    simp only [scopes, Except.ok.injEq] at success
    rw [scopes] at opened bounded
    subst success
    generalize same : code.outermost = outermost at opened
    cases opened with
    | @cons before moments locals opened placed =>
      have live : (code.closeScope ⟨(run debugInfo before).nextSlot, locals⟩
          (run debugInfo before).scopes).live = (run debugInfo before).live := by
        simp [closeScope, endLocals, Code.live, same]
      refine ⟨before, moments, rfl, rfl, live, ?_, ?_, ?_, ?_⟩
      · simpa [closeScope, endLocals, same] using opened
      · rw [live]
        exact placed
      · exact bounded _ List.mem_cons_self
      · exact fun scope member => bounded scope (List.mem_cons_of_mem _ member)

/-- Slots and scopes agree with any history. -/
theorem allocates_run (debugInfo : Bool) (history : History) :
    Allocates debugInfo history.entered (run debugInfo history) := by
  induction history with
  | nil => exact ⟨.nil _, ⟨.nil, nofun⟩, Nat.le_refl _, nofun⟩
  | cons operation earlier ih =>
    cases operation with
    | enterScope =>
      exact ⟨.cons [] ih.opened ih.placed, ih.placed, ih.bounded,
        List.forall_mem_cons.mpr ⟨ih.bounded, ih.scopes⟩⟩
    | exitScope =>
      simp only [run, perform, History.entered]
      cases exited : (run debugInfo earlier).exitScope with
      | error error =>
        have closed := ih.opened.eq_nil_iff.mp ((exitScope_eq_error_iff _ _).mp exited).1
        rw [closed] at ih ⊢
        exact ih
      | ok closed =>
        obtain ⟨before, outer, moments, -, -, allocates⟩ := ih.exitScope exited
        rw [moments]
        exact allocates
    | allocate name type => exact ih.allocate name type
    | mark label =>
      obtain ⟨marks, same⟩ := (run debugInfo earlier).perform_mark_eq label
      rw [run, same]
      exact ⟨ih.opened, ih.placed, ih.bounded, ih.scopes⟩
    | _ => exact ⟨ih.opened, ih.placed, ih.bounded, ih.scopes⟩

/-! ## Lifetimes -/

/-- Every local that was reserved lives or has ended, and no slot belongs to two at a time. -/
structure Recorded (lifetimes : List Lifetime) (live allocated : List LiveLocal) (size : Nat) :
    Prop where
  complete : (lifetimes.map Lifetime.toLiveLocal ++ live).Perm allocated
  started : ∀ owner ∈ live, owner.start ≤ size
  ended : ∀ lifetime ∈ lifetimes, lifetime.start ≤ lifetime.stop ∧ lifetime.stop ≤ size
  apart : lifetimes.Pairwise Lifetime.Apart
  /-- A local that has ended shares slots only with locals that began later. -/
  earlier : ∀ lifetime ∈ lifetimes, ∀ owner ∈ live,
    lifetime.toLiveLocal.Apart owner ∨ lifetime.stop ≤ owner.start

namespace Recorded

variable {lifetimes : List Lifetime} {live allocated : List LiveLocal} {size : Nat}

theorem mono (recorded : Recorded lifetimes live allocated size) {later : Nat}
    (le : size ≤ later) : Recorded lifetimes live allocated later :=
  { recorded with
    started := fun owner member => Nat.le_trans (recorded.started owner member) le
    ended := fun lifetime member =>
      ⟨(recorded.ended lifetime member).1, Nat.le_trans (recorded.ended lifetime member).2 le⟩ }

/-- A local that gets a slot begins to live. -/
theorem allocate (recorded : Recorded lifetimes live allocated code.size)
    (name : Option String) (type : Ty) :
    Recorded lifetimes (code.next name type :: live)
      (code.next name type :: allocated) code.size where
  complete := List.perm_middle.trans (recorded.complete.cons _)
  started := List.forall_mem_cons.mpr ⟨Nat.le_refl _, recorded.started⟩
  ended := recorded.ended
  apart := recorded.apart
  earlier lifetime member := List.forall_mem_cons.mpr
    ⟨.inr (recorded.ended lifetime member).2, recorded.earlier lifetime member⟩

/-- Some of the living locals end. -/
theorem close (recorded : Recorded lifetimes live allocated size)
    (disjoint : live.Pairwise LiveLocal.Apart) {ending rest : List LiveLocal}
    (parts : (ending ++ rest).Perm live) :
    Recorded (lifetimes ++ ending.map (⟨·, size⟩)) rest allocated size := by
  have member : ∀ {owner}, owner ∈ ending ∨ owner ∈ rest → owner ∈ live :=
    fun found => parts.mem_iff.mp (List.mem_append.mpr found)
  obtain ⟨within, -, across⟩ := List.pairwise_append.mp
    ((parts.pairwise_iff fun apart => Or.symm apart).mpr disjoint)
  refine ⟨?_, fun owner found => recorded.started owner (member (.inr found)), ?_, ?_, ?_⟩
  · refine .trans ?_ ((parts.append_left _).trans recorded.complete)
    simp [Function.comp_def]
  · simp only [List.forall_mem_append, List.forall_mem_map]
    exact ⟨recorded.ended,
      fun owner found => ⟨recorded.started owner (member (.inl found)), Nat.le_refl _⟩⟩
  · simp only [List.pairwise_append, List.pairwise_map, List.forall_mem_map]
    refine ⟨recorded.apart, within.imp .inl, fun lifetime ended owner found => ?_⟩
    exact (recorded.earlier lifetime ended owner (member (.inl found))).imp_right .inl
  · simp only [List.forall_mem_append, List.forall_mem_map]
    exact ⟨fun lifetime ended owner found =>
      recorded.earlier lifetime ended owner (member (.inr found)),
      fun owner ended other found => .inl (across owner ended other found)⟩

end Recorded

/-- The table kept in code lists the lifetimes that have ended. -/
structure Lists (lifetimes : List Lifetime) (code : Code) : Prop where
  kept : code.debugInfo = true
  table : code.ended.toList = lifetimes.filterMap Lifetime.entry?

theorem Lists.endLocals {lifetimes : List Lifetime} (lists : Lists lifetimes code)
    (ending : List LiveLocal) :
    Lists (lifetimes ++ ending.map (⟨·, code.size⟩)) (code.endLocals ending) where
  kept := lists.kept
  table := by
    have entry : code.endLocal? = Lifetime.entry? ∘ (⟨·, code.size⟩) := by
      funext owner
      simp [endLocal?, Lifetime.entry?, lists.kept]
    simp [Code.endLocals, lists.table, entry, List.filterMap_append, List.filterMap_map]

/-- At every moment, each local that was reserved lives or has a lifetime in the table. -/
theorem recorded_run (history : History) :
    ∃ lifetimes, Lists lifetimes (run true history) ∧
      Recorded lifetimes (run true history).live (history.allocated true)
        (run true history).size := by
  induction history with
  | nil => exact ⟨[], ⟨rfl, rfl⟩, .refl _, nofun, nofun, .nil, nofun⟩
  | cons operation earlier ih =>
    obtain ⟨lifetimes, lists, recorded⟩ := ih
    cases operation with
    | emit instruction =>
      refine ⟨lifetimes, ⟨lists.kept, lists.table⟩, recorded.mono ?_⟩
      simp [run, perform]
    | exitScope =>
      simp only [run, perform, History.allocated]
      cases exited : (run true earlier).exitScope with
      | error error => exact ⟨lifetimes, lists, recorded⟩
      | ok closed =>
        unfold exitScope at exited
        split at exited
        · contradiction
        · next scope outer scopes =>
          cases exited
          have closed := lists.endLocals scope.locals
          refine ⟨_, ⟨closed.kept, closed.table⟩,
            recorded.close (allocates_run true earlier).placed.apart (.of_eq ?_)⟩
          simp [live, scopes, closeScope, endLocals, Except.toOption]
    | allocate name type =>
      refine ⟨lifetimes, ⟨?_, ?_⟩, ?_⟩
      · cases scopes : (run true earlier).scopes <;>
          simp [run, perform, allocate, scopes, lists.kept]
      · cases scopes : (run true earlier).scopes <;>
          simp [run, perform, allocate, scopes, lists.table]
      · simp only [run, perform, live_allocate, History.allocated, size, instructions_allocate]
        exact recorded.allocate name type
    | mark label =>
      obtain ⟨marks, same⟩ := (run true earlier).perform_mark_eq label
      rw [run, same]
      exact ⟨lifetimes, ⟨lists.kept, lists.table⟩, recorded⟩
    | _ => exact ⟨lifetimes, ⟨lists.kept, lists.table⟩, recorded⟩

/-- Closing the scopes lists all that still lives. -/
theorem Lists.closeScopes {lifetimes : List Lifetime} (lists : Lists lifetimes code) :
    Lists (lifetimes ++ (code.scopes.flatMap LocalScope.locals).map (⟨·, code.size⟩))
      code.closeScopes ∧
    code.closeScopes.outermost = code.outermost ∧ code.closeScopes.size = code.size := by
  unfold Code.closeScopes
  generalize code.scopes = scopes
  induction scopes generalizing code lifetimes with
  | nil => simpa using lists
  | cons scope scopes ih =>
    have closed := lists.endLocals scope.locals
    have rest := @ih (code.closeScope scope code.scopes.tail) _ ⟨closed.kept, closed.table⟩
    simpa [closeScope, Code.endLocals, size, List.append_assoc] using rest

/--
At every moment the living locals share no slot and lie below the first free one.  Closing
a scope fails exactly if none is open, and otherwise frees what was reserved since it was
entered.  The table of a finished body has one entry for each local with a name, the entry
ends within the code, and no slot belongs to two locals at one position.
-/
theorem localVars_run (debugInfo : Bool) (history : History) :
    ((run debugInfo history).live.Pairwise LiveLocal.Apart ∧
      (∀ owner ∈ (run debugInfo history).live,
        owner.slot + owner.width ≤ (run debugInfo history).nextSlot) ∧
      (run debugInfo history).nextSlot ≤ (run debugInfo history).maxLocals) ∧
    (∀ error, (run debugInfo history).exitScope = .error error ↔
      history.entered = [] ∧ error = .scopeUnderflow) ∧
    (∀ closed, (run debugInfo history).exitScope = .ok closed →
      ∃ before outer, history.entered = before :: outer ∧
        closed.nextSlot = (run debugInfo before).nextSlot ∧
        closed.live = (run debugInfo before).live) ∧
    (∀ body, (run true history).finish = .ok body →
      (∀ entry ∈ body.localVars, entry.start + entry.length ≤ body.instructions.size) ∧
      ∃ lifetimes : List Lifetime,
        (lifetimes.map Lifetime.toLiveLocal).Perm (history.allocated true) ∧
        body.localVars = lifetimes.filterMap Lifetime.entry? ∧
        (∀ lifetime ∈ lifetimes, lifetime.start ≤ lifetime.stop) ∧
        lifetimes.Pairwise Lifetime.Apart) := by
  have allocates := allocates_run debugInfo history
  refine ⟨⟨allocates.placed.apart, allocates.placed.below, allocates.bounded⟩, fun error => ?_,
    fun closed success => ?_, fun body success => ?_⟩
  · rw [exitScope_eq_error_iff, allocates.opened.eq_nil_iff]
  · obtain ⟨before, outer, moments, nextSlot, live, -⟩ := allocates.exitScope success
    exact ⟨before, outer, moments, nextSlot, live⟩
  · have finishes := finishes_of_finish success
    obtain ⟨lifetimes, lists, recorded⟩ := recorded_run history
    obtain ⟨closed, outermost, size⟩ := lists.closeScopes
    have listed := closed.endLocals (run true history).closeScopes.outermost.reverse
    rw [size, List.append_assoc, ← List.map_append, outermost] at listed
    have ending : ((run true history).scopes.flatMap LocalScope.locals ++
        (run true history).outermost.reverse ++ []).Perm (run true history).live := by
      rw [List.append_nil]
      exact (List.reverse_perm _).append_left _
    have finished := recorded.close (allocates_run true history).placed.apart ending
    have table := finishes.localVars
    rw [outermost, listed.table] at table
    refine ⟨?_, _, by simpa using finished.complete, table,
      fun lifetime member => (finished.ended lifetime member).1, finished.apart⟩
    rw [table, finishes.instructions]
    intro entry member
    obtain ⟨lifetime, ended, found⟩ := List.mem_filterMap.mp member
    obtain ⟨name, -, rfl⟩ := Option.map_eq_some_iff.mp found
    have ended := finished.ended lifetime ended
    exact (Nat.add_sub_cancel' ended.1).trans_le ended.2

end Code
end StackCode
