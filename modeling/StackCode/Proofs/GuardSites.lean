import StackCode.Lower
import StackCode.Proofs.Continuation
import StackCode.Proofs.ExceptionTable

/-!
# Emissions of protected constructs

A statement that protects code can be emitted several times, in the copies of a
finally body.  This module describes one such emission by the positions of what it
protects and of its handlers, and says how the description is tied to the code and
to the exception table.  A run of a generation registers the entries of the
emissions that lie in it.
-/

namespace StackCode

variable {code more : Code} {earlier entries later : List ExceptionEntry} {first : Nat}

/-! ## Statements that are emitted -/

namespace Stmt

/-- The statements directly inside one that are lowered with it. -/
def lowered : Stmt → List Stmt
  | .cond _ condition thenBranch elseBranch =>
    match condition.constantBool? with
    | some true => [thenBranch]
    | some false => elseBranch.toList
    | none => thenBranch :: elseBranch.toList
  | .whileLoop _ condition body => if condition.constantBool? = some false then [] else [body]
  | .forLoop _ init condition _ body =>
    if condition.bind Expr.constantBool? = some false then init else init ++ [body]
  | stmt => stmt.children

/-- Lowering a statement emits another one, which is the same or inside of it. -/
inductive Emits : Stmt → Stmt → Prop where
  | self {stmt : Stmt} (reachable : stmt.isReachable) : Emits stmt stmt
  | inside {stmt child inner : Stmt}
      (reachable : stmt.isReachable)
      (lowered : child ∈ stmt.lowered)
      (emits : Emits child inner) :
      Emits stmt inner

/-- The number of constructs of a statement that protect code. -/
def guardCount : Stmt → Nat
  | .guard _ _ _ _ => 1
  | .acquire _ resources _ => resources.length
  | .synchronized _ _ _ => 1
  | .forEach _ _ _ (.iterator _ _ _ (some _)) _ => 1
  | _ => 0

end Stmt

/-! ## Emissions -/

/-- A part of the code that a construct protects. -/
structure ProtectedPart where
  /-- Where the part begins. -/
  start : Nat
  /-- Where the part ends. -/
  stop : Nat
  /-- What is left of it after all exits have cut theirs out. -/
  ranges : List (Nat × Nat)

/-- The emission of a catch clause. -/
structure CatchSite where
  /-- Where the handler begins. -/
  handler : Nat
  /-- The class of the exceptions that are caught. -/
  catchType : Option String
  /-- The body of the clause, if a finally body guards it. -/
  guarded : Option ProtectedPart

/-- One emission of a protected construct. -/
structure GuardSite where
  /-- The statement that has the construct. -/
  stmt : Stmt
  /-- Which of the constructs of the statement it is. -/
  index : Nat
  /-- Where the emission begins. -/
  first : Nat
  /-- Where the emission ends. -/
  last : Nat
  /-- What the construct protects in the first place. -/
  block : ProtectedPart
  /-- The catch clauses. -/
  clauses : List CatchSite
  /-- The handler that catches everything. -/
  catchAll : Option Nat

/-- The handler of a catch clause with the entries that it takes for the given ranges. -/
def CatchSite.own (ranges : List (Nat × Nat)) (site : CatchSite) : Nat × List ExceptionEntry :=
  (site.handler, ranges.map (Code.entryOf site.handler site.catchType))

namespace GuardSite

/-- The handlers of a construct, in the order of their clauses. -/
def handlers (site : GuardSite) : List Nat :=
  site.clauses.map CatchSite.handler ++ site.catchAll.toList

/-- The catch bodies that a finally body guards. -/
def guarded (site : GuardSite) : List ProtectedPart :=
  site.clauses.flatMap fun clause => clause.guarded.toList

/-- The parts that a construct protects. -/
def parts (site : GuardSite) : List ProtectedPart := site.block :: site.guarded

/-- The ranges that a handler of the construct is for: only what catches all is for catch bodies. -/
def rangesOf (site : GuardSite) (handler : Nat) : List (Nat × Nat) :=
  if site.catchAll = some handler then site.parts.flatMap ProtectedPart.ranges
  else site.block.ranges

/-- The handlers of a construct with the entries that they take. -/
def own (site : GuardSite) : List (Nat × List ExceptionEntry) :=
  site.clauses.map (CatchSite.own site.block.ranges) ++ site.catchAll.toList.map fun handler =>
    (handler, (site.parts.flatMap ProtectedPart.ranges).map (Code.entryOf handler none))

theorem map_fst_own (site : GuardSite) : site.own.map Prod.fst = site.handlers := by
  simp [own, handlers, CatchSite.own, Function.comp_def]

theorem own_mem_of_mem_clauses {site : GuardSite} {clause : CatchSite}
    (member : clause ∈ site.clauses) : clause.own site.block.ranges ∈ site.own :=
  List.mem_append_left _ (List.mem_map_of_mem member)

theorem own_mem_of_mem_catchAll {site : GuardSite} {handler : Nat}
    (member : handler ∈ site.catchAll) :
    (handler, (site.parts.flatMap ProtectedPart.ranges).map (Code.entryOf handler none)) ∈
      site.own :=
  List.mem_append_right _ (List.mem_map.mpr ⟨handler, Option.mem_toList.mpr member, rfl⟩)

/-- The parts of the emission and its handlers stand behind one another. -/
structure Placed (site : GuardSite) : Prop where
  begins : site.first ≤ site.block.start
  ends : ∀ handler ∈ site.handlers, handler < site.last
  /-- Handlers follow the block in the order of their clauses. -/
  behind : ∀ handler ∈ site.handlers, site.block.stop ≤ handler
  ordered : site.handlers.Pairwise (· < ·)
  /-- The ranges of the parts follow one another. -/
  successive : ∀ part ∈ site.parts, Successive part.start part.ranges part.stop
  together : ∀ handler ∈ site.handlers,
    Successive site.block.start (site.rangesOf handler) handler
  /-- Catch bodies stand behind the block and before what catches everything. -/
  guarded : ∀ part ∈ site.guarded,
    site.block.stop ≤ part.start ∧ ∀ handler ∈ site.catchAll, part.stop ≤ handler

/-- The entries for the handlers of a construct are the ones that it takes. -/
structure Fits (entries : List ExceptionEntry) (site : GuardSite) : Prop where
  /-- Every catch clause protects the same ranges. -/
  clauses : ∀ clause ∈ site.clauses,
    (entries.filter fun entry => entry.handler = clause.handler) =
      site.block.ranges.map (Code.entryOf clause.handler clause.catchType)
  /-- The handler for everything protects the catch bodies, too. -/
  catchAll : ∀ handler ∈ site.catchAll,
    (entries.filter fun entry => entry.handler = handler) =
      (site.parts.flatMap ProtectedPart.ranges).map (Code.entryOf handler none)

end GuardSite

/-! ## Emissions in the code -/

namespace Emit

/-- Lower a part in a region of its own; its segments are returned. -/
def inRegion
    (enter : RegionId → Emit Unit)
    (part leave : Emit Unit) :
    Emit (List (Label × Label)) := do
  let region ← openRegion
  enter region
  part
  leave
  closeRegion region

/-- The code from one position to another was emitted by a step. -/
def Spans (step : Emit Unit) (code : Code) (first last : Nat) : Prop :=
  ∃ before after, step before = .ok () after ∧ before.size = first ∧ after.size = last ∧
    after.code.Grows code

theorem Spans.grows {step : Emit Unit} {code more : Code} {first last : Nat}
    (spans : Spans step code first last) (grows : code.Grows more) :
    Spans step more first last := by
  obtain ⟨before, after, ran, begun, ended, within⟩ := spans
  exact ⟨before, after, ran, begun, ended, within.trans grows⟩

/-- How a statement emits a construct that has one handler, which catches everything. -/
inductive Releasing (lower : Lowering) :
    Stmt → Nat → (RegionId → FrameKind) → Bool → Emit Unit → Emit Unit → Prop where
  | monitor {tag : StmtTag} {lock : Expr} {body : Stmt} (slot : Nat) :
      Releasing lower (.synchronized tag lock body) 0 (.monitor slot) body.completes (lower body)
        (exitMonitor slot)
  | resource {tag : StmtTag} (left : List Resource) (resource : Resource) (right : List Resource)
      {body : Stmt} (slot : Nat) (spans : Bool) :
      Releasing lower (.acquire tag (left ++ resource :: right) body) left.length
        (.resource slot resource.dispose) body.completes
        (lowerResources lower tag spans body right) (disposeResource slot resource.dispose)
  | iterator {tag : StmtTag} {decl : LocalDecl} {collection : Expr}
      {iterator hasNext next dispose : MethodRef} {body : Stmt} (labels : StmtLabels) (slot : Nat) :
      Releasing lower
        (.forEach tag decl collection (.iterator iterator hasNext next (some dispose)) body) 0
        (.iterator slot dispose) true
        (lowerIteratorRounds lower tag labels decl slot hasNext next body)
        (disposeIterator slot dispose)

end Emit

open Emit

/-- A part of the code was emitted by a step that returned the segments to protect. -/
def ProtectedPart.Renders (step : Emit (List (Label × Label))) (code : Code)
    (part : ProtectedPart) : Prop :=
  ∃ before segments after, step before = .ok segments after ∧
    before.size = part.start ∧ after.size = part.stop ∧ after.code.Grows code ∧
      code.ranges segments = part.ranges ∧ ∀ segment ∈ segments, code.Bounds segment

/-- The emission of a catch clause of a try statement. -/
structure CatchSite.Renders
    (lower : Lowering)
    (code : Code)
    (id : StmtId)
    (finalizer : Option Stmt)
    (clause : CatchClause)
    (site : CatchSite) :
    Prop where
  catchType : site.catchType = clause.type.map Ty.internalName
  /-- The body of the clause is guarded if there is a finally body. -/
  isGuarded : site.guarded.isSome = finalizer.isSome
  guarded : ∀ part ∈ site.guarded,
    part.Renders (inFinalized id finalizer (lowerCatchBody lower clause)) code

/-- The emission of a construct is that of its statement. -/
inductive GuardSite.Renders (lower : Lowering) (code : Code) (site : GuardSite) : Prop where
  | guard {tag : StmtTag} {body : Stmt} {catches : List CatchClause} {finalizer : Option Stmt}
      (stmt : site.stmt = .guard tag body catches finalizer)
      (index : site.index = 0)
      (whole : Spans (lowerGuard lower tag.id body catches finalizer) code site.first site.last)
      (block : site.block.Renders (lowerGuardBody lower tag.id body finalizer) code)
      (clauses : List.Forall₂ (CatchSite.Renders lower code tag.id finalizer) catches site.clauses)
      (catchAll : site.catchAll.isSome = finalizer.isSome) :
      Renders lower code site
  | releasing {kind : RegionId → FrameKind} {completes : Bool} {part release : Emit Unit}
      (releasing : Releasing lower site.stmt site.index kind completes part release)
      (whole : Spans (lowerReleasing site.stmt.id kind completes part release) code
        site.first site.last)
      (block : site.block.Renders
        (inRegion (fun region => pushFrame site.stmt.id (kind region)) part popFrame) code)
      (clauses : site.clauses = [])
      (catchAll : site.catchAll.isSome) :
      Renders lower code site

/-- A part stays where it is while code is added. -/
theorem ProtectedPart.Renders.grows
    {step : Emit (List (Label × Label))} {part : ProtectedPart}
    (renders : part.Renders step code)
    (grows : code.Grows more) :
    part.Renders step more := by
  obtain ⟨before, segments, after, ran, begun, ended, within, ranges, bounds⟩ := renders
  refine ⟨before, segments, after, ran, begun, ended, within.trans grows, ?_, ?_⟩
  · rw [Code.ranges_eq_of_grows bounds grows, ranges]
  · exact fun segment member => (bounds segment member).grows grows

theorem CatchSite.Renders.grows
    {lower : Lowering} {id : StmtId} {finalizer : Option Stmt} {clause : CatchClause}
    {site : CatchSite}
    (renders : site.Renders lower code id finalizer clause)
    (grows : code.Grows more) :
    site.Renders lower more id finalizer clause :=
  { renders with guarded := fun part found => (renders.guarded part found).grows grows }

variable {site : GuardSite}

/-- A construct stays where it is while code is added. -/
theorem GuardSite.Renders.grows {lower : Lowering}
    (renders : site.Renders lower code) (grows : code.Grows more) : site.Renders lower more := by
  cases renders with
  | guard stmt index whole block clauses catchAll =>
    refine .guard stmt index (whole.grows grows) (block.grows grows) ?_ catchAll
    exact clauses.imp fun _ _ renders => renders.grows grows
  | releasing releasing whole block clauses catchAll =>
    exact .releasing releasing (whole.grows grows) (block.grows grows) clauses catchAll

/-! ## Entries for handlers in different places -/

/-- Entries for handlers elsewhere do not matter. -/
theorem filter_handler_append
    {handler last : Nat}
    (before : ∀ entry ∈ earlier, entry.handler < first)
    (behind : ∀ entry ∈ later, last ≤ entry.handler)
    (above : first ≤ handler)
    (below : handler < last) :
    ((earlier ++ entries ++ later).filter fun entry => entry.handler = handler) =
      entries.filter fun entry => entry.handler = handler := by
  have none : (earlier.filter fun entry => entry.handler = handler) = [] := by
    refine List.filter_eq_nil_iff.mpr fun entry member => ?_
    have := before entry member
    simp only [decide_eq_true_eq]
    omega
  have none' : (later.filter fun entry => entry.handler = handler) = [] := by
    refine List.filter_eq_nil_iff.mpr fun entry member => ?_
    have := behind entry member
    simp only [decide_eq_true_eq]
    omega
  simp [List.filter_append, none, none']

/-- Entries before and behind its own do not disturb a construct. -/
theorem GuardSite.Fits.append
    {last : Nat}
    (fits : site.Fits entries)
    (before : ∀ entry ∈ earlier, entry.handler < first)
    (behind : ∀ entry ∈ later, last ≤ entry.handler)
    (inside : ∀ handler ∈ site.handlers, first ≤ handler ∧ handler < last) :
    site.Fits (earlier ++ entries ++ later) where
  clauses := by
    intro clause member
    obtain ⟨above, below⟩ := inside clause.handler
      (List.mem_append_left _ (List.mem_map_of_mem member))
    rw [filter_handler_append before behind above below, fits.clauses clause member]
  catchAll := by
    intro handler member
    obtain ⟨above, below⟩ := inside handler
      (List.mem_append_right _ (Option.mem_toList.mpr member))
    rw [filter_handler_append before behind above below, fits.catchAll handler member]

/-- The handlers of an emission stand within it, behind its block. -/
theorem GuardSite.Placed.inside (placed : site.Placed) {handler : Nat}
    (member : handler ∈ site.handlers) : site.first ≤ handler ∧ handler < site.last := by
  have begins := placed.begins
  have block := (placed.successive site.block List.mem_cons_self).le
  have behind := placed.behind handler member
  exact ⟨by omega, placed.ends handler member⟩

/-! ## What a run registers -/

/-- The segments of a region follow one another from a position on. -/
def Emission.Ascends (state : Emission) (region : RegionId) (first : Nat) : Prop :=
  ∃ found, state.method.regions[region]? = some found ∧ found.Ascends state.code first

/-- The finally body that cleaning a frame up copies is among the given statements. -/
def Frame.Of (Known : Stmt → Prop) (frame : Frame) : Prop :=
  ∀ finalizer region, frame.kind = .finalized finalizer region → Known finalizer

/-- The finally bodies around the current point are among the given statements. -/
def Emission.FramesOf (Known : Stmt → Prop) (state : Emission) : Prop :=
  ∀ frame ∈ state.method.frames, frame.Of Known

/-- What every run leaves as it should be. -/
structure Emission.Passes (Known : Stmt → Prop) (before after : Emission) : Prop where
  grows : before.code.Grows after.code
  ascends : ∀ region first, before.Ascends region first → after.Ascends region first
  frames : after.FramesOf Known

/-- A run that registers nothing. -/
structure Emission.Silent (Known : Stmt → Prop) (before after : Emission) : Prop
    extends Emission.Passes Known before after where
  regions : after.code.regions = before.code.regions

/-- An emission within a run. -/
structure GuardSite.Stands
    (Known : Stmt → Prop)
    (first : Nat)
    (code : Code)
    (entries : List ExceptionEntry)
    (site : GuardSite) :
    Prop where
  known : Known site.stmt
  rendered : ∃ depth, site.Renders (lowerWithin depth) code
  placed : site.Placed
  fits : site.Fits entries
  begins : first ≤ site.first
  ends : site.last ≤ code.size

/--
A run that registers entries for the given emissions, and for further handlers of
a construct that is still being emitted.
-/
structure Emission.Registers
    (Known : Stmt → Prop)
    (before after : Emission)
    (entries : List ExceptionEntry)
    (sites : List GuardSite)
    (own : List (Nat × List ExceptionEntry)) :
    Prop
    extends Emission.Passes Known before after where
  tables : before.code.Tables after.code entries
  complete : ∀ entry ∈ entries,
    entry.handler ∈ own.map Prod.fst ∨ ∃ site ∈ sites, entry.handler ∈ site.handlers
  distinct : (own.map Prod.fst ++ sites.flatMap GuardSite.handlers).Nodup
  stands : ∀ site ∈ sites, site.Stands Known before.size after.code entries
  fits : ∀ handler ∈ own, before.size ≤ handler.1 ∧ handler.1 < after.size ∧
    (entries.filter fun entry => entry.handler = handler.1) = handler.2

/-- An emission stands in a longer run, too. -/
theorem GuardSite.Stands.append
    {Known : Stmt → Prop} {start stop : Nat}
    (stands : site.Stands Known start code entries)
    (grows : code.Grows more)
    (begins : first ≤ start)
    (ends : code.size ≤ stop)
    (before : ∀ entry ∈ earlier, entry.handler < start)
    (behind : ∀ entry ∈ later, stop ≤ entry.handler) :
    site.Stands Known first more (earlier ++ entries ++ later) where
  known := stands.known
  rendered := by
    obtain ⟨depth, renders⟩ := stands.rendered
    exact ⟨depth, renders.grows grows⟩
  placed := stands.placed
  fits := by
    refine stands.fits.append before behind fun handler member => ?_
    have inside := stands.placed.inside member
    have := stands.begins
    have := stands.ends
    omega
  begins := by
    have := stands.begins
    omega
  ends := stands.ends.trans grows.size_le

namespace Emission

variable {Known : Stmt → Prop} {before between after : Emission}
  {entries more : List ExceptionEntry} {sites others : List GuardSite}
  {own own' : List (Nat × List ExceptionEntry)}

theorem Passes.trans (first : before.Passes Known between) (second : between.Passes Known after) :
    before.Passes Known after where
  grows := first.grows.trans second.grows
  ascends region position ascends :=
    second.ascends region position (first.ascends region position ascends)
  frames := second.frames

theorem Silent.refl {state : Emission} (framed : state.FramesOf Known) :
    state.Silent Known state where
  grows := .refl _
  ascends _ _ ascends := ascends
  frames := framed
  regions := rfl

theorem Silent.trans (first : before.Silent Known between) (second : between.Silent Known after) :
    before.Silent Known after where
  toPasses := first.toPasses.trans second.toPasses
  regions := second.regions.trans first.regions

theorem Silent.registers (silent : before.Silent Known after) :
    before.Registers Known after [] [] [] where
  toPasses := silent.toPasses
  tables := .silent silent.grows silent.regions
  complete := by simp
  distinct := by simp
  stands := by simp
  fits := by simp

namespace Registers

/-- All handlers begin in the run. -/
theorem handlers (registers : before.Registers Known after entries sites own) :
    ∀ handler ∈ own.map Prod.fst ++ sites.flatMap GuardSite.handlers,
      before.size ≤ handler ∧ handler < after.size := by
  intro handler member
  obtain member | member := List.mem_append.mp member
  · obtain ⟨entry, listed, rfl⟩ := List.mem_map.mp member
    obtain ⟨above, below, -⟩ := registers.fits entry listed
    exact ⟨above, below⟩
  · obtain ⟨site, listed, found⟩ := List.mem_flatMap.mp member
    have stands := registers.stands site listed
    have inside := stands.placed.inside found
    have begins := stands.begins
    have ends : site.last ≤ after.size := stands.ends
    omega

/-- One run after the other. -/
theorem trans (first : before.Registers Known between entries sites own)
    (second : between.Registers Known after more others own') :
    before.Registers Known after (entries ++ more) (sites ++ others) (own ++ own') where
  toPasses := first.toPasses.trans second.toPasses
  tables := first.tables.trans second.tables
  complete := by
    intro entry member
    rw [List.map_append, List.mem_append]
    obtain member | member := List.mem_append.mp member
    · obtain found | ⟨site, listed, found⟩ := first.complete entry member
      · exact .inl (.inl found)
      · exact .inr ⟨site, List.mem_append_left _ listed, found⟩
    · obtain found | ⟨site, listed, found⟩ := second.complete entry member
      · exact .inl (.inr found)
      · exact .inr ⟨site, List.mem_append_right _ listed, found⟩
  distinct := by
    have apart : ((own.map Prod.fst ++ sites.flatMap GuardSite.handlers) ++
        (own'.map Prod.fst ++ others.flatMap GuardSite.handlers)).Nodup := by
      refine List.nodup_append.mpr ⟨first.distinct, second.distinct, ?_⟩
      rintro handler member _ member' rfl
      have := first.handlers handler member
      have := second.handlers handler member'
      omega
    refine (List.Perm.nodup_iff ?_).mp apart
    simp only [List.map_append, List.flatMap_append, List.append_assoc]
    refine List.Perm.append_left _ ?_
    simp only [← List.append_assoc]
    exact List.perm_append_comm.append_right _
  stands := by
    intro site member
    obtain member | member := List.mem_append.mp member
    · have none : ∀ entry ∈ ([] : List ExceptionEntry), entry.handler < before.size := by simp
      exact (first.stands site member).append second.grows (Nat.le_refl _) (Nat.le_refl _)
        none fun entry listed => (second.tables.handlers entry listed).1
    · have none : ∀ entry ∈ ([] : List ExceptionEntry), after.code.size ≤ entry.handler := by simp
      have stands := (second.stands site member).append (.refl _) first.grows.size_le
        (Nat.le_refl _) (fun entry listed => (first.tables.handlers entry listed).2) none
      rwa [List.append_nil] at stands
  fits := by
    have sizes := first.grows.size_le
    have sizes' := second.grows.size_le
    change before.size ≤ between.size at sizes
    change between.size ≤ after.size at sizes'
    intro handler member
    obtain member | member := List.mem_append.mp member
    · obtain ⟨above, below, fits⟩ := first.fits handler member
      have none : ∀ entry ∈ ([] : List ExceptionEntry), entry.handler < before.size := by simp
      refine ⟨above, by omega, ?_⟩
      rw [← fits]
      exact filter_handler_append none (fun entry listed => (second.tables.handlers entry listed).1)
        above below
    · obtain ⟨above, below, fits⟩ := second.fits handler member
      have none : ∀ entry ∈ ([] : List ExceptionEntry), after.size ≤ entry.handler := by simp
      refine ⟨by omega, below, ?_⟩
      rw [← fits, ← List.append_nil (entries ++ more)]
      exact filter_handler_append (fun entry listed => (first.tables.handlers entry listed).2)
        none above below

/-- A run that registers nothing follows. -/
theorem andSilent (registers : before.Registers Known between entries sites own)
    (silent : between.Silent Known after) : before.Registers Known after entries sites own := by
  have whole := registers.trans silent.registers
  simpa only [List.append_nil] using whole

/-- A run that registers nothing comes first. -/
theorem ofSilent (silent : before.Silent Known between)
    (registers : between.Registers Known after entries sites own) :
    before.Registers Known after entries sites own :=
  silent.registers.trans registers

/-- A construct has been emitted. -/
theorem close {site : GuardSite} {depth : Nat}
    (registers : before.Registers Known after entries sites site.own)
    (known : Known site.stmt)
    (renders : site.Renders (lowerWithin depth) after.code)
    (placed : site.Placed)
    (begins : site.first = before.size)
    (ends : site.last = after.size) :
    before.Registers Known after entries (site :: sites) [] where
  toPasses := registers.toPasses
  tables := registers.tables
  complete := by
    intro entry member
    obtain found | ⟨other, listed, found⟩ := registers.complete entry member
    · exact .inr ⟨site, List.mem_cons_self, site.map_fst_own ▸ found⟩
    · exact .inr ⟨other, List.mem_cons_of_mem _ listed, found⟩
  distinct := by
    have distinct := registers.distinct
    rw [site.map_fst_own] at distinct
    exact distinct
  stands := by
    refine List.forall_mem_cons.mpr ⟨?_, registers.stands⟩
    refine ⟨known, ⟨depth, renders⟩, placed, ⟨?_, ?_⟩, begins.ge, ends.le⟩
    · intro clause member
      exact (registers.fits _ (GuardSite.own_mem_of_mem_clauses member)).2.2
    · intro handler member
      exact (registers.fits _ (GuardSite.own_mem_of_mem_catchAll member)).2.2
  fits := by simp

end Registers

end Emission

end StackCode
