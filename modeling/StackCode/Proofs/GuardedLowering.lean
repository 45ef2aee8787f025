import StackCode.Proofs.Registration

/-!
# What lowering registers

Lowering a statement registers the entries of the emissions that lie in it, and
every statement that it emits has an emission for each of its constructs.
-/

namespace StackCode

variable {segments : List (Label × Label)} {clause : CatchClause}

namespace Emit

variable {Known : Stmt → Prop} {Wanted : Stmt → Nat → Prop}
variable {before after : Emission}

/-! ## Parts in a region of their own -/

/-- The segments of a region are what is left of the part that is lowered in it. -/
theorem inRegion_ok
    {enter : RegionId → Emit Unit} {part leave : Emit Unit}
    (enterSilent : ∀ region, Silently Known (enter region))
    (leaveSilent : Silently Known leave)
    (framed : before.FramesOf Known)
    (success : inRegion enter part leave before = .ok segments after) :
    ∃ opened closed, before.Silent Known opened ∧ part opened = .ok () closed ∧
      (opened.Passes Known closed →
        closed.Silent Known after ∧ (∀ segment ∈ segments, after.code.Bounds segment) ∧
          Successive before.size (after.code.ranges segments) after.size) := by
  obtain ⟨region, first, opening, rest⟩ := bind_ok.mp success
  obtain ⟨opened, entering, rest⟩ := seq_ok.mp rest
  obtain ⟨closed, lowering, rest⟩ := seq_ok.mp rest
  obtain ⟨last, leaving, closing⟩ := seq_ok.mp rest
  obtain ⟨opens, ascends, -⟩ := Silently.openRegion framed opening
  have enters := enterSilent region _ _ _ entering opens.frames
  refine ⟨opened, closed, opens.trans enters, lowering, fun passes => ?_⟩
  have leaves := leaveSilent _ _ _ leaving passes.frames
  have ascends := (enters.toPasses.trans (passes.trans leaves.toPasses)).ascends region _ ascends
  obtain ⟨closes, bounds, successive⟩ := Silently.closeRegion leaves.frames ascends closing
  exact ⟨leaves.trans closes, bounds, successive⟩

/-! ## The beginning of a handler -/

/-- A step that emits code and registers nothing. -/
def Begins (Known : Stmt → Prop) (step : Emit α) : Prop :=
  ∀ before value after, step before = .ok value after → before.FramesOf Known →
    before.Silent Known after ∧ before.size < after.size

namespace Begins

theorem emit (instruction : Instruction) : Begins Known (emit instruction) := by
  intro before _ after success framed
  have silent : Silently Known (Emit.emit instruction) :=
    .code (.emit (fun _ _ => trivial) (fun _ _ _ => trivial) fun _ _ => trivial)
  refine ⟨silent _ _ _ success framed, ?_⟩
  obtain rfl := emit_ok.mp success
  simp [Emission.size]

/-- Code is emitted first. -/
theorem bindSilent {first : Emit α} {next : α → Emit β} (firstBegins : Begins Known first)
    (nextSilent : ∀ value, Silently Known (next value)) : Begins Known (first >>= next) := by
  intro before value after success framed
  obtain ⟨result, between, firstSuccess, nextSuccess⟩ := bind_ok.mp success
  obtain ⟨silent, begun⟩ := firstBegins _ _ _ firstSuccess framed
  have silent' := nextSilent result _ _ _ nextSuccess silent.frames
  exact ⟨silent.trans silent', begun.trans_le silent'.grows.size_le⟩

/-- Code is emitted next. -/
theorem silentBind {first : Emit α} {next : α → Emit β} (firstSilent : Silently Known first)
    (nextBegins : ∀ value, Begins Known (next value)) : Begins Known (first >>= next) := by
  intro before value after success framed
  obtain ⟨result, between, firstSuccess, nextSuccess⟩ := bind_ok.mp success
  have silent := firstSilent _ _ _ firstSuccess framed
  obtain ⟨silent', begun⟩ := nextBegins result _ _ _ nextSuccess silent.frames
  exact ⟨silent.trans silent', Nat.lt_of_le_of_lt silent.grows.size_le begun⟩

theorem storeDeclared (decl : LocalDecl) (span : Span) :
    Begins Known (storeDeclared decl span) := by
  refine silentBind (.declareLocal decl) fun access => ?_
  cases access with
  | slot slot kind => exact bindSilent (emit _) fun _ => .pure slot
  | captured holder path =>
    refine bindSilent (emit _) fun _ => .bind (.code (.newTemp _)) fun temp => ?_
    exact .seq (.code (.store _ temp)) (.seq (.code (.storeLocal _ _ _)) (.pure temp))

theorem bindException (clause : CatchClause) : Begins Known (bindException clause) := by
  unfold Emit.bindException
  split
  · exact storeDeclared _ _
  · exact silentBind (.code (.newTemp _)) fun temp => bindSilent (emit _) fun _ => .pure temp

end Begins

/-- The handler that catches everything protects the given segments. -/
theorem registers_rethrow
    {handler : Label} {step : Emit Unit} {labeled registered : Emission}
    (framed : before.FramesOf Known)
    (bounds : ∀ segment ∈ segments, before.code.Bounds segment)
    (stepRecords : Records Known Wanted step)
    (labeling : here before = .ok handler labeled)
    (registering : protect segments handler none labeled = .ok () registered)
    (rethrowing : rethrowAfter step registered = .ok () after) :
    ∃ entries sites,
      before.Registers Known after entries sites
        [(before.size, (before.code.ranges segments).map (Code.entryOf before.size none))] ∧
          Covers Wanted sites := by
  obtain ⟨entered, entering, rest⟩ := seq_ok.mp rethrowing
  obtain ⟨left, inside, exiting⟩ := seq_ok.mp rest
  obtain ⟨exception, reserved, reserving, rest⟩ := bind_ok.mp inside
  obtain ⟨stored, storing, rest⟩ := seq_ok.mp rest
  obtain ⟨stepped, stepping, rethrown⟩ := seq_ok.mp rest
  have begins : Begins Known (do enterScope; let exception ← newTemp _; storeRef exception) :=
    .silentBind .enterScope fun _ => .silentBind (.code (.newTemp (.ofClass Library.throwable)))
      fun _ => .emit _
  have begun : (do enterScope; let exception ← newTemp _; storeRef exception) registered =
      .ok () stored :=
    seq_ok.mpr ⟨_, entering, bind_ok.mpr ⟨_, _, reserving, storing⟩⟩
  have framedLater : registered.FramesOf Known := by
    obtain ⟨regions, rfl, -⟩ := protect_ok registering
    exact (Silently.here _ _ _ labeling framed).frames
  have handles := registers_handler framed bounds labeling registering
    (fun framed => (begins _ _ _ begun framed).1) (begins _ _ _ begun framedLater).2
  obtain ⟨entries, sites, registers, covers⟩ := stepRecords _ _ _ stepping handles.frames
  have rethrows : Silently Known (do loadRef exception; op .athrow) :=
    .seq (.code (.load _ exception)) (.code (.op _))
  have leaves := rethrows _ _ _ rethrown registers.frames
  have leaves := leaves.trans (Silently.exitScope _ _ _ exiting leaves.frames)
  exact ⟨_, sites, handles.trans (registers.andSilent leaves), covers⟩

/-! ## Constructs with one handler -/

theorem lowerReleasing_eq
    (id : StmtId) (kind : RegionId → FrameKind) (completes : Bool) (part release : Emit Unit) :
    lowerReleasing id kind completes part release = (do
      let segments ← inRegion (fun region => pushFrame id (kind region)) part popFrame
      let done ← newLabel
      if completes then
        release
        goto done
      protect segments (← here) none
      rethrowAfter release
      mark done) := by
  simp only [lowerReleasing, inRegion, bind_assoc]

namespace Releasing

variable {lower : Lowering} {stmt : Stmt} {index : Nat} {kind : RegionId → FrameKind}
  {completes : Bool} {part release : Emit Unit}

/-- No finally body is copied when the construct is left. -/
theorem frame (releasing : Releasing lower stmt index kind completes part release)
    (region : RegionId) : Frame.Of Known ⟨stmt.id, kind region⟩ := by
  cases releasing <;> exact nofun

theorem silent (releasing : Releasing lower stmt index kind completes part release) :
    Silently Known release := by
  cases releasing with
  | monitor slot => exact .code (.exitMonitor slot)
  | resource left resource right slot spans => exact .code (.disposeResource slot trivial)
  | iterator labels slot => exact .code (.disposeIterator slot trivial)

end Releasing

/-- The one handler of a construct protects what is left of its part. -/
theorem Records.lowerReleasing
    {depth : Nat} {stmt : Stmt} {index : Nat} {kind : RegionId → FrameKind} {completes : Bool}
    {part release : Emit Unit}
    (releasing : Releasing (lowerWithin depth) stmt index kind completes part release)
    (known : Known stmt)
    (partRecords : Records Known Wanted part) :
    Records Known (fun other position => (other = stmt ∧ position = index) ∨ Wanted other position)
      (lowerReleasing stmt.id kind completes part release) := by
  intro before _ after success framed
  have whole := success
  rw [lowerReleasing_eq] at success
  obtain ⟨segments, left, ran, rest⟩ := bind_ok.mp success
  obtain ⟨done, reserved, reserving, rest⟩ := bind_ok.mp rest
  obtain ⟨opened, closed, opens, lowering, closes⟩ :=
    inRegion_ok (fun region => .pushFrame (releasing.frame region)) .popFrame framed ran
  obtain ⟨entries, sites, registers, covers⟩ := partRecords _ _ _ lowering opens.frames
  obtain ⟨closes, bounds, successive⟩ := closes registers.toPasses
  have reserves := Silently.code .newLabel _ _ _ reserving closes.frames
  obtain ⟨waiting, waits, rest⟩ : ∃ waiting, left.Silent Known waiting ∧
      (do protect segments (← here) none; rethrowAfter release; mark done) waiting =
        .ok () after := by
    cases completes with
    | false => exact ⟨_, reserves, rest⟩
    | true =>
      obtain ⟨released, releases, rest⟩ := seq_ok.mp rest
      obtain ⟨gone, going, rest⟩ := seq_ok.mp rest
      have silent := releasing.silent _ _ _ releases reserves.frames
      have silent' := Silently.code (.goto trivial) _ _ _ going silent.frames
      exact ⟨gone, reserves.trans (silent.trans silent'), rest⟩
  obtain ⟨handler, labeled, labeling, rest⟩ := bind_ok.mp rest
  obtain ⟨registered, registering, rest⟩ := seq_ok.mp rest
  obtain ⟨rethrown, rethrowing, marking⟩ := seq_ok.mp rest
  have waitingBounds : ∀ segment ∈ segments, waiting.code.Bounds segment :=
    fun segment member => (bounds segment member).grows waits.grows
  obtain ⟨more, none, handles, -⟩ := registers_rethrow waits.frames waitingBounds
    (ofSilently releasing.silent) labeling registering rethrowing
  have marks := Silently.mark done _ _ _ marking handles.frames
  rw [Code.ranges_eq_of_grows bounds waits.grows] at handles
  let site : GuardSite :=
    { stmt, index
      first := before.size
      last := after.size
      block := { start := before.size, stop := left.size, ranges := left.code.ranges segments }
      clauses := []
      catchAll := some waiting.size }
  have ranges : site.parts.flatMap ProtectedPart.ranges = left.code.ranges segments := by
    simp [GuardSite.parts, GuardSite.guarded, site]
  have registers : before.Registers Known after (entries ++ more) (sites ++ none) site.own := by
    have whole := ((registers.ofSilent opens).andSilent (closes.trans waits)).trans
      (handles.andSilent marks)
    rwa [← ranges] at whole
  have waited : left.size ≤ waiting.size := waits.grows.size_le
  have placed : site.Placed :=
    { begins := Nat.le_refl _
      ends := List.forall_mem_singleton.mpr (registers.fits _ List.mem_cons_self).2.1
      behind := List.forall_mem_singleton.mpr waited
      ordered := List.pairwise_singleton _ _
      successive := List.forall_mem_singleton.mpr successive
      together := by
        refine List.forall_mem_singleton.mpr ?_
        rw [GuardSite.rangesOf, if_pos rfl, ranges]
        exact successive.mono waited
      guarded := by simp [GuardSite.guarded, site] }
  have grows : left.code.Grows after.code := waits.grows.trans (handles.grows.trans marks.grows)
  have renders : site.Renders (lowerWithin depth) after.code := by
    refine .releasing releasing ⟨before, after, whole, rfl, rfl, .refl _⟩
      ⟨before, segments, left, ran, rfl, rfl, grows,
        Code.ranges_eq_of_grows bounds grows, ?_⟩ rfl rfl
    exact fun segment member => (bounds segment member).grows grows
  refine ⟨_, _, registers.close known renders placed rfl rfl, ?_⟩
  rintro other position (⟨rfl, rfl⟩ | wanted)
  · exact ⟨site, List.mem_cons_self, rfl, rfl⟩
  · refine covers.mono (List.Subset.trans ?_ (List.subset_cons_self _ _)) other position wanted
    exact List.subset_append_left _ _

/-! ## Try statements -/

namespace Records

variable {lower : Lowering}

/-- A copy of a finally body registers what the statement does. -/
theorem inlineFinalizer {finalizer : Stmt} (records : Records Known Wanted (lower finalizer)) :
    Records Known Wanted (inlineFinalizer lower finalizer) := by
  refine silentSeq (.modifyMethod fun _ => ⟨rfl, rfl, rfl⟩) ?_
  refine silentSeq (.modifyMethod fun _ => ⟨rfl, rfl, rfl⟩) ?_
  refine seqSilent records (.seq (.modifyMethod fun _ => ⟨rfl, rfl, rfl⟩) ?_)
  exact .modifyMethod fun _ => ⟨rfl, rfl, rfl⟩

theorem finishPart {finalizer : Option Stmt}
    (finalizerRecords : ∀ found ∈ finalizer, Records Known (Emitted []) (lower found))
    (part : Stmt) (done : Label) :
    Records Known (Emitted []) (finishPart lower part finalizer done) := by
  refine ite (fun _ => seqSilent ?_ (.code (.goto trivial))) fun _ => ofSilently (.pure ())
  cases finalizer with
  | none => exact ofSilently (.pure ())
  | some finalizer => exact inlineFinalizer (finalizerRecords finalizer rfl)

end Records

/-- A handler begins with the body of its clause. -/
theorem lowerCatchBody_ok
    {lower : Lowering}
    (framed : before.FramesOf Known)
    (bodyRecords : Records Known Wanted (lower clause.body))
    (success : lowerCatchBody lower clause before = .ok () after) :
    ∃ begun, before.Silent Known begun ∧ before.size < begun.size ∧
      ∃ entries sites, begun.Registers Known after entries sites [] ∧ Covers Wanted sites := by
  obtain ⟨entered, entering, rest⟩ := seq_ok.mp success
  obtain ⟨left, inside, exiting⟩ := seq_ok.mp rest
  obtain ⟨slot, begun, binding, rest⟩ := bind_ok.mp inside
  have begins : Begins Known (do enterScope; bindException clause) :=
    .silentBind .enterScope fun _ => .bindException clause
  obtain ⟨silent, size⟩ := begins _ _ _ (seq_ok.mpr ⟨_, entering, binding⟩) framed
  have bodyRecords : Records Known Wanted (do pushCatch slot; lower clause.body; popCatch) :=
    .silentSeq (.modifyMethod fun _ => ⟨rfl, rfl, rfl⟩)
      (.seqSilent bodyRecords (.modifyMethod fun _ => ⟨rfl, rfl, rfl⟩))
  obtain ⟨entries, sites, registers, covers⟩ := bodyRecords _ _ _ rest silent.frames
  have exits := Silently.exitScope _ _ _ exiting registers.frames
  exact ⟨begun, silent, size, entries, sites, registers.andSilent exits, covers⟩

end Emit

/--
Catch clauses stand behind one another from a position on, each with the segments
that guard its body.
-/
structure Code.Catches
    (code : Code)
    (first : Nat)
    (segments : List (Label × Label))
    (clauses : List CatchSite) :
    Prop where
  bounds : ∀ segment ∈ segments, code.Bounds segment
  ranges : code.ranges segments =
    (clauses.flatMap fun clause => clause.guarded.toList).flatMap ProtectedPart.ranges
  together : Successive first (code.ranges segments) code.size
  ordered : (clauses.map CatchSite.handler).Pairwise (· < ·)
  handlers : ∀ clause ∈ clauses, first ≤ clause.handler ∧ clause.handler < code.size
  parts : ∀ clause ∈ clauses, ∀ part ∈ clause.guarded,
    Successive part.start part.ranges part.stop ∧ first ≤ part.start ∧ part.stop ≤ code.size

namespace Code.Catches

variable {before after : Code} {first : Nat} {segments more : List (Label × Label)}
  {clauses others : List CatchSite}

/-- There are no clauses. -/
theorem nil (begun : first ≤ after.size) : after.Catches first [] [] where
  bounds := by simp
  ranges := rfl
  together := begun
  ordered := .nil
  handlers := by simp
  parts := by simp

/-- Clauses one after the other catch what each of them does. -/
theorem trans (earlier : before.Catches first segments clauses) (grows : before.Grows after)
    (later : after.Catches before.size more others) :
    after.Catches first (segments ++ more) (clauses ++ others) := by
  have sizes := grows.size_le
  have begun := earlier.together.le
  have ranges := Code.ranges_eq_of_grows earlier.bounds grows
  refine
    { bounds := ?_
      ranges := ?_
      together := ?_
      ordered := ?_
      handlers := ?_
      parts := ?_ }
  · intro segment member
    obtain member | member := List.mem_append.mp member
    · exact (earlier.bounds segment member).grows grows
    · exact later.bounds segment member
  · rw [Code.ranges_append, ranges, earlier.ranges, later.ranges, List.flatMap_append,
      List.flatMap_append]
  · rw [Code.ranges_append, ranges]
    exact earlier.together.append later.together
  · rw [List.map_append]
    refine List.pairwise_append.mpr ⟨earlier.ordered, later.ordered, ?_⟩
    intro handler member handler' member'
    obtain ⟨clause, listed, rfl⟩ := List.mem_map.mp member
    obtain ⟨clause', listed', rfl⟩ := List.mem_map.mp member'
    exact (earlier.handlers clause listed).2.trans_le (later.handlers clause' listed').1
  · intro clause member
    obtain member | member := List.mem_append.mp member
    · have := earlier.handlers clause member
      omega
    · have := later.handlers clause member
      omega
  · intro clause member part found
    obtain member | member := List.mem_append.mp member
    · obtain ⟨successive, above, below⟩ := earlier.parts clause member part found
      exact ⟨successive, above, by omega⟩
    · obtain ⟨successive, above, below⟩ := later.parts clause member part found
      exact ⟨successive, by omega, below⟩

/-- More code follows. -/
theorem grows (catches : before.Catches first segments clauses) (grows : before.Grows after) :
    after.Catches first segments clauses := by
  have whole := catches.trans grows (.nil grows.size_le)
  simpa only [List.append_nil] using whole

end Code.Catches

/-- The parts of a try statement stand behind one another. -/
theorem GuardSite.Placed.ofCatches
    {site : GuardSite} {code : Code} {first : Nat}
    (begins : site.first ≤ site.block.start)
    (block : Successive site.block.start site.block.ranges site.block.stop)
    (behind : site.block.stop ≤ first)
    (catches : code.Catches first segments site.clauses)
    (ends : code.size ≤ site.last)
    (last : ∀ handler ∈ site.catchAll, handler = code.size ∧ handler < site.last) :
    site.Placed := by
  have begun := catches.together.le
  have cases : ∀ handler ∈ site.handlers, (first ≤ handler ∧ handler < code.size) ∨
      (handler = code.size ∧ handler < site.last) := by
    intro handler member
    obtain member | member := List.mem_append.mp member
    · obtain ⟨clause, listed, rfl⟩ := List.mem_map.mp member
      exact .inl (catches.handlers clause listed)
    · exact .inr (last handler (Option.mem_toList.mp member))
  have guarded : ∀ part ∈ site.guarded, Successive part.start part.ranges part.stop ∧
      first ≤ part.start ∧ part.stop ≤ code.size := by
    intro part member
    obtain ⟨clause, listed, found⟩ := List.mem_flatMap.mp member
    exact catches.parts clause listed part (Option.mem_toList.mp found)
  refine
    { begins := begins
      ends := fun handler member => ?_
      behind := fun handler member => ?_
      ordered := ?_
      successive := List.forall_mem_cons.mpr ⟨block, fun part member => (guarded part member).1⟩
      together := fun handler member => ?_
      guarded := fun part member => ⟨?_, fun handler found => ?_⟩ }
  · have := cases handler member
    omega
  · have := cases handler member
    omega
  · refine List.pairwise_append.mpr ⟨catches.ordered, ?_, ?_⟩
    · cases site.catchAll with
      | none => exact .nil
      | some handler => exact List.pairwise_singleton _ _
    · intro handler member final found
      obtain ⟨clause, listed, rfl⟩ := List.mem_map.mp member
      obtain ⟨rfl, -⟩ := last final (Option.mem_toList.mp found)
      exact (catches.handlers clause listed).2
  · unfold GuardSite.rangesOf
    split
    · next found =>
      obtain ⟨rfl, -⟩ := last handler found
      rw [GuardSite.parts, List.flatMap_cons]
      have together := catches.together
      rw [catches.ranges] at together
      exact (block.mono behind).append together
    · have := cases handler member
      exact block.mono (by omega)
  · exact behind.trans (guarded part member).2.1
  · obtain ⟨rfl, -⟩ := last handler found
    exact (guarded part member).2.2

namespace Emit

variable {Known : Stmt → Prop} {Wanted : Stmt → Nat → Prop} {lower : Lowering}
variable {finalizer : Option Stmt} {id : StmtId} {before after : Emission}
variable {segments : List (Label × Label)}

/-- The body of a catch clause at the beginning of its handler. -/
theorem inFinalized_ok
    {guarded : List (Label × Label)}
    (framed : before.FramesOf Known)
    (finalizerKnown : ∀ found ∈ finalizer, Known found)
    (bodyRecords : Records Known Wanted (lower clause.body))
    (success : inFinalized id finalizer (lowerCatchBody lower clause) before = .ok guarded after) :
    (∃ begun, before.Silent Known begun ∧ before.size < begun.size ∧
      ∃ entries sites, begun.Registers Known after entries sites [] ∧ Covers Wanted sites) ∧
    ∃ site : CatchSite, site.handler = before.size ∧
      site.Renders lower after.code id finalizer clause ∧
        after.code.Catches before.size guarded [site] := by
  let type := clause.type.map Ty.internalName
  cases finalizer with
  | none =>
    obtain ⟨left, caught, rest⟩ := seq_ok.mp success
    obtain ⟨rfl, rfl⟩ := pure_ok.mp rest
    obtain ⟨begun, silent, begins, entries, sites, registers, covers⟩ :=
      lowerCatchBody_ok framed bodyRecords caught
    have sizes : begun.size ≤ left.size := registers.grows.size_le
    refine ⟨⟨begun, silent, begins, entries, sites, registers, covers⟩,
      ⟨before.size, type, none⟩, rfl, ⟨rfl, rfl, by simp⟩, ?_⟩
    exact
      { bounds := by simp
        ranges := rfl
        together := (silent.grows.trans registers.grows).size_le
        ordered := List.pairwise_singleton _ _
        handlers := List.forall_mem_singleton.mpr ⟨Nat.le_refl _, begins.trans_le sizes⟩
        parts := by simp }
  | some finalizer =>
    have frame : ∀ region, Frame.Of Known ⟨id, .finalized finalizer region⟩ := by
      rintro _ _ _ ⟨⟩
      exact finalizerKnown finalizer rfl
    obtain ⟨opened, closed, opens, caught, closes⟩ :=
      inRegion_ok (fun region => .pushFrame (frame region)) .popFrame framed success
    obtain ⟨begun, silent, begins, entries, sites, registers, covers⟩ :=
      lowerCatchBody_ok opens.frames bodyRecords caught
    obtain ⟨closes, bounds, successive⟩ := closes (silent.toPasses.trans registers.toPasses)
    have begins : before.size < begun.size := Nat.lt_of_le_of_lt opens.grows.size_le begins
    have sizes : begun.size ≤ after.size := (registers.grows.trans closes.grows).size_le
    let part : ProtectedPart :=
      { start := before.size, stop := after.size, ranges := after.code.ranges guarded }
    refine ⟨⟨begun, opens.trans silent, begins, entries, sites, registers.andSilent closes, covers⟩,
      ⟨before.size, type, some part⟩, rfl, ⟨rfl, rfl, ?_⟩, ?_⟩
    · rintro _ ⟨⟩
      exact ⟨before, guarded, after, success, rfl, rfl, .refl _, rfl, bounds⟩
    · exact
        { bounds := bounds
          ranges := by simp [part]
          together := successive
          ordered := List.pairwise_singleton _ _
          handlers := List.forall_mem_singleton.mpr ⟨Nat.le_refl _, begins.trans_le sizes⟩
          parts := by
            refine List.forall_mem_singleton.mpr ?_
            rintro _ ⟨⟩
            exact ⟨successive, Nat.le_refl _, Nat.le_refl _⟩ }

/-- The segments of the block are registered for the handler of a catch clause. -/
theorem registers_lowerCatch
    {done : Label} {guarded : List (Label × Label)}
    (framed : before.FramesOf Known)
    (bounds : ∀ segment ∈ segments, before.code.Bounds segment)
    (finalizerKnown : ∀ found ∈ finalizer, Known found)
    (finalizerRecords : ∀ found ∈ finalizer, Records Known (Emitted []) (lower found))
    (bodyRecords : Records Known Wanted (lower clause.body))
    (success : lowerCatch lower id finalizer done segments clause before = .ok guarded after) :
    ∃ entries sites site,
      before.Registers Known after entries sites
        [CatchSite.own (before.code.ranges segments) site] ∧
      Covers Wanted sites ∧
      site.Renders lower after.code id finalizer clause ∧
        after.code.Catches before.size guarded [site] := by
  obtain ⟨handler, labeled, labeling, rest⟩ := bind_ok.mp success
  obtain ⟨registered, registering, rest⟩ := seq_ok.mp rest
  obtain ⟨_, left, lowering, rest⟩ := bind_ok.mp rest
  obtain ⟨finished, finishing, rest⟩ := seq_ok.mp rest
  obtain ⟨rfl, rfl⟩ := pure_ok.mp rest
  obtain ⟨framedLater, size⟩ :
      registered.FramesOf Known ∧ registered.size = before.size := by
    obtain ⟨regions, rfl, -⟩ := protect_ok registering
    exact ⟨(Silently.here _ _ _ labeling framed).frames, (Silently.position?_of_here labeling).2⟩
  obtain ⟨⟨begun, silent, begins, entries, sites, registers, covers⟩, site, position, renders,
    catches⟩ := inFinalized_ok framedLater finalizerKnown bodyRecords lowering
  have handles := registers_handler framed bounds labeling registering (fun _ => silent) begins
  obtain ⟨more, others, finishes, -⟩ :=
    Records.finishPart finalizerRecords clause.body done _ _ _ finishing registers.frames
  have own : CatchSite.own (before.code.ranges segments) site = (before.size,
      (before.code.ranges segments).map
        (Code.entryOf before.size (clause.type.map Ty.internalName))) := by
    rw [CatchSite.own, position, size, renders.catchType]
  have whole := handles.trans (registers.trans finishes)
  simp only [List.append_nil, ← own] at whole
  refine ⟨_, sites ++ others, site, whole, ?_, renders.grows finishes.grows, ?_⟩
  · exact covers.mono (List.subset_append_left _ _)
  · rw [← size]
    exact catches.grows finishes.grows

/-- All catch clauses get the segments of the block, one after the other. -/
theorem registers_lowerCatches
    {done : Label} {guarded : List (List (Label × Label))} {catches : List CatchClause}
    (framed : before.FramesOf Known)
    (bounds : ∀ segment ∈ segments, before.code.Bounds segment)
    (finalizerKnown : ∀ found ∈ finalizer, Known found)
    (finalizerRecords : ∀ found ∈ finalizer, Records Known (Emitted []) (lower found))
    (bodyRecords : ∀ clause ∈ catches, Records Known (Emitted [clause.body]) (lower clause.body))
    (success : catches.mapM (lowerCatch lower id finalizer done segments) before =
      .ok guarded after) :
    ∃ entries sites clauses,
      before.Registers Known after entries sites
        (clauses.map (CatchSite.own (before.code.ranges segments))) ∧
      Covers (Emitted (catches.map CatchClause.body)) sites ∧
      List.Forall₂ (CatchSite.Renders lower after.code id finalizer) catches clauses ∧
      after.code.Catches before.size guarded.flatten clauses := by
  induction catches generalizing before guarded with
  | nil =>
    obtain ⟨rfl, rfl⟩ := pure_ok.mp success
    exact ⟨[], [], [], (Emission.Silent.refl framed).registers, .none, .nil,
      .nil (Nat.le_refl _)⟩
  | cons clause catches ih =>
    rw [List.forall_mem_cons] at bodyRecords
    rw [List.mapM_cons] at success
    obtain ⟨own, between, caught, rest⟩ := bind_ok.mp success
    obtain ⟨others, _, lowering, ended⟩ := bind_ok.mp rest
    obtain ⟨rfl, rfl⟩ := pure_ok.mp ended
    obtain ⟨entries, sites, site, registers, covers, renders, stands⟩ :=
      registers_lowerCatch framed bounds finalizerKnown finalizerRecords bodyRecords.1 caught
    have betweenBounds : ∀ segment ∈ segments, between.code.Bounds segment :=
      fun segment member => (bounds segment member).grows registers.grows
    obtain ⟨more, sites', clauses, registers', covers', renders', stands'⟩ :=
      ih registers.frames betweenBounds bodyRecords.2 lowering
    rw [Code.ranges_eq_of_grows bounds registers.grows] at registers'
    refine ⟨_, _, site :: clauses, registers.trans registers', ?_,
      .cons (renders.grows registers'.grows) renders', stands.trans registers'.grows stands'⟩
    have first : Covers (Emitted [clause.body]) (sites ++ sites') :=
      covers.mono (List.subset_append_left _ _)
    exact first.emitted_append (covers'.mono (List.subset_append_right _ _))

theorem lowerGuardBody_eq (id : StmtId) (body : Stmt) (finalizer : Option Stmt) :
    lowerGuardBody lower id body finalizer =
      inRegion (fun region => finalizer.forM fun found => pushFrame id (.finalized found region))
        (lower body) (finalizer.forM fun _ => popFrame) := by
  cases finalizer with
  | none => rfl
  | some finalizer => rfl

/-- The handler of a finally body, if there is one, protects the block and the catch bodies. -/
theorem registers_finalizer
    (framed : before.FramesOf Known)
    (bounds : ∀ segment ∈ segments, before.code.Bounds segment)
    (finalizerRecords : ∀ found ∈ finalizer, Records Known (Emitted [found]) (lower found))
    (success : (finalizer.forM fun found => do
      protect segments (← here) none
      rethrowAfter (inlineFinalizer lower found)) before = .ok () after) :
    ∃ entries sites,
      before.Registers Known after entries sites (finalizer.toList.map fun _ =>
        (before.size, (before.code.ranges segments).map (Code.entryOf before.size none))) ∧
      Covers (Emitted finalizer.toList) sites := by
  cases finalizer with
  | none =>
    obtain ⟨-, rfl⟩ := pure_ok.mp success
    exact ⟨[], [], (Emission.Silent.refl framed).registers, .none⟩
  | some finalizer =>
    obtain ⟨handler, labeled, labeling, rest⟩ := bind_ok.mp success
    obtain ⟨registered, registering, rethrowing⟩ := seq_ok.mp rest
    exact registers_rethrow framed bounds (.inlineFinalizer (finalizerRecords finalizer rfl))
      labeling registering rethrowing

/-- The frame of a finally body is pushed around its block, if there is one. -/
theorem pushFinalized_silent
    (finalizerKnown : ∀ found ∈ finalizer, Known found) (region : RegionId) :
    Silently Known (finalizer.forM fun found => pushFrame id (.finalized found region)) := by
  cases finalizer with
  | none => exact .pure ()
  | some finalizer =>
    refine .pushFrame ?_
    rintro _ _ ⟨⟩
    exact finalizerKnown finalizer rfl

theorem popFinalized_silent :
    Silently Known (finalizer.forM fun _ => popFrame) := by
  cases finalizer with
  | none => exact .pure ()
  | some finalizer => exact .popFrame

/-- A try statement registers its block for its catch clauses and all parts for its finally body. -/
theorem Records.lowerGuard
    {depth : Nat} {tag : StmtTag} {body : Stmt} {catches : List CatchClause}
    (known : Known (.guard tag body catches finalizer))
    (finalizerKnown : ∀ found ∈ finalizer, Known found)
    (bodyRecords : Records Known (Emitted [body]) (lowerWithin depth body))
    (catchesRecord : ∀ clause ∈ catches,
      Records Known (Emitted [clause.body]) (lowerWithin depth clause.body))
    (finalizerRecords : ∀ found ∈ finalizer,
      Records Known (Emitted [found]) (lowerWithin depth found)) :
    Records Known
      (fun other position => (other = .guard tag body catches finalizer ∧ position = 0) ∨
        Emitted (body :: catches.map CatchClause.body ++ finalizer.toList) other position)
      (lowerGuard (lowerWithin depth) tag.id body catches finalizer) := by
  have copies : ∀ found ∈ finalizer, Records Known (Emitted []) (lowerWithin depth found) :=
    fun found member => (finalizerRecords found member).mono (by simp [Emitted])
  intro before _ after success framed
  have whole := success
  obtain ⟨done, reserved, reserving, rest⟩ := bind_ok.mp success
  obtain ⟨segments, left, ran, rest⟩ := bind_ok.mp rest
  obtain ⟨finished, finishing, rest⟩ := seq_ok.mp rest
  obtain ⟨guarded, caught, catching, rest⟩ := bind_ok.mp rest
  obtain ⟨rethrown, rethrowing, marking⟩ := seq_ok.mp rest
  -- The block.
  have reserves := Silently.code .newLabel _ _ _ reserving framed
  have block := ran
  rw [lowerGuardBody_eq] at block
  obtain ⟨opened, closed, opens, lowering, closes⟩ := inRegion_ok
    (pushFinalized_silent finalizerKnown) popFinalized_silent reserves.frames block
  obtain ⟨entries, sites, registers, covers⟩ := bodyRecords _ _ _ lowering opens.frames
  obtain ⟨closes, bounds, successive⟩ := closes registers.toPasses
  have registers := (registers.ofSilent (reserves.trans opens)).andSilent closes
  -- The catch clauses.
  obtain ⟨entries', sites', finishes, -⟩ :=
    Records.finishPart copies body done _ _ _ finishing closes.frames
  have finishedBounds : ∀ segment ∈ segments, finished.code.Bounds segment :=
    fun segment member => (bounds segment member).grows finishes.grows
  obtain ⟨more, inner, clauses, handles, covers', renders, stands⟩ := registers_lowerCatches
    finishes.frames finishedBounds finalizerKnown copies catchesRecord catching
  rw [Code.ranges_eq_of_grows bounds finishes.grows] at handles
  -- The handler of the finally body.
  have caughtGrows := finishes.grows.trans handles.grows
  have caughtBounds : ∀ segment ∈ segments ++ guarded.flatten, caught.code.Bounds segment := by
    intro segment member
    obtain member | member := List.mem_append.mp member
    · exact (bounds segment member).grows caughtGrows
    · exact stands.bounds segment member
  obtain ⟨more', inner', rethrows, covers''⟩ :=
    registers_finalizer handles.frames caughtBounds finalizerRecords rethrowing
  rw [Code.ranges_append, Code.ranges_eq_of_grows bounds caughtGrows, stands.ranges] at rethrows
  have marks := Silently.mark done _ _ _ marking rethrows.frames
  let site : GuardSite :=
    { stmt := .guard tag body catches finalizer
      index := 0
      first := before.size
      last := after.size
      block := { start := reserved.size, stop := left.size, ranges := left.code.ranges segments }
      clauses
      catchAll := finalizer.map fun _ => caught.size }
  have registers : before.Registers Known after (entries ++ (entries' ++ (more ++ more')))
      (sites ++ (sites' ++ (inner ++ inner'))) site.own := by
    have whole := registers.trans (finishes.trans (handles.trans (rethrows.andSilent marks)))
    have own : site.own = clauses.map (CatchSite.own (left.code.ranges segments)) ++
        finalizer.toList.map fun _ => (caught.size, (left.code.ranges segments ++
          (clauses.flatMap fun clause => clause.guarded.toList).flatMap ProtectedPart.ranges).map
            (Code.entryOf caught.size none)) := by
      cases finalizer <;> rfl
    rw [own]
    exact whole
  have last : ∀ handler ∈ site.catchAll, handler = caught.size ∧ handler < site.last := by
    intro handler member
    obtain ⟨_, -, rfl⟩ := Option.map_eq_some_iff.mp member
    exact ⟨rfl, (registers.fits _ (GuardSite.own_mem_of_mem_catchAll member)).2.1⟩
  have ending := rethrows.grows.trans marks.grows
  have placed : site.Placed :=
    .ofCatches reserves.grows.size_le successive finishes.grows.size_le stands ending.size_le last
  have grows : left.code.Grows after.code := caughtGrows.trans ending
  have renders : site.Renders (lowerWithin depth) after.code := by
    refine .guard rfl rfl ⟨before, after, whole, rfl, rfl, .refl _⟩
      ⟨reserved, segments, left, ran, rfl, rfl, grows, Code.ranges_eq_of_grows bounds grows, ?_⟩
      (renders.imp fun _ _ renders => renders.grows ending) (by simp [site])
    exact fun segment member => (bounds segment member).grows grows
  refine ⟨_, _, registers.close known renders placed rfl rfl, ?_⟩
  have all : Covers (Emitted (body :: catches.map CatchClause.body ++ finalizer.toList))
      (sites ++ (sites' ++ (inner ++ inner'))) := by
    have first : Covers (Emitted [body]) (sites ++ (sites' ++ (inner ++ inner'))) :=
      covers.mono (List.subset_append_left _ _)
    refine (first.emitted_append (covers'.mono ?_)).emitted_append (covers''.mono ?_)
    · intro site member
      simp [member]
    · intro site member
      simp [member]
  rintro other position (⟨rfl, rfl⟩ | wanted)
  · exact ⟨site, List.mem_cons_self, rfl, rfl⟩
  · exact all.mono (List.subset_cons_self _ _) other position wanted

end Emit
end StackCode
