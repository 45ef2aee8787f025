import StackCode.Proofs.GuardSites

/-!
# Steps that register entries

A step of lowering registers the entries of the emissions that lie in it.  Most
steps register nothing; what they leave alone is said once for all of them, and
what follows is how steps are put together and how a handler begins.
-/

namespace StackCode
namespace Emit

variable {before : Emission}
variable {stmts : List Stmt} {condition : Prop} {segments : List (Label × Label)}

/-- A step that registers nothing. -/
def Silently (Known : Stmt → Prop) (step : Emit α) : Prop :=
  ∀ before value after, step before = .ok value after → before.FramesOf Known →
    before.Silent Known after

/-- The `Wanted` constructs of statements are among the given emissions. -/
def Covers (Wanted : Stmt → Nat → Prop) (sites : List GuardSite) : Prop :=
  ∀ stmt index, Wanted stmt index → ∃ site ∈ sites, site.stmt = stmt ∧ site.index = index

/--
A step that registers the entries of the emissions that lie in it, among them those
of the `Wanted` constructs.
-/
def Records (Known : Stmt → Prop) (Wanted : Stmt → Nat → Prop) (step : Emit α) : Prop :=
  ∀ before value after, step before = .ok value after → before.FramesOf Known →
    ∃ entries sites, before.Registers Known after entries sites [] ∧ Covers Wanted sites

/-- The constructs that lowering the given statements emits. -/
def Emitted (stmts : List Stmt) (inner : Stmt) (index : Nat) : Prop :=
  (∃ stmt ∈ stmts, stmt.Emits inner) ∧ index < inner.guardCount

namespace Covers

variable {Wanted Other : Stmt → Nat → Prop} {sites others : List GuardSite}

theorem mono (covers : Covers Wanted sites) (more : sites ⊆ others) : Covers Wanted others := by
  intro stmt index wanted
  obtain ⟨site, member, same⟩ := covers stmt index wanted
  exact ⟨site, more member, same⟩

/-- No construct is emitted by no statement. -/
theorem none : Covers (Emitted []) sites := by
  rintro stmt index ⟨⟨_, member, -⟩, -⟩
  exact (List.not_mem_nil member).elim

theorem emitted_append {more : List Stmt} (covers : Covers (Emitted stmts) sites)
    (covers' : Covers (Emitted more) sites) : Covers (Emitted (stmts ++ more)) sites := by
  rintro stmt index ⟨⟨outer, member, emits⟩, below⟩
  obtain member | member := List.mem_append.mp member
  · exact covers stmt index ⟨⟨outer, member, emits⟩, below⟩
  · exact covers' stmt index ⟨⟨outer, member, emits⟩, below⟩

end Covers

variable {Known : Stmt → Prop} {Wanted : Stmt → Nat → Prop}

/-! ## Steps that register nothing -/

/-- A plain step registers no range. -/
theorem PlainTo.regions_eq
    {writable : FieldRef → Prop} {allowed : Label → Prop} {bound : List Label}
    {refs : α → List Reference} {step : Emit α}
    (plain : PlainTo writable .any allowed bound refs step)
    {after : Emission} {value : α}
    (stores : before.method.StoresTo writable)
    (success : step before = .ok value after) :
    after.code.regions = before.code.regions := by
  let Related (first second : Emission) : Prop := second.code.regions = first.code.regions
  have refl : ∀ state, Related state state := fun _ => rfl
  have trans : ∀ {first second third}, Related first second → Related second third →
      Related first third := fun same again => again.trans same
  refine (related_and_method_eq refl trans (fun change => ?_) plain rfl stores success).1
  cases change with
  | allocate name type => exact Code.regions_allocate _ _ _
  | _ => exact rfl

namespace Silently

variable {before after : Emission} {step : Emit α} {region : RegionId}

/-- The code grows, and nothing else is changed that matters to protected regions. -/
theorem ofSame
    (framed : before.FramesOf Known)
    (grows : before.code.Grows after.code)
    (table : after.code.regions = before.code.regions)
    (regions : after.method.regions = before.method.regions)
    (frames : after.method.frames = before.method.frames) :
    before.Silent Known after where
  grows := grows
  ascends := by
    rintro region first ⟨found, known, ascends⟩
    exact ⟨found, by rw [regions, known], ascends.grows grows⟩
  frames := by
    rw [Emission.FramesOf, frames]
    exact framed
  regions := table

theorem pure (value : α) : Silently Known (pure value : Emit α) := by
  intro before _ after success framed
  obtain ⟨-, rfl⟩ := pure_ok.mp success
  exact .refl framed

theorem method : Silently Known method := by
  intro before _ after success framed
  obtain ⟨-, rfl⟩ := method_ok.mp success
  exact .refl framed

theorem bind {first : Emit α} {next : α → Emit β} (firstSilent : Silently Known first)
    (nextSilent : ∀ value, Silently Known (next value)) : Silently Known (first >>= next) := by
  intro before value after success framed
  obtain ⟨result, between, firstSuccess, nextSuccess⟩ := bind_ok.mp success
  have silent := firstSilent _ _ _ firstSuccess framed
  exact silent.trans (nextSilent result _ _ _ nextSuccess silent.frames)

theorem seq {first : Emit Unit} {next : Unit → Emit β} (firstSilent : Silently Known first)
    (nextSilent : Silently Known (next ())) : Silently Known (first >>= next) :=
  bind firstSilent fun _ => nextSilent

theorem ite [Decidable condition] {other : Emit α}
    (stepSilent : Silently Known step) (otherSilent : Silently Known other) :
    Silently Known (if condition then step else other) := by
  split
  · exact stepSilent
  · exact otherSilent

theorem plain {labels : List Label} (stepPlain : Plainly labels step) : Silently Known step := by
  intro before value after success framed
  have stores := before.method.storesTo_all
  have unchanged := stepPlain.method_eq stores success
  refine ofSame framed (stepPlain.evolves stores success).code
    (stepPlain.regions_eq stores success) ?_ ?_
  · rw [unchanged]
  · rw [unchanged]

/-- Code is emitted in which only labels of its own are bound. -/
theorem code (stepPlain : Plainly [] step) : Silently Known step := plain stepPlain

/-- A label that was handed out before is bound. -/
theorem mark (label : Label) : Silently Known (mark label) := plain (.markOne trivial)

/-- The method is changed, but for its code, its regions and its frames. -/
theorem modifyMethod {change : MethodContext → MethodContext}
    (same : ∀ method, (change method).code = method.code ∧
      (change method).regions = method.regions ∧ (change method).frames = method.frames) :
    Silently Known (modifyMethod change) := by
  intro before _ after success framed
  obtain rfl := modifyMethod_ok.mp success
  obtain ⟨code, regions, frames⟩ := same before.method
  have kept : (before.mapMethod change).code = before.code := code
  refine ofSame framed ?_ ?_ regions frames
  · rw [kept]
    exact .refl _
  · rw [kept]

theorem here : Silently Known here := by
  intro before _ after success framed
  obtain ⟨-, rfl⟩ := here_ok.mp success
  exact ofSame framed (.here _) rfl rfl rfl

theorem labelsOf (id : StmtId) : Silently Known (labelsOf id) := by
  intro before _ after success framed
  obtain ⟨-, rfl⟩ | ⟨-, -, rfl⟩ := labelsOf_cases success
  · exact .refl framed
  · refine ofSame framed ?_ rfl rfl rfl
    exact .trans (.newLabel before.code) (.trans (.newLabel _) (.newLabel _))

theorem newLabels (count : Nat) : Silently Known (newLabels count) := by
  induction count with
  | zero => exact pure _
  | succ count ih =>
    exact bind (code .newLabel) fun _ => bind ih fun _ => pure _

theorem enterScope : Silently Known enterScope := by
  intro before _ after success framed
  obtain rfl := enterScope_ok.mp success
  exact ofSame framed (.of_eq rfl rfl rfl) rfl rfl rfl

theorem exitScope : Silently Known exitScope := by
  intro before _ after success framed
  obtain ⟨scope, outer, -, ⟨-, rfl⟩ | ⟨_, _, _, -, -, rfl⟩⟩ := exitScope_cases success
  · exact ofSame framed (.closeScope _ _ _) rfl rfl rfl
  · exact ofSame framed (.closeScope _ _ _) rfl rfl rfl

theorem declareLocal (decl : LocalDecl) : Silently Known (declareLocal decl) := by
  intro before _ after success framed
  obtain ⟨_, _, -, -, rfl⟩ | ⟨-, declared⟩ := declareLocal_cases success
  · exact .refl framed
  · obtain ⟨-, rfl⟩ := declareSlot_ok declared
    refine ofSame framed (Code.grows_allocate _ _ _) ?_ rfl rfl
    exact Code.regions_allocate _ _ _

theorem newSpillTemp (type : Ty) (spans : Bool) : Silently Known (newSpillTemp type spans) := by
  refine bind (code (.newTemp type)) fun slot => bind .method fun method => ?_
  split
  · refine seq (modifyMethod fun _ => ⟨rfl, rfl, rfl⟩) ?_
    exact seq (modifyMethod fun _ => ⟨rfl, rfl, rfl⟩) (pure slot)
  · exact pure slot

theorem storeDeclared (decl : LocalDecl) (span : Span) :
    Silently Known (storeDeclared decl span) := by
  refine bind (declareLocal decl) fun access => ?_
  cases access with
  | slot slot kind => exact seq (code (.store kind slot)) (pure slot)
  | captured holder path =>
    refine seq (code (.op _)) (bind (code (.newTemp _)) fun temp => ?_)
    exact seq (code (.store _ temp)) (seq (code (.storeLocal _ _ _)) (pure temp))

/-! ### Frames -/

theorem frames {change : List Frame → List Frame}
    (known : ∀ frames : List Frame, (∀ frame ∈ frames, frame.Of Known) →
      ∀ frame ∈ change frames, frame.Of Known) :
    Silently Known
      (Emit.modifyMethod fun method => { method with frames := change method.frames }) := by
  intro before _ after success framed
  obtain rfl := modifyMethod_ok.mp success
  exact
    { grows := .refl _
      ascends := fun _ _ ascends => ascends
      frames := known _ framed
      regions := rfl }

theorem pushFrame {stmt : StmtId} {kind : FrameKind} (known : Frame.Of Known ⟨stmt, kind⟩) :
    Silently Known (pushFrame stmt kind) :=
  frames fun _ framed => List.forall_mem_cons.mpr ⟨known, framed⟩

theorem popFrame : Silently Known popFrame :=
  frames fun _ framed frame member => framed frame (List.mem_of_mem_tail member)

/-! ### Regions -/

/-- Changing a region registers nothing as long as it ascends. -/
theorem modifyRegion {change : OpenRegion → OpenRegion}
    (changes : ∀ found first, found.Ascends before.code first →
      (change found).Ascends before.code first)
    (framed : before.FramesOf Known)
    (success : Emit.modifyRegion region change before = .ok () after) :
    before.Silent Known after ∧ after.code = before.code ∧
      ∃ found, before.method.regions[region]? = some found ∧
        after.method.regions[region]? = some (change found) := by
  have rest := method_bind_eq.mp success
  cases known : before.method.regions[region]? with
  | none =>
    rw [known] at rest
    exact (throw_ok.mp rest).elim
  | some found =>
    rw [known] at rest
    obtain rfl := modifyMethod_ok.mp rest
    have inBounds := (Array.getElem?_eq_some_iff.mp known).1
    refine ⟨⟨⟨.refl _, ?_, framed⟩, rfl⟩, rfl, found, rfl, by simp [inBounds]⟩
    rintro other first ⟨otherFound, otherKnown, ascends⟩
    by_cases same : other = region
    · subst same
      obtain rfl : found = otherFound := Option.some.inj (known.symm.trans otherKnown)
      exact ⟨change found, by simp [inBounds], changes found first ascends⟩
    · refine ⟨otherFound, ?_, ascends⟩
      simp only [Emission.method_mapMethod]
      rwa [Array.getElem?_setIfInBounds_ne (Ne.symm same)]

/-- A label for the current position is bound to it. -/
theorem position?_of_here {label : Label} (success : Emit.here before = .ok label after) :
    after.code.position? label = some before.size ∧ after.size = before.size := by
  obtain ⟨rfl, rfl⟩ := here_ok.mp success
  exact ⟨Code.position?_here _, rfl⟩

theorem suspendRegion (region : RegionId) : Silently Known (suspendRegion region) := by
  intro before _ after success framed
  obtain ⟨stop, between, labeled, rest⟩ := bind_ok.mp success
  have silent := here _ _ _ labeled framed
  obtain ⟨bound, size⟩ := position?_of_here labeled
  rw [← size] at bound
  exact silent.trans (modifyRegion (fun _ _ ascends => ascends.suspend bound) silent.frames rest).1

theorem resumeRegion (region : RegionId) : Silently Known (resumeRegion region) := by
  intro before _ after success framed
  obtain ⟨stop, between, labeled, rest⟩ := bind_ok.mp success
  have silent := here _ _ _ labeled framed
  obtain ⟨bound, size⟩ := position?_of_here labeled
  rw [← size] at bound
  exact silent.trans (modifyRegion (fun _ _ ascends => ascends.resume bound) silent.frames rest).1

theorem resumeRegions (regions : List RegionId) : Silently Known (resumeRegions regions) := by
  induction regions with
  | nil => exact pure ()
  | cons region regions ih =>
    exact seq (resumeRegion region) ih

/-- A region that is opened begins here. -/
theorem openRegion (framed : before.FramesOf Known)
    (success : openRegion before = .ok region after) :
    before.Silent Known after ∧ after.Ascends region before.size ∧ after.size = before.size := by
  obtain ⟨start, between, labeled, rest⟩ := bind_ok.mp success
  replace rest := method_bind_eq.mp rest
  obtain ⟨_, opened, rest⟩ := seq_ok.mp rest
  obtain rfl := modifyMethod_ok.mp opened
  obtain ⟨rfl, rfl⟩ := pure_ok.mp rest
  have silent := here _ _ _ labeled framed
  obtain ⟨bound, size⟩ := position?_of_here labeled
  refine ⟨silent.trans ⟨⟨.refl _, ?_, silent.frames⟩, rfl⟩, ?_, size⟩
  · rintro other first ⟨found, known, ascends⟩
    have inBounds := (Array.getElem?_eq_some_iff.mp known).1
    refine ⟨found, ?_, ascends⟩
    simp only [Emission.method_mapMethod, Array.getElem?_push]
    rw [if_neg (by omega)]
    exact known
  · refine ⟨{ current := some start }, by simp, ?_⟩
    rw [← size] at bound ⊢
    exact .begin bound

/-- The segments of a region that is closed follow one another. -/
theorem closeRegion {first : Nat}
    (framed : before.FramesOf Known)
    (ascends : before.Ascends region first)
    (success : closeRegion region before = .ok segments after) :
    before.Silent Known after ∧ (∀ segment ∈ segments, after.code.Bounds segment) ∧
      Successive first (after.code.ranges segments) after.size := by
  obtain ⟨between, suspended, rest⟩ := seq_ok.mp success
  replace rest := method_bind_eq.mp rest
  obtain ⟨closed, cleared, rest⟩ := seq_ok.mp rest
  obtain ⟨rfl, rfl⟩ := pure_ok.mp rest
  have silent := suspendRegion region _ _ _ suspended framed
  have empties : ∀ (found : OpenRegion) first, found.Ascends between.code first →
      ({ found with segments := [] } : OpenRegion).Ascends between.code first := by
    intro found first ascends
    obtain ⟨last, within, successive, current⟩ := ascends.successive
    exact ⟨by simp, last, within, successive.le, current⟩
  obtain ⟨emptied, same, found, known, -⟩ := modifyRegion empties silent.frames cleared
  obtain ⟨_, listed, ascends⟩ := silent.ascends region first ascends
  obtain rfl := Option.some.inj (known.symm.trans listed)
  have size : closed.size = between.code.size := congrArg Code.size same
  rw [known, Option.getD_some, same, size]
  obtain ⟨last, within, successive, -⟩ := ascends.successive
  exact ⟨silent.trans emptied, ascends.bounds, successive.mono within⟩

end Silently

/-! ## Steps that register entries -/

namespace Records

variable {Other : Stmt → Nat → Prop}
variable {first step : Emit α} {next : α → Emit β}

theorem mono (records : Records Known Wanted step)
    (fewer : ∀ stmt index, Other stmt index → Wanted stmt index) : Records Known Other step := by
  intro before value after success framed
  obtain ⟨entries, sites, registers, covers⟩ := records _ _ _ success framed
  exact ⟨entries, sites, registers, fun stmt index wanted => covers stmt index (fewer _ _ wanted)⟩

theorem ofSilently (silently : Silently Known step) :
    Records Known (Emitted []) step := by
  intro before value after success framed
  exact ⟨[], [], (silently _ _ _ success framed).registers, .none⟩

/-- Two steps register what each of them does. -/
theorem bind (firstRecords : Records Known Wanted first)
    (nextRecords : ∀ value, Records Known Other (next value)) :
    Records Known (fun stmt index => Wanted stmt index ∨ Other stmt index) (first >>= next) := by
  intro before value after success framed
  obtain ⟨result, between, firstSuccess, nextSuccess⟩ := bind_ok.mp success
  obtain ⟨entries, sites, registers, covers⟩ := firstRecords _ _ _ firstSuccess framed
  obtain ⟨more, others, registers', covers'⟩ :=
    nextRecords result _ _ _ nextSuccess registers.frames
  refine ⟨_, _, registers.trans registers', ?_⟩
  rintro stmt index (wanted | wanted)
  · exact covers.mono (List.subset_append_left _ _) stmt index wanted
  · exact covers'.mono (List.subset_append_right _ _) stmt index wanted

/-- Nothing is registered at first. -/
theorem silentBind (firstSilent : Silently Known first)
    (nextRecords : ∀ value, Records Known Wanted (next value)) :
    Records Known Wanted (first >>= next) :=
  (bind (ofSilently firstSilent) nextRecords).mono fun _ _ => .inr

theorem silentSeq {first : Emit Unit} {next : Unit → Emit β} (firstSilent : Silently Known first)
    (nextRecords : Records Known Wanted (next ())) : Records Known Wanted (first >>= next) :=
  silentBind firstSilent fun _ => nextRecords

/-- Nothing more is registered. -/
theorem bindSilent (firstRecords : Records Known Wanted first)
    (nextSilent : ∀ value, Silently Known (next value)) : Records Known Wanted (first >>= next) :=
  (bind firstRecords fun value => ofSilently (nextSilent value)).mono fun _ _ => .inl

theorem seqSilent {first : Emit Unit} {next : Unit → Emit β}
    (firstRecords : Records Known Wanted first) (nextSilent : Silently Known (next ())) :
    Records Known Wanted (first >>= next) :=
  bindSilent firstRecords fun _ => nextSilent

/-- Nothing is registered at first, and the steps that follow know what is returned. -/
theorem silentBindOf (firstSilent : Silently Known first)
    (nextRecords : ∀ value, (∃ before after, first before = .ok value after) →
      Records Known Wanted (next value)) :
    Records Known Wanted (first >>= next) := by
  intro before value after success framed
  obtain ⟨result, between, firstSuccess, nextSuccess⟩ := bind_ok.mp success
  have silent := firstSilent _ _ _ firstSuccess framed
  obtain ⟨entries, sites, registers, covers⟩ :=
    nextRecords result ⟨_, _, firstSuccess⟩ _ _ _ nextSuccess silent.frames
  exact ⟨entries, sites, registers.ofSilent silent, covers⟩

/-- Statements are lowered one after the other. -/
theorem emittedBind {more : List Stmt}
    (firstRecords : Records Known (Emitted stmts) first)
    (nextRecords : ∀ value, Records Known (Emitted more) (next value)) :
    Records Known (Emitted (stmts ++ more)) (first >>= next) := by
  refine (bind firstRecords nextRecords).mono ?_
  rintro inner index ⟨⟨stmt, member, emits⟩, below⟩
  obtain member | member := List.mem_append.mp member
  · exact .inl ⟨⟨stmt, member, emits⟩, below⟩
  · exact .inr ⟨⟨stmt, member, emits⟩, below⟩

/-- No construct is wanted at first. -/
theorem noneBind (firstRecords : Records Known (Emitted []) first)
    (nextRecords : ∀ value, Records Known Wanted (next value)) :
    Records Known Wanted (first >>= next) :=
  (bind firstRecords nextRecords).mono fun _ _ => .inr

theorem throw (error : Error) : Records Known Wanted (throw error : Emit α) :=
  fun _ _ _ success => (throw_ok.mp success).elim

theorem ite [Decidable condition] {other : Emit α}
    (stepRecords : condition → Records Known Wanted step)
    (otherRecords : ¬condition → Records Known Wanted other) :
    Records Known Wanted (if condition then step else other) :=
  iteInduction stepRecords otherRecords

/-- A step that records nothing is taken before those that follow, or it is not. -/
theorem silentIf [Decidable condition] {first : Emit Unit}
    {next : Unit → Emit α}
    (firstSilent : Silently Known first)
    (nextRecords : Records Known Wanted (next ())) :
    Records Known Wanted (if condition then first >>= next else next ()) :=
  ite (fun _ => silentBind firstSilent fun _ => nextRecords) fun _ => nextRecords

/-- The finally bodies around the current point are known. -/
theorem reading {next : MethodContext → Emit β}
    (nextRecords : ∀ method : MethodContext, (∀ frame ∈ method.frames, frame.Of Known) →
      Records Known Wanted (next method)) :
    Records Known Wanted (method >>= next) := by
  intro before value after success framed
  have rest := method_bind_eq.mp success
  exact nextRecords _ framed _ _ _ rest framed

/-- A loop registers what its rounds do. -/
theorem forM {values : List α} {step : α → Emit Unit} {wanted : α → Stmt → Nat → Prop}
    (stepRecords : ∀ value ∈ values, Records Known (wanted value) (step value)) :
    Records Known (fun stmt index => ∃ value ∈ values, wanted value stmt index)
      (values.forM step) := by
  induction values with
  | nil => exact (ofSilently (.pure ())).mono (by simp)
  | cons value values ih =>
    rw [List.forall_mem_cons] at stepRecords
    refine (bind stepRecords.1 fun _ => ih stepRecords.2).mono ?_
    simp

/-- Statements are lowered one after the other. -/
theorem lowerAll {lower : Lowering}
    (lowers : ∀ stmt ∈ stmts, Records Known (Emitted [stmt]) (lower stmt)) :
    Records Known (Emitted stmts) (stmts.forM lower) := by
  refine (forM lowers).mono ?_
  rintro inner index ⟨⟨stmt, member, emits⟩, below⟩
  exact ⟨stmt, member, ⟨stmt, List.mem_singleton_self _, emits⟩, below⟩

theorem inScope {step : Emit Unit} (stepRecords : Records Known Wanted step) :
    Records Known Wanted (inScope step) :=
  silentSeq .enterScope (seqSilent stepRecords .exitScope)

end Records

/-! ## Handlers -/

/-- The segments are appended to the registered ranges. -/
theorem protect_ok
    {handler : Label} {catchType : Option Ty} {after : Emission}
    (success : protect segments handler catchType before = .ok () after) :
    ∃ regions, (before.mapCode fun code => { code with regions }) = after ∧
      regions.toList = before.code.regions.toList ++ segments.map fun segment =>
        { start := segment.1
          stop := segment.2
          handler
          catchType := catchType.map Ty.internalName } := by
  unfold protect at success
  induction segments generalizing before with
  | nil =>
    obtain ⟨-, rfl⟩ := pure_ok.mp success
    exact ⟨before.code.regions, rfl, by simp⟩
  | cons segment segments ih =>
    obtain ⟨_, added, rest⟩ := seq_ok.mp success
    obtain rfl := modifyCode_ok.mp added
    obtain ⟨regions, rfl, appended⟩ := ih rest
    refine ⟨regions, rfl, ?_⟩
    simpa [Code.addRegion] using appended

/-- Segments are registered for a handler that begins here. -/
theorem registers_handler
    {handler : Label} {catchType : Option Ty} {labeled registered begun : Emission}
    (framed : before.FramesOf Known)
    (bounds : ∀ segment ∈ segments, before.code.Bounds segment)
    (labeling : here before = .ok handler labeled)
    (registering : protect segments handler catchType labeled = .ok () registered)
    (silently : registered.FramesOf Known → registered.Silent Known begun)
    (begins : registered.size < begun.size) :
    let entries := (before.code.ranges segments).map
      (Code.entryOf before.size (catchType.map Ty.internalName))
    before.Registers Known begun entries [] [(before.size, entries)] := by
  intro entries
  have labels : before.Silent Known labeled := Silently.here _ _ _ labeling framed
  obtain ⟨bound, size⟩ := Silently.position?_of_here labeling
  obtain ⟨regions, rfl, appended⟩ := protect_ok registering
  have silent := silently labels.frames
  have adds : labeled.code.Grows { labeled.code with regions } := by
    refine ⟨List.prefix_rfl, fun _ _ bound => bound, Nat.le_refl _, ?_⟩
    rw [appended]
    exact List.prefix_append _ _
  have grows := labels.grows.trans (adds.trans silent.grows)
  have begins : before.size < begun.size := by
    rw [← size]
    exact begins
  have tables : before.code.Tables begun.code entries := by
    refine .register grows ?_ bounds (silent.grows.marks _ _ bound) begins
    rw [silent.regions, ← labels.regions]
    exact appended
  refine
    { grows := grows
      ascends := fun region first ascends => silent.ascends region first ?_
      frames := silent.frames
      tables := tables
      complete := fun entry member => .inl ?_
      distinct := by simp
      stands := by simp
      fits := ?_ }
  · obtain ⟨found, known, ascends⟩ := labels.ascends region first ascends
    exact ⟨found, known, ascends.grows adds⟩
  · obtain ⟨range, -, rfl⟩ := List.mem_map.mp member
    exact List.mem_singleton_self _
  · intro own member
    obtain rfl := List.mem_singleton.mp member
    refine ⟨Nat.le_refl _, begins, List.filter_eq_self.mpr fun entry member => ?_⟩
    obtain ⟨range, -, rfl⟩ := List.mem_map.mp member
    exact decide_eq_true rfl

end Emit
end StackCode
