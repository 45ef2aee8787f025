import StackCode.Proofs.BodyContexts

/-!
# The paths to captured locals

A local that lambdas capture lives in a field of the class that captures it
first: the scope of the body that declares it, or the class of an iterator.  The
body and all lambdas inside it that use the local end at this field, however many
receivers lie between.
-/

namespace StackCode

open Emit IteratorClass

variable {field : FieldRef} {layout : Layout}

/-! ## Paths -/

/-- A path of fields leads from an object of a class to a field. -/
inductive FieldPath : String → List FieldRef → FieldRef → Prop where
  /-- The field belongs to the class. -/
  | last (field : FieldRef) : FieldPath field.owner [field] field
  /-- A field of the class holds an object of the class from which the others lead on. -/
  | step {first field : FieldRef} {path : List FieldRef} {next : String}
      (holds : first.type = .ofClass next)
      (rest : FieldPath next path field) :
      FieldPath first.owner (first :: path) field

theorem FieldPath.getLast? {className : String} {path : List FieldRef}
    (leads : FieldPath className path field) : path.getLast? = some field := by
  induction leads with
  | last field => rfl
  | step _ _ ih => rw [List.getLast?_cons, ih, Option.getD_some]

namespace BodyContext

/-! ## Homes of captured locals -/

/-- The class that first captures a local has a single field for it. -/
inductive Allocates (context : BodyContext) (id : LocalId) (field : FieldRef) : Prop where
  /-- The scope of the body captures a local that its receiver does not hold. -/
  | scope
      (ordinary : context.layout = none)
      (unheld : context.start.method.heldPath? id = none)
      (single : context.scope.captured.filter (fun entry => entry.1 = id) = [(id, field)])
      (defines : context.scope.Defines (.field field)) :
      Allocates context id field
  /-- The class of an iterator captures a local that lambdas use. -/
  | iterator {layout : Layout}
      (found : context.layout = some layout)
      (resident : id ∈ layout.promotion.resident)
      (single : layout.localFields.filter (fun entry => entry.1 = id) = [(id, field)])
      (defines : layout.shell.Defines (.field field)) :
      Allocates context id field

/-- A local has one field at most. -/
theorem Allocates.unique {context : BodyContext} {id : LocalId} {first second : FieldRef}
    (allocates : context.Allocates id first) (others : context.Allocates id second) :
    first = second := by
  cases allocates with
  | scope ordinary _ single _ =>
    cases others with
    | scope _ _ otherSingle _ => cases single.symm.trans otherSingle; rfl
    | iterator found _ _ _ => cases ordinary.symm.trans found
  | iterator found _ single _ =>
    cases others with
    | scope ordinary _ _ _ => cases ordinary.symm.trans found
    | iterator otherFound _ otherSingle _ =>
      cases found.symm.trans otherFound
      cases single.symm.trans otherSingle
      rfl

/-- A local is passed on from a body to a context inside it by lambdas that all use it. -/
inductive Passes (id : LocalId) : BodyContext → BodyContext → Prop where
  | here (context : BodyContext) : Passes id context context
  | inside {outer inner last : BodyContext} {index : Nat}
      (compiles : outer.Compiles index inner)
      (free : id ∈ inner.free)
      (passes : Passes id inner last) :
      Passes id outer last

theorem Passes.toInner
    {id : LocalId} {outer inner last : BodyContext} {index : Nat}
    (passes : Passes id outer inner)
    (compiles : inner.Compiles index last)
    (free : id ∈ last.free) :
    Passes id outer last := by
  induction passes with
  | here context => exact .inside compiles free (.here last)
  | inside compilesFirst freeFirst _ ih =>
    exact .inside compilesFirst freeFirst (ih compiles)

/-! ## From a body to a lambda -/

/-- How a lambda reaches a local, given how the body around it does. -/
inductive Handed (outer inner : BodyContext) (id : LocalId) : List FieldRef → Prop where
  /-- The lambda is hosted by the scope, which has a field for the local. -/
  | scope {field : FieldRef}
      (found : outer.scope.field? id = some field)
      (owner : inner.start.method.className = field.owner) :
      Handed outer inner id [field]
  /-- The lambda has the receiver of the body, which holds the local. -/
  | receiver {path : List FieldRef}
      (held : outer.start.method.heldPath? id = some path)
      (same : inner.start.method.className = outer.start.method.className) :
      Handed outer inner id path
  /-- The lambda is hosted by the scope, from which a field leads back to the receiver. -/
  | back {back : FieldRef} {path : List FieldRef}
      (held : outer.start.method.heldPath? id = some path)
      (owner : inner.start.method.className = back.owner)
      (type : back.type = .ofClass outer.start.method.className) :
      Handed outer inner id (back :: path)

end BodyContext

namespace Emit

variable {before after : Emission}

/-- With its parameters in slots, no local of a method lives in a field yet. -/
theorem declareParams_ok
    {params : List LocalDecl}
    (empty : before.method.locals = [])
    (success : declareParams params before = .ok () after) :
    after.method.className = before.method.className ∧
      ∀ id holder path, after.method.locals.lookup id ≠ some (.captured holder path) := by
  have retaining : Retaining (declareParams params) :=
    .composed (.seq .reserveSelf (.declareLocals _))
  have retains := retaining.ok success
  refine ⟨retains.className, fun id holder path => ?_⟩
  rw [ne_eq, retains.captured, empty]
  nofun

/-- Before its lambdas are prepared, a lambda reaches through fields what it captures. -/
theorem lambdaStart_ok
    {lambda : Lambda} {access : List (LocalId × LocalAccess)} {selfPath : List FieldRef}
    (empty : before.method.locals = [])
    (success : lambdaStart lambda access selfPath before = .ok () after) :
    after.method.className = before.method.className ∧
      ∃ others, after.method.locals = access.reverse ++ others ∧
        ∀ id holder path, others.lookup id ≠ some (.captured holder path) := by
  obtain ⟨declared, declaring, rest⟩ := seq_ok.mp success
  obtain ⟨_, accessing, locating⟩ := seq_ok.mp rest
  obtain rfl := modifyMethod_ok.mp locating
  obtain ⟨className, uncaptured⟩ := declareParams_ok empty declaring
  rw [forM_setAccess_ok accessing]
  exact ⟨className, declared.method.locals, by simp, uncaptured⟩

end Emit

namespace BodyContext

variable {outer inner : BodyContext} {index : Nat} {id : LocalId}

/-- The state in which a lambda is prepared: it has what was planned for it, and nothing else. -/
structure Opens
    (outer inner : BodyContext)
    (plan : LambdaPlan)
    (home : LambdaHome)
    (others : List (LocalId × LocalAccess)) :
    Prop where
  fits : plan.Fits outer.start.method outer.scope
  hosts : home.Hosts outer.scope outer.start.method.className plan.host
  free : inner.free = plan.lambda.freeLocals
  className : inner.start.method.className = home.owner
  locals : inner.start.method.locals = (capturedAccess home plan.captures).reverse ++ others
  uncaptured : ∀ id holder path, others.lookup id ≠ some (.captured holder path)

/-- A lambda is compiled by a plan, in a home. -/
theorem Compiles.opens (compiles : outer.Compiles index inner) :
    ∃ plan home others, outer.Opens inner plan home others := by
  obtain @⟨plan, before, home, found, earlier, housed, starting, source⟩ := compiles
  obtain ⟨className, others, locals, uncaptured⟩ := lambdaStart_ok rfl starting
  have owner : before.method.className = outer.start.method.className := by
    obtain ⟨_, only⟩ := onlyLambdas_compilePlans earlier
    rw [only, (makeScope?_ok outer.serves outer.making).1, outer.planned_method]
  exact ⟨plan, home, others,
    { fits := outer.fits (List.mem_of_getElem? found)
      hosts := owner ▸ lambdaHome_hosts housed
      free := congrArg BodySource.free source
      className, locals, uncaptured }⟩

namespace Opens

variable {plan : LambdaPlan} {home : LambdaHome} {others : List (LocalId × LocalAccess)}
variable {path : List FieldRef}

/-- A local of the scope is in a field of the class that hosts the lambda. -/
theorem handed_locals
    (opens : outer.Opens inner plan home others)
    (listed : (id, field) ∈ plan.captures.locals) :
    outer.Handed inner id [field] := by
  obtain ⟨-, -, found⟩ := opens.fits.cover.locals _ listed
  refine .scope found ?_
  have hosted : plan.host = .scope := by
    by_contra elsewhere
    rw [opens.fits.elsewhere elsewhere] at listed
    contradiction
  have hosts := opens.hosts
  rw [hosted] at hosts
  cases hosts with
  | scope named _ =>
    have owner := (outer.serves.wellFormed.captured _ (mem_of_lookup found)).owner
    rw [opens.className]
    exact Option.some.inj (named.symm.trans owner)

/-- A local that the receiver of the body holds is reached through that receiver. -/
theorem handed_outer
    (opens : outer.Opens inner plan home others)
    (listed : (id, path) ∈ plan.captures.outer) :
    outer.Handed inner id (home.path ++ path) := by
  obtain ⟨-, held⟩ := opens.fits.cover.outer _ listed
  have passed : plan.captures.outer ≠ [] := List.ne_nil_of_mem listed
  have hosts := opens.hosts
  generalize hosted : plan.host = host at hosts
  cases hosts with
  | scope named homePath =>
    obtain ⟨back, selfField⟩ := Option.isSome_iff_exists.mp (opens.fits.scope hosted passed)
    rw [homePath, selfField]
    refine .back held ?_ ?_
    · have owner := (outer.serves.wellFormed.selfField back selfField).owner
      rw [opens.className]
      exact Option.some.inj (named.symm.trans owner)
    · rw [outer.serves.selfType back selfField, outer.serves.outer]
  | receiver owner homePath =>
    rw [homePath]
    exact .receiver held (opens.className.trans owner)
  | static => exact (passed (opens.fits.static hosted)).elim

end Opens

/-- A lambda reaches what it captures through its receiver, on from where the body reaches it. -/
theorem Compiles.handed
    (compiles : outer.Compiles index inner)
    {holder : Holder} {path : List FieldRef}
    (known : inner.start.method.locals.lookup id = some (.captured holder path)) :
    holder = .self ∧ id ∈ inner.free ∧ outer.Handed inner id path := by
  obtain ⟨plan, home, others, opens⟩ := compiles.opens
  rw [opens.locals, lookup_reverse_append (opens.fits.agree home)] at known
  rw [opens.free]
  obtain member | ⟨-, elsewhere⟩ := known
  · obtain member | member := List.mem_append.mp member
    · obtain ⟨⟨_, field⟩, listed, ⟨⟩⟩ := List.mem_map.mp member
      exact ⟨rfl, (opens.fits.cover.locals _ listed).1, opens.handed_locals listed⟩
    · obtain ⟨⟨_, tail⟩, listed, ⟨⟩⟩ := List.mem_map.mp member
      exact ⟨rfl, (opens.fits.cover.outer _ listed).1, opens.handed_outer listed⟩
  · exact (opens.uncaptured id holder path elsewhere).elim

/-- The receiver of a lambda holds every local that is free in it. -/
theorem Compiles.held_of_free (compiles : outer.Compiles index inner) (free : id ∈ inner.free) :
    ∃ path, inner.start.method.heldPath? id = some path := by
  obtain ⟨plan, home, others, opens⟩ := compiles.opens
  rw [opens.free] at free
  simp only [MethodContext.heldPath?_eq_some_iff, opens.locals,
    lookup_reverse_append (opens.fits.agree home)]
  obtain member | member := opens.fits.cover.all id free
  · obtain ⟨entry, listed, rfl⟩ := List.mem_map.mp member
    exact ⟨_, .inl (List.mem_append_left _ (List.mem_map.mpr ⟨entry, listed, rfl⟩))⟩
  · obtain ⟨entry, listed, rfl⟩ := List.mem_map.mp member
    exact ⟨_, .inl (List.mem_append_right _ (List.mem_map.mpr ⟨entry, listed, rfl⟩))⟩

/-! ## All contexts end at one field -/

section Ends

variable {context : BodyContext} {field : FieldRef} {path : List FieldRef}

/-- Where the body is lowered, a local is captured, and the path to it ends at a field. -/
def Ends (context : BodyContext) (id : LocalId) (field : FieldRef) : Prop :=
  ∃ holder path, context.entered.method.locals.lookup id = some (.captured holder path) ∧
    path.getLast? = some field

/-- The scope has no field for what the receiver holds. -/
theorem field?_of_held (held : context.start.method.heldPath? id = some path) :
    context.scope.field? id = none := by
  rw [Option.eq_none_iff_forall_ne_some]
  intro field found
  have unheld := context.serves.unheld _ (mem_of_lookup found)
  rw [held] at unheld
  contradiction

theorem lookup_entered_of_held (held : context.start.method.heldPath? id = some path) :
    context.entered.method.locals.lookup id = some (.captured .self path) :=
  (context.lookup_entered _ _ _).mpr
    (.inr ⟨field?_of_held held, MethodContext.heldPath?_eq_some_iff.mp held⟩)

theorem lookup_entered_of_field? (found : context.scope.field? id = some field) :
    ∃ slot, context.slot = some slot ∧
      context.entered.method.locals.lookup id = some (.captured (.slot slot) [field]) := by
  have owner := (context.serves.wellFormed.captured _ (mem_of_lookup found)).owner
  obtain ⟨slot, made⟩ := context.exists_slot owner
  exact ⟨slot, made, (context.lookup_entered _ _ _).mpr (.inl ⟨slot, field, made, found, rfl, rfl⟩)⟩

/-- A lambda that uses a local ends where the body around it ends. -/
theorem Ends.inside
    (ends : outer.Ends id field)
    (compiles : outer.Compiles index inner)
    (free : id ∈ inner.free) :
    inner.Ends id field := by
  obtain ⟨holder, outerPath, known, last⟩ := ends
  obtain ⟨path, held⟩ := compiles.held_of_free free
  refine ⟨.self, path, lookup_entered_of_held held, ?_⟩
  obtain ⟨-, -, handed⟩ := compiles.handed (MethodContext.heldPath?_eq_some_iff.mp held)
  cases handed with
  | scope found _ =>
    obtain ⟨_, -, captured⟩ := lookup_entered_of_field? found
    cases known.symm.trans captured
    exact last
  | receiver outerHeld _ =>
    cases known.symm.trans (lookup_entered_of_held outerHeld)
    exact last
  | back outerHeld _ _ =>
    cases known.symm.trans (lookup_entered_of_held outerHeld)
    rw [List.getLast?_cons, last, Option.getD_some]

theorem Passes.ends {home : BodyContext} (passes : Passes id home context)
    (ends : home.Ends id field) : context.Ends id field := by
  induction passes with
  | here _ => exact ends
  | inside compiles free _ ih => exact ih (ends.inside compiles free)

end Ends

/-! ## Every path starts at a home -/

/-- A context, the home of a local, has a field for it and passes it on to another context. -/
structure Supplies
    (root home : BodyContext)
    (id : LocalId)
    (field : FieldRef)
    (context : BodyContext) :
    Prop where
  within : ∃ address, root.Within address home
  declares : id ∈ home.declared.map LocalDecl.id
  allocates : home.Allocates id field
  passes : Passes id home context

/-- What the receiver of a body holds is found through correct paths. -/
structure Sound (root context : BodyContext) : Prop where
  within : ∃ address, root.Within address context
  /-- An iterator needs no scope. -/
  unscoped : ∀ layout ∈ context.layout, ∀ id, context.scope.field? id = none
  resident : ∀ layout ∈ context.layout, ∀ entry ∈ layout.localFields,
    entry.1 ∈ layout.promotion.resident → context.start.method.heldPath? entry.1 = some [entry.2]
  held : ∀ id holder path, context.start.method.locals.lookup id = some (.captured holder path) →
    holder = .self ∧ ∃ home field, root.Supplies home id field context ∧
      FieldPath context.start.method.className path field

namespace Sound

variable {root context : BodyContext} {field : FieldRef}

/-- A local in the scope of a body is supplied by this body. -/
theorem supplies (sound : root.Sound context) (found : context.scope.field? id = some field) :
    root.Supplies context id field context where
  within := sound.within
  declares := by
    obtain ⟨decl, declared, same⟩ :=
      List.mem_map.mp (context.serves.declared _ (mem_of_lookup found))
    exact List.mem_map.mpr ⟨decl, context.subset_declared declared, same⟩
  allocates := by
    refine .scope ?_ ?_ (filter_of_lookup context.serves.once found) ?_
    · rw [Option.eq_none_iff_forall_ne_some]
      intro layout known
      have none := sound.unscoped layout known id
      rw [found] at none
      contradiction
    · exact context.serves.unheld _ (mem_of_lookup found)
    · exact context.serves.wellFormed.captured _ (mem_of_lookup found)
  passes := .here context

/-- What is true of a body is true of the lambdas in it. -/
theorem inside (sound : root.Sound outer) (compiles : outer.Compiles index inner) :
    root.Sound inner where
  within := by
    obtain ⟨address, within⟩ := sound.within
    exact ⟨_, within.append_singleton compiles⟩
  unscoped := by
    obtain ⟨-, -, -, -, source⟩ := compiles
    rw [source]
    exact nofun
  resident := by
    obtain ⟨-, -, -, -, source⟩ := compiles
    rw [source]
    exact nofun
  held id holder path known := by
    obtain ⟨rfl, free, handed⟩ := compiles.handed known
    refine ⟨rfl, ?_⟩
    cases handed with
    | scope found owner =>
      have supplies := sound.supplies found
      refine ⟨outer, _, { supplies with passes := supplies.passes.toInner compiles free }, ?_⟩
      rw [owner]
      exact .last _
    | receiver held same =>
      obtain ⟨-, home, field, supplies, leads⟩ :=
        sound.held id _ _ (MethodContext.heldPath?_eq_some_iff.mp held)
      refine ⟨home, field, { supplies with passes := supplies.passes.toInner compiles free }, ?_⟩
      rw [same]
      exact leads
    | back held owner type =>
      obtain ⟨-, home, field, supplies, leads⟩ :=
        sound.held id _ _ (MethodContext.heldPath?_eq_some_iff.mp held)
      refine ⟨home, field, { supplies with passes := supplies.passes.toInner compiles free }, ?_⟩
      rw [owner]
      exact .step type leads

theorem ofWithin {address : List Nat} (sound : root.Sound outer)
    (within : outer.Within address inner) : root.Sound inner := by
  induction within with
  | here _ => exact sound
  | inside compiles _ ih => exact ih (sound.inside compiles)

/-- The home of a local ends at the field that it has for it. -/
theorem ends (sound : root.Sound context) (allocates : context.Allocates id field) :
    context.Ends id field := by
  cases allocates with
  | scope _ _ single _ =>
    have listed : (id, field) ∈ context.scope.captured.filter (fun entry => entry.1 = id) := by
      rw [single]
      exact List.mem_singleton_self _
    have found := context.serves.field?_of_mem (List.mem_filter.mp listed).1
    obtain ⟨slot, -, known⟩ := lookup_entered_of_field? found
    exact ⟨_, _, known, rfl⟩
  | @iterator layout found resident single _ =>
    have listed : (id, field) ∈ layout.localFields.filter (fun entry => entry.1 = id) := by
      rw [single]
      exact List.mem_singleton_self _
    have held := sound.resident layout found _ (List.mem_filter.mp listed).1 resident
    exact ⟨_, _, lookup_entered_of_held held, rfl⟩

end Sound

end BodyContext

/-! ## The fields of an iterator -/

theorem LocalId.nodup_ascending (ids : List LocalId) : (LocalId.ascending ids).Nodup := by
  refine (LocalId.pairwise_ascending ids).imp fun below same => ?_
  exact Nat.lt_irrefl _ (same ▸ below)

/-- No local of an iterator is given two fields. -/
theorem Stmt.nodup_promotion (body : Stmt) (params : List LocalDecl) :
    ((body.promotion params).promoted ++ (body.promotion params).resident).Nodup := by
  refine List.nodup_append.mpr ⟨LocalId.nodup_ascending _, LocalId.nodup_ascending _, ?_⟩
  rintro id promoted _ resident rfl
  simp only [Stmt.promotion, LocalId.mem_ascending, List.mem_filter, Bool.not_eq_true',
    List.contains_eq_mem, decide_eq_false_iff_not] at promoted resident
  exact promoted.2 resident

namespace IteratorClass

/-- Each local has at most one field in the class of an iterator. -/
structure Layout.Places (layout : Layout) (decls : List LocalDecl) : Prop where
  once : (layout.localFields.map Prod.fst).Nodup
  declared : ∀ entry ∈ layout.localFields, entry.1 ∈ decls.map LocalDecl.id
  defines : ∀ entry ∈ layout.localFields, layout.shell.Defines (.field entry.2)
  resident : ∀ id ∈ layout.promotion.resident, id ∈ layout.localFields.map Prod.fst

/-- Every local of the body has its place in the layout. -/
theorem layOut_places
    {className : String} {method : MethodDecl} {element : Ty} {body : Stmt}
    {before after : ClassContext}
    (success : layOut className method element body before = .ok layout after) :
    layout.Places (body.declaredLocals ++ method.params) := by
  obtain ⟨furnished, -, -⟩ := layOut_furnished success
  obtain ⟨-, -, -, -, -, covered⟩ := layOut_ok success
  obtain ⟨_, _, read, rest⟩ := bind_ok.mp success
  obtain ⟨-, found, _, _, ids, declared, -, rfl, listed⟩ := addLocals_ok rest
  rw [List.map_nil, List.nil_append] at listed
  refine ⟨?_, ?_, furnished.localFields, covered⟩
  · rw [listed]
    exact body.nodup_promotion method.params
  · intro entry member
    rw [← ids] at listed
    exact List.map_subset _ declared (listed ▸ List.mem_map_of_mem member)

end IteratorClass

/-! ## The body of a method -/

namespace Emit

variable {before after : Emission}

/-- The method of an iterator stays in its class. -/
theorem moveNextStart_className
    {body : Stmt} {suspension : Suspension}
    (success : moveNextStart layout body before = .ok suspension after) :
    after.method.className = before.method.className := by
  obtain ⟨_, reserving, rest⟩ := seq_ok.mp success
  obtain ⟨_, locating, rest⟩ := seq_ok.mp rest
  obtain ⟨_, _, beginning, rest⟩ := bind_ok.mp rest
  obtain ⟨_, accessing, rest⟩ := seq_ok.mp rest
  obtain ⟨-, rfl⟩ := pure_ok.mp rest
  have reserves : Retaining reserveSelf := .composed .reserveSelf
  have locates : Retaining (setSelfPath layout.outerField.toList) :=
    .modifyMethod fun _ => ⟨rfl, rfl⟩
  have begins := Retaining.composed (.beginSuspension layout.className layout.element
    body.countYields (layout.fieldsOf layout.promotion.promoted))
  rw [forM_setAccess_ok accessing]
  exact ((reserves.ok reserving).trans
    ((locates.ok locating).trans (begins.ok beginning))).className

/-- Before its lambdas are prepared, the locals of an iterator that they use live in its fields. -/
theorem iteratorStart_ok
    {method : MethodDecl} {body : Stmt} {name : String} {debugInfo : Bool} {cls : ClassContext}
    (success : iteratorStart layout method body
      { method := .start layout.className name false .boolean debugInfo, cls } = .ok () after) :
    after.method.className = layout.className ∧
      ∀ id holder path, after.method.locals.lookup id = some (.captured holder path) ↔
        (residentAccess layout).lookup id = some (.captured holder path) := by
  obtain ⟨suspension, begun, beginning, rest⟩ := bind_ok.mp success
  have enters : Retaining (do
      enterScope
      declareKept layout method.params
      dispatchState suspension) :=
    .composed (.seq .enterScope
      (.seq (.declareKept _ _) (PlainTo.dispatchState trivial).composed))
  have retains := enters.ok rest
  refine ⟨retains.className.trans (moveNextStart_className beginning), fun id holder path => ?_⟩
  rw [retains.captured, (begun_moveNextStart beginning).locals]

end Emit

/-- The fields of an iterator in which its resident locals live. -/
theorem IteratorClass.Layout.Places.lookup_residentAccess
    {decls : List LocalDecl}
    (places : layout.Places decls)
    (id : LocalId) (holder : Holder) (path : List FieldRef) :
    (residentAccess layout).lookup id = some (.captured holder path) ↔
      holder = .self ∧ id ∈ layout.promotion.resident ∧
        ∃ field, (id, field) ∈ layout.localFields ∧ path = [field] := by
  rw [residentAccess, ← List.append_nil (List.reverse _), lookup_reverse_append]
  · constructor
    · rintro (member | ⟨-, elsewhere⟩)
      · obtain ⟨⟨_, field⟩, listed, ⟨⟩⟩ := List.mem_map.mp member
        obtain ⟨listed, resident⟩ := List.mem_filter.mp listed
        exact ⟨rfl, by simpa using resident, field, listed, rfl⟩
      · contradiction
    · rintro ⟨rfl, resident, field, listed, rfl⟩
      refine .inl (List.mem_map.mpr ⟨(id, field), List.mem_filter.mpr ⟨listed, ?_⟩, rfl⟩)
      simpa using resident
  · simp only [List.forall_mem_map]
    intro first firstMember second secondMember same
    have firstListed := (List.mem_filter.mp firstMember).1
    have secondListed := (List.mem_filter.mp secondMember).1
    rw [List.inj_on_of_nodup_map places.once firstListed secondListed same]

open BodyContext

namespace RootOf

variable {method : MethodDecl} {cls : ClassContext} {root : BodyContext}

/-- The receiver of the body of a declared method holds nothing, that of an iterator its fields. -/
theorem sound (rootOf : RootOf method cls root) : root.Sound root := by
  cases rootOf with
  | @plain body _ _ starting source =>
    refine ⟨⟨[], .here root⟩, ?_, ?_, ?_⟩
    · rw [source]
      exact nofun
    · rw [source]
      exact nofun
    · exact fun id holder path known =>
        ((declareParams_ok rfl starting).2 id holder path known).elim
  | @iterator body element layout laidOut _ _ layingOut starting source =>
    obtain ⟨_, _, _, layingOut⟩ := layOut_of_newLayout layingOut
    have places := layOut_places layingOut
    obtain ⟨-, -, -, -, promotion, -⟩ := layOut_ok layingOut
    obtain ⟨className, locals⟩ := iteratorStart_ok starting
    have held : ∀ entry ∈ layout.localFields, entry.1 ∈ layout.promotion.resident →
        root.start.method.heldPath? entry.1 = some [entry.2] := by
      intro entry member resident
      rw [MethodContext.heldPath?_eq_some_iff, locals, places.lookup_residentAccess]
      exact ⟨rfl, resident, entry.2, member, rfl⟩
    have own : root.layout = some layout := congrArg BodySource.layout source
    refine ⟨⟨[], .here root⟩, ?_, ?_, ?_⟩
    · intro _ _ id
      -- Whatever the lambdas use is resident, so nothing is left for the scope.
      have resident : ∀ lambda ∈ root.body.lambdas, ∀ id ∈ lambda.freeLocals,
          Resident root.start id := by
        intro lambda member id free
        have used : id ∈ layout.promotion.resident := by
          rw [promotion, Stmt.promotion, Stmt.captured, LocalId.mem_ascending]
          rw [source] at member
          exact List.mem_flatMap.mpr ⟨lambda, member, free⟩
        obtain ⟨entry, listed, rfl⟩ := List.mem_map.mp (places.resident id used)
        exact ⟨_, MethodContext.heldPath?_eq_some_iff.mp (held entry listed used)⟩
      rw [(planLambdas_resident resident root.planning).2]
      rfl
    · rw [own]
      rintro _ ⟨⟩
      exact held
    · intro id holder path known
      rw [locals, places.lookup_residentAccess] at known
      obtain ⟨rfl, resident, field, listed, rfl⟩ := known
      refine ⟨rfl, root, field, ⟨⟨[], .here root⟩, ?_, ?_, .here root⟩, ?_⟩
      · rw [source]
        exact places.declared _ listed
      · refine .iterator own resident ?_ (places.defines _ listed)
        exact filter_of_lookup places.once (lookup_of_mem places.once listed)
      · have owner : layout.className = field.owner := (places.defines _ listed).1
        rw [className, owner]
        exact .last field

end RootOf

/-! ## All contexts of a method -/

namespace BodyContext

/--
In every context inside a body, wherever a statement is lowered there, captured
locals are reached through correct paths.
-/
structure Reaches (root : BodyContext) : Prop where
  /-- Every lambda of a context is compiled in one context of its own. -/
  lambdas : ∀ address context index lambda, root.Within address context →
    context.body.lambdas[index]? = some lambda →
    ∃ inner, context.Compiles index inner ∧
      inner.toBodySource = .ofLambda lambda (context.depth - 1) ∧
      ∀ other, context.Compiles index other → other = inner
  /-- So every lambda has a context, however deeply it is nested. -/
  complete : ∀ lambda, root.body.Holds lambda → ∃ address context depth,
    root.Within address context ∧ context.toBodySource = .ofLambda lambda depth
  /-- A path from the receiver leads to the field that the home of the local has for it. -/
  receiver : ∀ address context stmt state id path, root.Within address context →
    LowersAt context.body context.entered stmt state →
    state.method.locals.lookup id = some (.captured .self path) →
    ∃ home field, root.Supplies home id field context ∧
      FieldPath state.method.className path field
  /-- A path from a slot is a field of the scope of which an object was stored in the slot. -/
  slot : ∀ address context stmt state id slot path, root.Within address context →
    LowersAt context.body context.entered stmt state →
    state.method.locals.lookup id = some (.captured (.slot slot) path) →
    ∃ field, root.Supplies context id field context ∧ path = [field] ∧
      context.slot = some slot ∧ context.scope.name = some field.owner ∧
      ∃ position, context.entered.code.Holds position (makingObject field.owner slot)
  /-- All to which a local is passed on from its home end at the field that it has there. -/
  shared : ∀ home context stmt state id field, (∃ address, root.Within address home) →
    home.Allocates id field → Passes id home context →
    LowersAt context.body context.entered stmt state →
    ∃ holder path, state.method.locals.lookup id = some (.captured holder path) ∧
      path.getLast? = some field
  /-- Two contexts that reach a local which is declared once end at the same field. -/
  agree : ∀ id, root.declarations id ≤ 1 →
    ∀ address context stmt state holder path, root.Within address context →
    LowersAt context.body context.entered stmt state →
    state.method.locals.lookup id = some (.captured holder path) →
    ∀ otherAddress other otherStmt otherState otherHolder otherPath,
      root.Within otherAddress other →
      LowersAt other.body other.entered otherStmt otherState →
      otherState.method.locals.lookup id = some (.captured otherHolder otherPath) →
      ∃ field, path.getLast? = some field ∧ otherPath.getLast? = some field

variable {root context : BodyContext} {address : List Nat} {stmt : Stmt} {state : Emission}
variable {id : LocalId} {path : List FieldRef}

/-- Where a body is lowered, what is not in its scope is held by its receiver. -/
theorem Sound.supplies_of_self
    (sound : root.Sound context)
    (lowersAt : LowersAt context.body context.entered stmt state)
    (known : state.method.locals.lookup id = some (.captured .self path)) :
    ∃ home field, root.Supplies home id field context ∧
      FieldPath state.method.className path field := by
  rw [lowersAt.retains.captured, context.lookup_entered] at known
  rw [lowersAt.retains.className, context.entered_className]
  obtain ⟨_, _, -, -, other, -⟩ | ⟨-, known⟩ := known
  · contradiction
  · exact (sound.held id .self path known).2

/-- Where a body is lowered, only what is in its scope is reached through a slot. -/
theorem Sound.supplies_of_slot
    {slot : Nat}
    (sound : root.Sound context)
    (lowersAt : LowersAt context.body context.entered stmt state)
    (known : state.method.locals.lookup id = some (.captured (.slot slot) path)) :
    ∃ field, root.Supplies context id field context ∧ path = [field] ∧
      context.slot = some slot ∧ context.scope.name = some field.owner ∧
      ∃ position, context.entered.code.Holds position (makingObject field.owner slot) := by
  rw [lowersAt.retains.captured, context.lookup_entered] at known
  obtain ⟨_, field, made, found, ⟨⟩, rfl⟩ | ⟨-, known⟩ := known
  · have owner := (context.serves.wellFormed.captured _ (mem_of_lookup found)).owner
    obtain ⟨name, named, position, held⟩ := context.stored made
    cases owner.symm.trans named
    exact ⟨field, sound.supplies found, rfl, made, owner, position, held⟩
  · cases (sound.held id _ path known).1

/-- Wherever a captured local is reached, the path ends at the field in its home. -/
theorem Sound.exists_supplies
    {holder : Holder}
    (sound : root.Sound context)
    (lowersAt : LowersAt context.body context.entered stmt state)
    (known : state.method.locals.lookup id = some (.captured holder path)) :
    ∃ home field, root.Supplies home id field context ∧ path.getLast? = some field := by
  cases holder with
  | self =>
    obtain ⟨home, field, supplies, leads⟩ := sound.supplies_of_self lowersAt known
    exact ⟨home, field, supplies, leads.getLast?⟩
  | slot slot =>
    obtain ⟨field, supplies, rfl, -⟩ := sound.supplies_of_slot lowersAt known
    exact ⟨context, field, supplies, rfl⟩

/-- A local that is declared once has one home. -/
theorem Supplies.eq_of_once
    {home otherHome other : BodyContext} {otherField : FieldRef}
    (once : root.declarations id ≤ 1)
    (supplies : root.Supplies home id field context)
    (others : root.Supplies otherHome id otherField other) :
    field = otherField := by
  obtain ⟨_, within⟩ := supplies.within
  obtain ⟨_, otherWithin⟩ := others.within
  cases within.eq_of_once once otherWithin supplies.declares others.declares
  exact supplies.allocates.unique others.allocates

/-- Where every context is sound, every capture has its path. -/
theorem Sound.reaches (sound : root.Sound root) : root.Reaches where
  lambdas _ _ _ _ _ found := by
    obtain ⟨inner, compiles, source⟩ := exists_compiles found
    exact ⟨inner, compiles, source, fun _ others => others.unique compiles⟩
  complete _ holds := exists_within holds
  receiver _ _ _ _ _ _ within := (sound.ofWithin within).supplies_of_self
  slot _ _ _ _ _ _ _ within := (sound.ofWithin within).supplies_of_slot
  shared home context stmt state id field within allocates passes lowersAt := by
    obtain ⟨_, within⟩ := within
    obtain ⟨holder, path, known, last⟩ := passes.ends ((sound.ofWithin within).ends allocates)
    exact ⟨holder, path, (lowersAt.retains.captured _ _ _).mpr known, last⟩
  agree id once _ _ _ _ _ _ within lowersAt known _ _ _ _ _ _ otherWithin otherLowersAt
      otherKnown := by
    obtain ⟨_, field, supplies, last⟩ := (sound.ofWithin within).exists_supplies lowersAt known
    obtain ⟨_, otherField, others, otherLast⟩ :=
      (sound.ofWithin otherWithin).exists_supplies otherLowersAt otherKnown
    cases supplies.eq_of_once once others
    exact ⟨field, last, otherLast⟩

end BodyContext

theorem RootOf.body {method : MethodDecl} {cls : ClassContext} {root : BodyContext}
    (rootOf : RootOf method cls root) :
    method.body = some root.body ∧
      root.declared = root.body.declaredLocals ++ method.params := by
  cases rootOf with
  | plain found _ _ source =>
    rw [source]
    exact ⟨found, rfl⟩
  | iterator found _ _ _ source =>
    rw [source]
    exact ⟨found, rfl⟩

/--
A method that is generated has one context for its body.  In it and in the
contexts of all lambdas inside, captured locals are reached through correct paths.
-/
theorem generateBody_captured_paths
    {method : MethodDecl}
    {body : Stmt}
    {cls after : ClassContext}
    {code : Option MethodBody}
    (found : method.body = some body)
    (generated : generateBody method cls = .ok code after) :
    ∃ root, RootOf method cls root ∧ (∀ other, RootOf method cls other → other = root) ∧
      root.body = body ∧
      (∀ id, root.declarations id = method.allDeclared.countP fun decl => decl.id = id) ∧
      root.Reaches := by
  obtain ⟨root, rootOf⟩ := RootOf.exists_of_generateBody found generated
  obtain ⟨same, declared⟩ := rootOf.body
  refine ⟨root, rootOf, fun other otherRoot => otherRoot.unique rootOf, ?_, ?_,
    rootOf.sound.reaches⟩
  · exact Option.some.inj (same.symm.trans found)
  · exact BodySource.declarations_ofMethod same declared

/-- A method with a lambda inside a lambda that uses a local of either one. -/
def nestedLambdas : MethodDecl :=
  let decl (index : Nat) (name : String) : LocalDecl := { id := ⟨index⟩, name, type := .int }
  let use (index : Nat) : Stmt := .eval {} (.localVar { type := .int } ⟨index⟩)
  let interface : MethodRef :=
    { owner := "Action", name := "run", params := [], ret := .void, invoke := .interface }
  let function (index : Nat) (body : List Stmt) : Stmt :=
    .eval {} (.lambda { type := .ofClass "Action" }
      { id := ⟨index⟩, params := [], ret := .void, body := .block {} body, interface })
  let declaration : Stmt := .declare {} [{ decl := decl 1 "b", init := none }]
  { name := "m"
    params := [decl 0 "a"]
    body := some (function 0 [declaration, function 1 [use 0, use 1]]) }

/-- The method and the outer lambda have a scope each; the inner one reaches both. -/
theorem generateBody_captured_paths_nestedLambdas :
    ∃ code after root,
      generateBody nestedLambdas.annotate { name := "A" } = .ok code after ∧
        after.nested.size = 2 ∧ RootOf nestedLambdas.annotate { name := "A" } root ∧
        root.Reaches ∧ ∀ index < 2, root.declarations ⟨index⟩ = 1 := by
  obtain ⟨code, after, generated, nested⟩ : ∃ code after,
      generateBody nestedLambdas.annotate { name := "A" } = .ok code after ∧
        decide (after.nested.size = 2) :=
    exists_ok (by decide +kernel)
  have once : ∀ index < 2,
      (nestedLambdas.annotate.allDeclared.countP fun decl => decl.id = ⟨index⟩) = 1 := by
    decide +kernel
  have found : nestedLambdas.annotate.body = some (nestedLambdas.annotate.body.getD default) := rfl
  obtain ⟨root, rootOf, -, -, declarations, reaches⟩ :=
    generateBody_captured_paths found generated
  refine ⟨code, after, root, generated, of_decide_eq_true nested, rootOf, reaches, ?_⟩
  intro index below
  rw [declarations, once index below]

end StackCode
