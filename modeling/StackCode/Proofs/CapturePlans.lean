import StackCode.Proofs.Linking
import StackCode.Proofs.Resumption

/-!
# What the scope of a body holds

The lambdas of a body are planned before the first of them is compiled.  A local
that the receiver of the body holds is passed on to the lambdas that use it; any
other local that they capture gets one field of the scope, whichever lambda asks
for it first.  The body then makes the scope object, and reaches these locals
through it.
-/

namespace StackCode

variable {scope : ClosureScope}
variable {id : LocalId} {ids : List LocalId} {plan : LambdaPlan}

section Entries

variable [BEq α] [LawfulBEq α] {entries others : List (α × β)} {key : α} {value : β}

/-- Where no key has two entries, the entries of a key are the one that is found. -/
theorem filter_of_lookup [DecidableEq α] (once : (entries.map Prod.fst).Nodup)
    (found : entries.lookup key = some value) :
    entries.filter (fun entry => entry.1 = key) = [(key, value)] := by
  have member := mem_of_lookup found
  have distinct := (List.Nodup.of_map _ once).filter fun entry => decide (entry.1 = key)
  refine List.perm_singleton.mp
    ((List.perm_ext_iff_of_nodup distinct (List.nodup_singleton _)).mpr fun entry => ?_)
  rw [List.mem_filter, List.mem_singleton]
  constructor
  · rintro ⟨listed, same⟩
    exact List.inj_on_of_nodup_map once listed member (by simpa using same)
  · rintro rfl
    exact ⟨member, by simp⟩

/-- What is found once further entries were added, of which no two disagree. -/
theorem lookup_reverse_append
    (agree : ∀ first ∈ entries, ∀ second ∈ entries, first.1 = second.1 → first.2 = second.2) :
    (entries.reverse ++ others).lookup key = some value ↔
      (key, value) ∈ entries ∨
        (∀ entry ∈ entries, entry.1 ≠ key) ∧ others.lookup key = some value := by
  rw [List.lookup_append]
  cases found : entries.reverse.lookup key with
  | none =>
    have absent : ∀ entry ∈ entries, entry.1 ≠ key := by
      intro entry member same
      have differs := List.lookup_eq_none_iff.mp found entry (List.mem_reverse.mpr member)
      simp [same] at differs
    rw [Option.none_or]
    constructor
    · exact fun other => .inr ⟨absent, other⟩
    · rintro (member | ⟨-, other⟩)
      · exact (absent _ member rfl).elim
      · exact other
  | some first =>
    have listed : (key, first) ∈ entries := List.mem_reverse.mp (mem_of_lookup found)
    rw [Option.some_or]
    constructor
    · rintro ⟨⟩
      exact .inl listed
    · rintro (member | ⟨absent, -⟩)
      · exact congrArg some (agree _ listed _ member rfl)
      · exact (absent _ listed rfl).elim

end Entries

/-- The path to a local that the receiver holds. -/
def MethodContext.heldPath? (method : MethodContext) (id : LocalId) : Option (List FieldRef) :=
  match method.locals.lookup id with
  | some (.captured .self path) => some path
  | _ => none

theorem MethodContext.heldPath?_eq_some_iff
    {method : MethodContext} {path : List FieldRef} :
    method.heldPath? id = some path ↔
      method.locals.lookup id = some (.captured .self path) := by
  unfold heldPath?
  split
  · next known => simp [known]
  · next other => exact ⟨nofun, fun known => (other _ known).elim⟩

/-! ## Scopes -/

namespace ClosureScope

variable {scope between next : ClosureScope} {decls : List LocalDecl} {method : MethodContext}
variable {field : FieldRef} {ref : Reference}

/-- The class of the scope has what a reference names. -/
def Defines (scope : ClosureScope) (ref : Reference) : Prop :=
  ∃ cls ∈ scope.toClass?, cls.Defines ref

/-- The fields through which captured locals are reached belong to the class of the scope. -/
structure WellFormed (scope : ClosureScope) : Prop where
  captured : ∀ entry ∈ scope.captured, scope.Defines (.field entry.2)
  selfField : ∀ field ∈ scope.selfField, scope.Defines (.field field)

/-- The class of the scope keeps its name and its fields. -/
structure Extends (scope next : ClosureScope) : Prop where
  name : ∀ name ∈ scope.name, next.name = some name
  fields : scope.fields ⊆ next.fields

theorem Extends.refl (scope : ClosureScope) : scope.Extends scope :=
  ⟨fun _ named => named, List.Subset.refl _⟩

theorem Extends.defines (grown : scope.Extends next) (defines : scope.Defines ref) :
    next.Defines ref := by
  obtain ⟨cls, made, defines⟩ := defines
  obtain ⟨name, named, rfl⟩ := Option.map_eq_some_iff.mp made
  refine ⟨_, by rw [toClass?, grown.name name named]; rfl, ?_⟩
  exact defines.mono rfl grown.fields (List.Subset.refl _)

theorem wellFormed_start (outer : String) : ({ outer } : ClosureScope).WellFormed := ⟨nofun, nofun⟩

/-- A new field of the class of the scope answers to its reference. -/
theorem defines_field
    (scope : ClosureScope) {owner : String} (field : FieldDef)
    (named : scope.name = some owner)
    (member : field ∈ scope.fields)
    (isInstance : field.isStatic = false) :
    scope.Defines (.field (.ofErased owner field.name field.type)) :=
  ⟨_, by rw [toClass?, named]; rfl, rfl, field, member, field.answers_ofErased owner isInstance⟩

theorem owner_of_name {cls : ClassContext} :
    ∀ name ∈ scope.name, some (scope.owner cls).1 = some name := by
  intro name named
  rw [owner, named]

/-- Capturing a local extends the scope, which then has its field. -/
theorem capture_spec (wellFormed : scope.WellFormed) (decl : LocalDecl) (cls : ClassContext) :
    (scope.capture decl cls).1.2.WellFormed ∧ scope.Extends (scope.capture decl cls).1.2 ∧
      (scope.capture decl cls).1.2.Defines (.field (scope.capture decl cls).1.1) := by
  unfold capture
  cases found : scope.field? decl.id with
  | some field => exact ⟨wellFormed, .refl scope, wellFormed.captured _ (mem_of_lookup found)⟩
  | none =>
    let made := (scope.addCaptured (scope.owner cls).1 decl).2
    have grown : scope.Extends made := ⟨owner_of_name, List.subset_append_left _ _⟩
    have defines : made.Defines (.field (scope.addCaptured (scope.owner cls).1 decl).1) := by
      refine made.defines_field
        { name := FieldDef.nameFor scope.fields decl.name decl.id, type := decl.type.erasure
          flags := AccessFlags.synthetic }
        rfl (List.mem_append_right _ (List.mem_singleton_self _)) ?_
      change (AccessFlags.synthetic &&& AccessFlags.static != 0) = false
      decide
    refine ⟨⟨?_, ?_⟩, grown, defines⟩
    · intro entry member
      obtain member | member := List.mem_append.mp member
      · exact grown.defines (wellFormed.captured entry member)
      · obtain rfl := List.mem_singleton.mp member
        exact defines
    · exact fun field member => grown.defines (wellFormed.selfField field member)

/-- Capturing `this` keeps the scope well formed. -/
theorem captureSelf_spec (wellFormed : scope.WellFormed) (cls : ClassContext) :
    (scope.captureSelf cls).1.2.WellFormed ∧ scope.Extends (scope.captureSelf cls).1.2 := by
  unfold captureSelf
  cases scope.selfField with
  | some field => exact ⟨wellFormed, .refl scope⟩
  | none =>
    let made := (scope.addSelf (scope.owner cls).1).2
    have grown : scope.Extends made := ⟨owner_of_name, List.subset_append_left _ _⟩
    refine ⟨⟨?_, ?_⟩, grown⟩
    · exact fun entry member => grown.defines (wellFormed.captured entry member)
    · rintro field ⟨⟩
      have defines : made.Defines (.field (scope.addSelf (scope.owner cls).1).1) := by
        refine made.defines_field
          { name := outerFieldName, type := .named scope.outer
            flags := AccessFlags.final ||| AccessFlags.synthetic }
          rfl (List.mem_append_right _ (List.mem_singleton_self _)) ?_
        change ((AccessFlags.final ||| AccessFlags.synthetic) &&& AccessFlags.static != 0) = false
        decide
      exact defines

theorem Defines.owner (defines : scope.Defines (.field field)) :
    scope.name = some field.owner := by
  obtain ⟨cls, made, owner, -⟩ := defines
  obtain ⟨name, named, rfl⟩ := Option.map_eq_some_iff.mp made
  rw [named, ← owner]
  rfl

/--
The scope of a body has one field for each local that it holds.  The body declares
these locals, and its receiver does not hold them.
-/
structure Serves
    (scope : ClosureScope)
    (decls : List LocalDecl)
    (method : MethodContext) :
    Prop where
  wellFormed : scope.WellFormed
  outer : scope.outer = method.className
  once : (scope.captured.map Prod.fst).Nodup
  declared : ∀ entry ∈ scope.captured, entry.1 ∈ decls.map LocalDecl.id
  unheld : ∀ entry ∈ scope.captured, method.heldPath? entry.1 = none
  selfType : ∀ field ∈ scope.selfField, field.type = .ofClass scope.outer

theorem serves_start (decls : List LocalDecl) (method : MethodContext) :
    ({ outer := method.className } : ClosureScope).Serves decls method :=
  ⟨wellFormed_start _, rfl, List.nodup_nil, nofun, nofun, nofun⟩

/-- The scope keeps the fields that it has given out. -/
structure Keeps (scope next : ClosureScope) : Prop where
  captured : scope.captured <+: next.captured
  selfField : ∀ field ∈ scope.selfField, next.selfField = some field

theorem Keeps.refl (scope : ClosureScope) : scope.Keeps scope :=
  ⟨List.prefix_rfl, fun _ known => known⟩

theorem Keeps.trans (first : scope.Keeps between) (second : between.Keeps next) :
    scope.Keeps next where
  captured := first.captured.trans second.captured
  selfField field known := second.selfField field (first.selfField field known)

theorem Keeps.field? (keeps : scope.Keeps next)
    (found : scope.field? id = some field) : next.field? id = some field := by
  obtain ⟨others, captured⟩ := keeps.captured
  rw [ClosureScope.field?] at found ⊢
  rw [← captured, List.lookup_append, found]
  rfl

theorem notMem_captured (missing : scope.field? id = none) :
    id ∉ scope.captured.map Prod.fst := by
  intro listed
  obtain ⟨entry, member, same⟩ := List.mem_map.mp listed
  have differs := List.lookup_eq_none_iff.mp missing entry member
  simp [same] at differs

namespace Serves

theorem field?_of_mem (serves : scope.Serves decls method)
    (member : (id, field) ∈ scope.captured) : scope.field? id = some field :=
  lookup_of_mem serves.once member

/-- Capturing a local of the body gives it a field if it has none. -/
theorem capture
    (serves : scope.Serves decls method)
    {decl : LocalDecl}
    (declared : decl ∈ decls)
    (unheld : method.heldPath? decl.id = none)
    (cls : ClassContext) :
    (scope.capture decl cls).1.2.Serves decls method ∧
      scope.Keeps (scope.capture decl cls).1.2 := by
  obtain ⟨wellFormed, -, -⟩ := scope.capture_spec serves.wellFormed decl cls
  cases found : scope.field? decl.id with
  | some field =>
    have same : (scope.capture decl cls).1.2 = scope := by simp [ClosureScope.capture, found]
    rw [same]
    exact ⟨serves, .refl scope⟩
  | none =>
    let field := (scope.addCaptured (scope.owner cls).1 decl).1
    have made : (scope.capture decl cls).1.2 = (scope.addCaptured (scope.owner cls).1 decl).2 := by
      simp [ClosureScope.capture, found]
    have captured :
        (scope.capture decl cls).1.2.captured = scope.captured ++ [(decl.id, field)] := by
      rw [made]
      rfl
    have absent := notMem_captured found
    refine ⟨⟨wellFormed, ?_, ?_, ?_, ?_, ?_⟩, ?_, ?_⟩
    · rw [made]
      exact serves.outer
    · rw [captured, List.map_append, List.map_singleton]
      exact serves.once.append (List.nodup_singleton _) (by simpa using absent)
    · rw [captured]
      refine List.forall_mem_append.mpr ⟨serves.declared, List.forall_mem_singleton.mpr ?_⟩
      exact List.mem_map_of_mem declared
    · rw [captured]
      exact List.forall_mem_append.mpr ⟨serves.unheld, List.forall_mem_singleton.mpr unheld⟩
    · rw [made]
      exact serves.selfType
    · rw [captured]
      exact List.prefix_append _ _
    · rw [made]
      exact fun field known => known

/-- Capturing the receiver changes nothing of the locals. -/
theorem captureSelf (serves : scope.Serves decls method) (cls : ClassContext) :
    (scope.captureSelf cls).1.2.Serves decls method ∧
      scope.Keeps (scope.captureSelf cls).1.2 ∧
        (scope.captureSelf cls).1.2.selfField = some (scope.captureSelf cls).1.1 := by
  obtain ⟨wellFormed, -⟩ := scope.captureSelf_spec serves.wellFormed cls
  cases found : scope.selfField with
  | some field =>
    have same : scope.captureSelf cls = ((field, scope), cls) := by
      simp [ClosureScope.captureSelf, found]
    rw [same]
    exact ⟨serves, .refl scope, found⟩
  | none =>
    have made : (scope.captureSelf cls).1 = scope.addSelf (scope.owner cls).1 := by
      simp [ClosureScope.captureSelf, found]
    rw [made] at wellFormed ⊢
    refine ⟨⟨wellFormed, serves.outer, serves.once, serves.declared, serves.unheld, ?_⟩,
      ⟨?_, ?_⟩, rfl⟩
    · rintro field ⟨⟩
      rfl
    · exact List.prefix_rfl
    · simp [found]

end Serves

end ClosureScope

/-! ## Plans -/

/-- The captures of a lambda among the locals it uses. -/
structure Captures.Cover
    (captures : Captures)
    (ids : List LocalId)
    (method : MethodContext)
    (scope : ClosureScope) :
    Prop where
  /-- A local that the receiver does not hold is in the scope. -/
  locals : ∀ entry ∈ captures.locals,
    entry.1 ∈ ids ∧ method.heldPath? entry.1 = none ∧ scope.field? entry.1 = some entry.2
  /-- A local that the receiver holds is passed on. -/
  outer : ∀ entry ∈ captures.outer, entry.1 ∈ ids ∧ method.heldPath? entry.1 = some entry.2
  /-- No local is forgotten. -/
  all : ∀ id ∈ ids, id ∈ captures.locals.map Prod.fst ∨ id ∈ captures.outer.map Prod.fst

theorem Captures.Cover.keeps
    {captures : Captures} {method : MethodContext} {next : ClosureScope}
    (cover : captures.Cover ids method scope)
    (keeps : scope.Keeps next) :
    captures.Cover ids method next where
  locals entry member := by
    obtain ⟨listed, unheld, found⟩ := cover.locals entry member
    exact ⟨listed, unheld, keeps.field? found⟩
  outer := cover.outer
  all := cover.all

/-- How captured locals are reached. -/
def Captures.references (captures : Captures) : List Reference :=
  captures.locals.map (fun entry => .field entry.2) ++
    captures.outer.flatMap fun entry => entry.2.map Reference.field

/-- A lambda captures the locals that are free in it, and its host leads to them. -/
structure LambdaPlan.Fits
    (plan : LambdaPlan)
    (method : MethodContext)
    (scope : ClosureScope) :
    Prop where
  cover : plan.captures.Cover plan.lambda.freeLocals method scope
  /-- From the scope, what the receiver holds is reached through the field for the receiver. -/
  scope : plan.host = .scope → plan.captures.outer ≠ [] → scope.selfField.isSome
  /-- From elsewhere, nothing of the scope is reached. -/
  elsewhere : plan.host ≠ .scope → plan.captures.locals = []
  static : plan.host = .static → plan.captures.outer = []

theorem LambdaPlan.Fits.keeps
    {method : MethodContext} {next : ClosureScope}
    (fits : plan.Fits method scope)
    (keeps : scope.Keeps next) :
    plan.Fits method next where
  cover := fits.cover.keeps keeps
  scope hosted passed := by
    obtain ⟨field, known⟩ := Option.isSome_iff_exists.mp (fits.scope hosted passed)
    rw [keeps.selfField field known]
    rfl
  elsewhere := fits.elsewhere
  static := fits.static

/-- What a lambda captures is in the scope or reached from the receiver. -/
theorem LambdaPlan.Fits.reaches
    {method : MethodContext}
    (fits : plan.Fits method scope)
    (wellFormed : scope.WellFormed) :
    ∀ ref ∈ plan.captures.references, scope.Defines ref ∨ ref ∈ method.references := by
  intro ref member
  obtain member | member := List.mem_append.mp member
  · obtain ⟨entry, listed, rfl⟩ := List.mem_map.mp member
    obtain ⟨-, -, found⟩ := fits.cover.locals entry listed
    exact .inl (wellFormed.captured _ (mem_of_lookup found))
  · obtain ⟨entry, listed, member⟩ := List.mem_flatMap.mp member
    obtain ⟨-, held⟩ := fits.cover.outer entry listed
    have access := MethodContext.heldPath?_eq_some_iff.mp held
    exact .inr (MethodContext.mem_references_of_access access ref member)

open Emit in
/-- How a lambda reaches a local is determined by where the body around it has the local. -/
theorem LambdaPlan.Fits.agree
    {method : MethodContext}
    (fits : plan.Fits method scope)
    (home : LambdaHome) :
    ∀ first ∈ capturedAccess home plan.captures, ∀ second ∈ capturedAccess home plan.captures,
      first.1 = second.1 → first.2 = second.2 := by
  let access (id : LocalId) : Option LocalAccess :=
    match method.heldPath? id with
    | some path => some (.captured .self (home.path ++ path))
    | none => (scope.field? id).map fun field => .captured .self [field]
  have determined : ∀ entry ∈ capturedAccess home plan.captures, access entry.1 = some entry.2 := by
    intro entry member
    obtain member | member := List.mem_append.mp member
    · obtain ⟨captured, listed, rfl⟩ := List.mem_map.mp member
      obtain ⟨-, unheld, found⟩ := fits.cover.locals captured listed
      simp only [access, unheld, found, Option.map_some]
    · obtain ⟨captured, listed, rfl⟩ := List.mem_map.mp member
      obtain ⟨-, held⟩ := fits.cover.outer captured listed
      simp only [access, held]
  intro first firstMember second secondMember same
  have firstAccess := determined first firstMember
  rw [same, determined second secondMember] at firstAccess
  exact (Option.some.inj firstAccess).symm

/-- What hosts a lambda, with the way from there to the receiver of the body around it. -/
inductive LambdaHome.Hosts (home : LambdaHome) (scope : ClosureScope) (className : String) :
    LambdaHost → Prop where
  | scope
      (owner : scope.name = some home.owner)
      (path : home.path = scope.selfField.toList) :
      Hosts home scope className .scope
  | receiver
      (owner : home.owner = className)
      (path : home.path = []) :
      Hosts home scope className .receiver
  | static : Hosts home scope className .static

namespace Emit

section Planning

variable {decls : List LocalDecl} {before after : Emission}
variable {scope next : ClosureScope} {span : Span} {result : Captures × ClosureScope}

/-- Either the receiver holds a local and passes it on, or the scope has a field for it. -/
theorem captureLocal_cases
    {captures : Captures}
    (success : captureLocal decls span (captures, scope) id before = .ok result after) :
    after.method = before.method ∧
      ((∃ path, before.method.heldPath? id = some path ∧
          result = ({ captures with outer := captures.outer ++ [(id, path)] }, scope)) ∨
        before.method.heldPath? id = none ∧
          ∃ decl, LocalDecl.lookup? decls id = some decl ∧
            result =
              ({ captures with
                  locals := captures.locals ++ [(id, (scope.capture decl before.cls).1.1)] },
                (scope.capture decl before.cls).1.2)) := by
  rw [captureLocal, method_bind] at success
  cases held : before.method.heldPath? id with
  | some path =>
    rw [MethodContext.heldPath?_eq_some_iff.mp held] at success
    obtain ⟨rfl, rfl⟩ := pure_ok.mp success
    exact ⟨rfl, .inl ⟨path, rfl, rfl⟩⟩
  | none =>
    rcases known : before.method.locals.lookup id with _ | ⟨slot, kind⟩ | ⟨_ | slot, path⟩
    pick_goal 3
    · rw [MethodContext.heldPath?_eq_some_iff.mpr known] at held
      contradiction
    all_goals
      rw [known] at success
      cases looked : LocalDecl.lookup? decls id with
      | none =>
        rw [looked] at success
        exact (throw_ok.mp success).elim
      | some decl =>
        rw [looked] at success
        obtain ⟨_, _, took, rest⟩ := bind_ok.mp success
        obtain ⟨rfl, rfl⟩ := takeClass_ok.mp took
        obtain ⟨rfl, rfl⟩ := pure_ok.mp rest
        exact ⟨rfl, .inr ⟨rfl, decl, rfl, rfl⟩⟩

/-- A local that is captured is covered by the captures. -/
theorem captureLocal_covers
    {state : Captures × ClosureScope}
    (serves : state.2.Serves decls before.method)
    (cover : state.1.Cover ids before.method state.2)
    (success : captureLocal decls span state id before = .ok result after) :
    after.method = before.method ∧ result.2.Serves decls before.method ∧
      state.2.Keeps result.2 ∧ result.1.Cover (ids ++ [id]) before.method result.2 := by
  obtain ⟨captures, scope⟩ := state
  obtain ⟨same, ⟨path, held, rfl⟩ | ⟨unheld, decl, looked, rfl⟩⟩ := captureLocal_cases success
  · refine ⟨same, serves, .refl scope, ?_, ?_, ?_⟩
    · intro entry member
      obtain ⟨listed, found⟩ := cover.locals entry member
      exact ⟨List.mem_append_left _ listed, found⟩
    · refine List.forall_mem_append.mpr ⟨fun entry member => ?_, List.forall_mem_singleton.mpr ?_⟩
      · obtain ⟨listed, found⟩ := cover.outer entry member
        exact ⟨List.mem_append_left _ listed, found⟩
      · exact ⟨by simp, held⟩
    · refine List.forall_mem_append.mpr ⟨fun other listed => ?_, List.forall_mem_singleton.mpr ?_⟩
      · refine (cover.all other listed).imp_right fun member => ?_
        rw [List.map_append]
        exact List.mem_append_left _ member
      · exact .inr (by simp)
  · obtain ⟨declared, rfl⟩ := LocalDecl.lookup?_eq_some looked
    obtain ⟨servesNext, keeps⟩ := serves.capture declared unheld before.cls
    have captured := scope.field?_capture decl before.cls
    have kept := cover.keeps keeps
    refine ⟨same, servesNext, keeps, ?_, ?_, ?_⟩
    · refine List.forall_mem_append.mpr ⟨fun entry member => ?_, List.forall_mem_singleton.mpr ?_⟩
      · obtain ⟨listed, found⟩ := kept.locals entry member
        exact ⟨List.mem_append_left _ listed, found⟩
      · exact ⟨by simp, unheld, captured⟩
    · intro entry member
      obtain ⟨listed, found⟩ := kept.outer entry member
      exact ⟨List.mem_append_left _ listed, found⟩
    · refine List.forall_mem_append.mpr ⟨fun other listed => ?_, List.forall_mem_singleton.mpr ?_⟩
      · refine (kept.all other listed).imp_left fun member => ?_
        rw [List.map_append]
        exact List.mem_append_left _ member
      · exact .inl (by simp)

/-- All locals of a lambda are covered by its captures. -/
theorem captureLocals_covers
    {state : Captures × ClosureScope} {known : List LocalId}
    (serves : state.2.Serves decls before.method)
    (cover : state.1.Cover known before.method state.2)
    (success : ids.foldlM (captureLocal decls span) state before = .ok result after) :
    after.method = before.method ∧ result.2.Serves decls before.method ∧
      state.2.Keeps result.2 ∧ result.1.Cover (known ++ ids) before.method result.2 := by
  induction ids generalizing state known before with
  | nil =>
    obtain ⟨rfl, rfl⟩ := pure_ok.mp success
    rw [List.append_nil]
    exact ⟨rfl, serves, .refl _, cover⟩
  | cons id ids ih =>
    rw [List.foldlM_cons] at success
    obtain ⟨next, between, captured, rest⟩ := bind_ok.mp success
    obtain ⟨same, servesNext, keeps, covers⟩ := captureLocal_covers serves cover captured
    rw [← same] at servesNext covers
    obtain ⟨sameAfter, servesResult, keepsMore, coversAll⟩ :=
      ih servesNext covers rest
    rw [same] at sameAfter servesResult coversAll
    rw [List.append_assoc] at coversAll
    exact ⟨sameAfter, servesResult, keeps.trans keepsMore, coversAll⟩

/-- The home of a lambda leads to everything that it captures. -/
theorem chooseHost_fits
    {lambda : Lambda} {captures : Captures} {host : LambdaHost}
    (serves : scope.Serves decls before.method)
    (cover : captures.Cover lambda.freeLocals before.method scope)
    (success : chooseHost lambda captures scope before = .ok (host, next) after) :
    after.method = before.method ∧ next.Serves decls before.method ∧ scope.Keeps next ∧
      LambdaPlan.Fits { lambda, host, captures } before.method next := by
  unfold chooseHost at success
  split_ifs at success with some outer outer
  · obtain ⟨_, _, took, rest⟩ := bind_ok.mp success
    obtain ⟨rfl, rfl⟩ := takeClass_ok.mp took
    obtain ⟨same, rfl⟩ := pure_ok.mp rest
    obtain ⟨rfl, rfl⟩ := Prod.mk.inj same
    obtain ⟨servesNext, keeps, selfField⟩ := serves.captureSelf before.cls
    refine ⟨rfl, servesNext, keeps, cover.keeps keeps, ?_, nofun, nofun⟩
    intro _ _
    rw [selfField]
    rfl
  · obtain ⟨same, rfl⟩ := pure_ok.mp success
    obtain ⟨rfl, rfl⟩ := Prod.mk.inj same
    refine ⟨rfl, serves, .refl _, cover, ?_, nofun, nofun⟩
    intro _ passed
    simp_all
  · have rest := method_bind_eq.mp success
    split_ifs at rest
    · exact (throw_ok.mp rest).elim
    · obtain ⟨same, rfl⟩ := pure_ok.mp rest
      obtain ⟨rfl, rfl⟩ := Prod.mk.inj same
      exact ⟨rfl, serves, .refl _, cover, nofun, fun _ => by simpa using some, nofun⟩
  · obtain ⟨same, rfl⟩ := pure_ok.mp success
    obtain ⟨rfl, rfl⟩ := Prod.mk.inj same
    refine ⟨rfl, serves, .refl _, cover, nofun, fun _ => by simpa using some, fun _ => ?_⟩
    simp_all

/-- The plan of a lambda fits the scope that it leaves. -/
theorem planLambda_fits
    {lambda : Lambda}
    (serves : scope.Serves decls before.method)
    (success : planLambda decls scope lambda before = .ok (plan, next) after) :
    after.method = before.method ∧ next.Serves decls before.method ∧ scope.Keeps next ∧
      plan.Fits before.method next := by
  obtain ⟨⟨captures, inner⟩, between, captured, rest⟩ := bind_ok.mp success
  obtain ⟨⟨host, outer⟩, last, chosen, rest⟩ := bind_ok.mp rest
  obtain ⟨same, rfl⟩ := pure_ok.mp rest
  obtain ⟨rfl, rfl⟩ := Prod.mk.inj same
  have none : ({} : Captures).Cover [] before.method scope := ⟨nofun, nofun, nofun⟩
  obtain ⟨sameBetween, servesInner, keeps, covers⟩ :=
    captureLocals_covers (by exact serves) (by exact none) captured
  rw [List.nil_append] at covers
  rw [← sameBetween] at servesInner covers
  obtain ⟨sameAfter, servesNext, keepsMore, fits⟩ := chooseHost_fits servesInner covers chosen
  rw [sameBetween] at sameAfter servesNext fits
  exact ⟨sameAfter, servesNext, keeps.trans keepsMore, fits⟩

/-- Every lambda of a body is planned for the scope that they share in the end. -/
theorem planLambdas_fits
    {lambdas : List Lambda} {plans : List LambdaPlan}
    (serves : scope.Serves decls before.method)
    (success : planLambdas decls lambdas scope before = .ok (plans, next) after) :
    after.method = before.method ∧ next.Serves decls before.method ∧ scope.Keeps next ∧
      ∀ plan ∈ plans, plan.Fits before.method next := by
  induction lambdas generalizing scope plans next before with
  | nil =>
    obtain ⟨same, rfl⟩ := pure_ok.mp success
    cases same
    exact ⟨rfl, serves, .refl _, nofun⟩
  | cons lambda lambdas ih =>
    obtain ⟨⟨plan, inner⟩, between, planned, rest⟩ := bind_ok.mp success
    obtain ⟨⟨others, outer⟩, last, planning, rest⟩ := bind_ok.mp rest
    obtain ⟨same, rfl⟩ := pure_ok.mp rest
    cases same
    obtain ⟨sameBetween, servesInner, keeps, fits⟩ := planLambda_fits serves planned
    rw [← sameBetween] at servesInner
    obtain ⟨sameAfter, servesNext, keepsMore, fitsMore⟩ := ih servesInner planning
    rw [sameBetween] at sameAfter servesNext fitsMore
    refine ⟨sameAfter, servesNext, keeps.trans keepsMore, ?_⟩
    exact List.forall_mem_cons.mpr ⟨fits.keeps keepsMore, fitsMore⟩

/-- The home of a lambda is that of its host. -/
theorem lambdaHome_hosts
    {slot : Option Nat} {host : LambdaHost} {home : LambdaHome}
    (success : lambdaHome scope slot host before = .ok home after) :
    home.Hosts scope before.method.className host := by
  obtain ⟨-, ⟨rfl, owner, named, rfl⟩ | ⟨rfl, rfl⟩ | ⟨rfl, rfl⟩⟩ := lambdaHome_cases success
  · exact .scope named rfl
  · exact .receiver rfl rfl
  · exact .static

end Planning

/-! ## The scope object -/

/-- The instructions that make an object of a class and store it in a slot. -/
def makingObject (className : String) (slot : Nat) : List Instruction :=
  [.new className, .plain .dup, .invoke (Library.constructor className), .store .reference slot]

/-- What lies between making the scope object and rebinding the captured locals. -/
theorem plain_fillScope
    (scope : ClosureScope) (slot : Nat) (params : List LocalDecl) :
    Plainly [] (do
      scope.selfField.forM fun field => do
        loadRef slot
        loadRef 0
        putField field
      fillScope scope slot params) := by
  refine .seq (.optionForM _ fun field _ => ?_) (.fillScope (fun _ _ _ => trivial) ?_ slot params)
  · exact .seq (.load _ _) (.seq (.load _ _) (.putField trivial fun _ => trivial))
  · exact fun _ => trivial

section Making

variable {scope : ClosureScope} {params : List LocalDecl} {before after : Emission}

/-- The scope object is made first; in the end, every captured local lives in its field. -/
theorem makeScope_ok
    {name : String} {slot : Nat}
    (success : makeScope scope name params before = .ok slot after) :
    after.method.className = before.method.className ∧
      after.method.locals =
        (scope.captured.map fun entry => (entry.1, .captured (.slot slot) [entry.2])).reverse ++
          before.method.locals ∧
      ∃ position, after.code.Holds position (makingObject name slot) := by
  obtain ⟨slot, reserved, reserving, rest⟩ := bind_ok.mp success
  obtain ⟨created, creating, rest⟩ := seq_ok.mp rest
  obtain ⟨stored, storing, rest⟩ := seq_ok.mp rest
  obtain ⟨linked, linking, rest⟩ := seq_ok.mp rest
  obtain ⟨filled, filling, rest⟩ := seq_ok.mp rest
  obtain ⟨bound, binding, rest⟩ := seq_ok.mp rest
  obtain ⟨rfl, rfl⟩ := pure_ok.mp rest
  obtain ⟨-, rfl⟩ := newTemp_ok.mp reserving
  have emits : Emits (makingObject name slot) (do newObject name; storeRef slot) :=
    .seq (.seq (.emit _) (.seq (.emit _) (.emit _))) (.emit _)
  have making : (do newObject name; storeRef slot) _ = .ok () stored :=
    seq_ok.mpr ⟨_, creating, storing⟩
  rw [emits, EStateM.Result.ok.injEq] at making
  obtain ⟨-, rfl⟩ := making
  have plain := plain_fillScope scope slot params
  have same := plain.method_eq (MethodContext.storesTo_all _) (seq_ok.mpr ⟨_, linking, filling⟩)
  obtain ⟨advances, -⟩ :=
    plain.advances (MethodContext.storesTo_all _) (seq_ok.mpr ⟨_, linking, filling⟩)
  rw [forM_setAccess_ok binding]
  refine ⟨?_, ?_, before.size, ?_⟩
  · rw [Emission.method_mapMethod, same]
    rfl
  · rw [Emission.method_mapMethod, same]
    rfl
  · refine advances.holds ?_
    have instructions : (before.code.allocate none (.ofClass name)).2.instructions =
        before.code.instructions := Code.instructions_allocate _ _ _
    simp only [Emission.code_mapCode, Code.Holds, Code.toList_foldl_emit, instructions,
      Emission.size, Code.size, ← Array.length_toList, List.drop_left]
    exact List.prefix_rfl

/-- How a body with a scope reaches its locals. -/
theorem makeScope?_ok
    {decls : List LocalDecl} {method : MethodContext} {slot : Option Nat}
    (serves : scope.Serves decls method)
    (success : makeScope? scope params before = .ok slot after) :
    after.method.className = before.method.className ∧
      (∀ id holder path, after.method.locals.lookup id = some (.captured holder path) ↔
        (∃ found field, slot = some found ∧ scope.field? id = some field ∧
          holder = .slot found ∧ path = [field]) ∨
        scope.field? id = none ∧ before.method.locals.lookup id = some (.captured holder path)) ∧
      ∀ found ∈ slot, ∃ name ∈ scope.name, ∃ position,
        after.code.Holds position (makingObject name found) := by
  unfold makeScope? at success
  cases named : scope.name with
  | none =>
    rw [named] at success
    obtain ⟨rfl, rfl⟩ := pure_ok.mp success
    have empty : ∀ id, scope.field? id = none := by
      intro id
      rw [Option.eq_none_iff_forall_ne_some]
      intro field found
      have owner := (serves.wellFormed.captured _ (mem_of_lookup found)).owner
      rw [named] at owner
      contradiction
    exact ⟨rfl, by simp [empty], nofun⟩
  | some name =>
    rw [named] at success
    obtain ⟨found, _, making, rest⟩ := bind_ok.mp success
    obtain ⟨rfl, rfl⟩ := pure_ok.mp rest
    obtain ⟨className, locals, stored⟩ := makeScope_ok making
    refine ⟨className, ?_, ?_⟩
    · intro id holder path
      have absent : (∀ entry ∈ scope.captured, entry.1 ≠ id) ↔ scope.field? id = none := by
        simp only [ClosureScope.field?, List.lookup_eq_none_iff, bne_iff_ne]
        exact forall₂_congr fun _ _ => ne_comm
      rw [locals, lookup_reverse_append]
      · rw [List.forall_mem_map, absent]
        refine or_congr_left ⟨fun member => ?_, ?_⟩
        · obtain ⟨⟨_, field⟩, listed, ⟨⟩⟩ := List.mem_map.mp member
          exact ⟨found, field, rfl, serves.field?_of_mem listed, rfl, rfl⟩
        · rintro ⟨_, field, ⟨⟩, held, rfl, rfl⟩
          exact List.mem_map.mpr ⟨_, mem_of_lookup held, rfl⟩
      · simp only [List.forall_mem_map]
        intro first firstMember second secondMember same
        have firstField := serves.field?_of_mem firstMember
        have secondField := serves.field?_of_mem secondMember
        rw [same, secondField] at firstField
        rw [Option.some.inj firstField]
    · rintro _ ⟨⟩
      exact ⟨name, rfl, stored⟩

end Making

end Emit
end StackCode
