import StackCode.Bridge
import StackCode.Proofs.Finishing
import StackCode.Proofs.Linking

/-!
# The bridges that a class gets

Each declared method is set beside the methods that it overrides, in the order of
the class.  A bridge is needed where the erased signatures differ and no declared
method has the one of the bridge; the first pair that needs a bridge gets it, and
later ones share it.  Bridges compare accessibility and a variable number of
arguments as part of the signature.
-/

namespace StackCode

variable {owner : String}

/-- A declared method together with one that it overrides. -/
structure Overriding where
  /-- The declared method. -/
  method : MethodDecl
  /-- The method that it overrides. -/
  overridden : MethodSignature

/-- A method that can override others, set beside each of those it overrides. -/
def MethodDecl.overridings (method : MethodDecl) : List Overriding :=
  if method.isStatic || method.isPrivate then [] else method.overrides.map fun overridden =>
    { method, overridden }

/-- The methods of a class beside the ones they override, in the order of the class. -/
def ClassDecl.overridings (cls : ClassDecl) : List Overriding :=
  cls.methods.flatMap MethodDecl.overridings

variable {overriding : Overriding}

/-- Methods that are neither static nor private override. -/
theorem ClassDecl.mem_overridings {cls : ClassDecl} :
    overriding ∈ cls.overridings ↔
      overriding.method ∈ cls.methods ∧ overriding.method.isStatic = false ∧
        overriding.method.isPrivate = false ∧
          overriding.overridden ∈ overriding.method.overrides := by
  simp only [ClassDecl.overridings, MethodDecl.overridings, List.mem_flatMap]
  constructor
  · rintro ⟨method, listed, member⟩
    split at member
    · contradiction
    · next overrides =>
      obtain ⟨overridden, among, rfl⟩ := List.mem_map.mp member
      simp only [Bool.or_eq_true, not_or, Bool.not_eq_true] at overrides
      exact ⟨listed, overrides.1, overrides.2, among⟩
  · rintro ⟨listed, isInstance, visible, among⟩
    refine ⟨overriding.method, listed, ?_⟩
    rw [isInstance, visible]
    exact List.mem_map_of_mem among

/-- The erased signatures of the declared methods. -/
def ClassDecl.signatures (cls : ClassDecl) : List ErasedSignature :=
  cls.methods.map MethodDecl.erasedSignature

/-- The erased signature of a generated method. -/
def MethodDef.erasedSignature (method : MethodDef) : ErasedSignature :=
  { name := method.name
    params := method.params
    ret := method.ret
    flags := method.flags.bridged }

/-- Name, erased parameter types and erased result type, without any access bits. -/
def ErasedSignature.bare (signature : ErasedSignature) : String × List Erased × Erased :=
  (signature.name, signature.params, signature.ret)

namespace Overriding

/-- The signature under which the overridden method is called. -/
def signature (overriding : Overriding) : ErasedSignature :=
  overriding.method.bridgeSignature overriding.overridden

/-- Both methods have the same number of parameters. -/
def SameArity (overriding : Overriding) : Prop :=
  overriding.overridden.params.length = overriding.method.params.length

/-- The erased types of the parameters or of the results are not the same. -/
def Differs (overriding : Overriding) : Prop :=
  overriding.signature.params ≠ overriding.method.erasedParams ∨
    overriding.signature.ret ≠ overriding.method.ret.erasure

/-- A bridge would have to turn a parameter of another erased type into a primitive value. -/
def Narrows (overriding : Overriding) : Prop :=
  ∃ types ∈ overriding.signature.params.zip overriding.method.erasedParams,
    types.1 ≠ types.2 ∧ types.2.isReference = false

/-- A method with the overridden signature is needed and not declared. -/
def Needs (declared : List ErasedSignature) (overriding : Overriding) : Prop :=
  overriding.Differs ∧ overriding.signature ∉ declared

/-- The pair at an index is the first one that needs the bridge with its signature. -/
structure FirstNeeds
    (declared : List ErasedSignature)
    (overridings : List Overriding)
    (index : Nat)
    (overriding : Overriding) : Prop where
  found : overridings[index]? = some overriding
  needs : overriding.Needs declared
  first : ∀ earlier < index, ∀ other, overridings[earlier]? = some other →
    other.Needs declared → other.signature ≠ overriding.signature

/-- Some pair has no bridge. -/
def Fail (declared : List ErasedSignature) (overridings : List Overriding) : Prop :=
  (∃ overriding ∈ overridings, ¬overriding.SameArity) ∨
    ∃ index overriding, FirstNeeds declared overridings index overriding ∧ overriding.Narrows

variable {declared : List ErasedSignature} {overridings : List Overriding}
variable {overriding other : Overriding} {index : Nat}

theorem FirstNeeds.lt_length (first : FirstNeeds declared overridings index overriding) :
    index < overridings.length :=
  (List.getElem?_eq_some_iff.mp first.found).1

theorem FirstNeeds.append
    (first : FirstNeeds declared overridings index overriding)
    (more : List Overriding) :
    FirstNeeds declared (overridings ++ more) index overriding := by
  have inside := first.lt_length
  refine ⟨?_, first.needs, ?_⟩
  · rw [List.getElem?_append_left inside]
    exact first.found
  · intro earlier before other found
    rw [List.getElem?_append_left (by omega)] at found
    exact first.first earlier before other found

/-- Whether a pair is the first to need its bridge depends on the pairs before it only. -/
theorem firstNeeds_concat :
    FirstNeeds declared (overridings ++ [other]) index overriding ↔
      FirstNeeds declared overridings index overriding ∨
        index = overridings.length ∧ overriding = other ∧ other.Needs declared ∧
          ∀ earlier ∈ overridings, earlier.Needs declared →
            earlier.signature ≠ other.signature := by
  constructor
  · intro first
    have inside := first.lt_length
    rw [List.length_append, List.length_singleton] at inside
    obtain before | last : index < overridings.length ∨ index = overridings.length := by omega
    · refine .inl ⟨?_, first.needs, ?_⟩
      · rw [← List.getElem?_append_left before]
        exact first.found
      · intro earlier smaller other found
        rw [← List.getElem?_append_left (by omega)] at found
        exact first.first earlier smaller other found
    · subst last
      have same : other = overriding := by simpa using first.found
      subst same
      refine .inr ⟨rfl, rfl, first.needs, ?_⟩
      intro earlier member
      obtain ⟨position, smaller, found⟩ := List.mem_iff_getElem.mp member
      refine first.first position smaller earlier ?_
      rw [List.getElem?_append_left smaller, List.getElem?_eq_getElem smaller, found]
  · rintro (first | ⟨rfl, rfl, needs, first⟩)
    · exact first.append _
    · refine ⟨by simp, needs, ?_⟩
      intro earlier smaller candidate found
      rw [List.getElem?_append_left smaller] at found
      exact first candidate (List.mem_of_getElem? found)

theorem Fail.append (fail : Fail declared overridings) (more : List Overriding) :
    Fail declared (overridings ++ more) := by
  obtain ⟨overriding, member, differs⟩ | ⟨index, overriding, first, narrows⟩ := fail
  · exact .inl ⟨overriding, List.mem_append_left _ member, differs⟩
  · exact .inr ⟨index, overriding, first.append more, narrows⟩

end Overriding

/-! ## One bridge -/

/-- A sequence of steps succeeds exactly when each step does. -/
theorem except_mapM_ok_iff {values : List α} {step : α → Except Error β} :
    (∃ results, values.mapM step = .ok results) ↔
      ∀ value ∈ values, ∃ result, step value = .ok result := by
  induction values with
  | nil => simp [pure, Except.pure]
  | cons value values ih =>
    rw [List.forall_mem_cons, ← ih]
    simp only [List.mapM_cons, except_bind_ok]
    constructor
    · rintro ⟨_, result, first, results, rest, -⟩
      exact ⟨⟨result, first⟩, results, rest⟩
    · rintro ⟨⟨result, first⟩, results, rest⟩
      exact ⟨result :: results, result, first, results, rest, rfl⟩

/-- An argument is loaded, and cast where the types differ; it cannot become a primitive value. -/
theorem forwardArgument_ok_iff
    {methodName : String} {source target : Erased} {slot : Nat} {code : List Instruction} :
    forwardArgument owner methodName source target slot = .ok code ↔
      (source ≠ target → target.isReference = true) ∧
        code = .load source.kind slot ::
          if source = target then [] else [.checkCast target.internalName] := by
  unfold forwardArgument
  dsimp only
  split_ifs with same reference
  · simp only [same, ne_eq, not_true_eq_false, false_implies, true_and, Except.ok.injEq, eq_comm]
  · simp only [reference, implies_true, true_and, Except.ok.injEq, eq_comm]
  · simp [same, reference]

theorem AccessFlags.or_and (flags more mask : AccessFlags) :
    (flags ||| more) &&& mask = (flags &&& mask) ||| (more &&& mask) := by
  rw [← UInt16.toBitVec_inj]
  simp only [UInt16.toBitVec_and, UInt16.toBitVec_or]
  exact BitVec.and_or_distrib_right

/-- The bits that a bridge has in addition are not among those of its signature. -/
theorem AccessFlags.bridged_marked (flags : AccessFlags) :
    (flags.bridged ||| AccessFlags.bridge ||| AccessFlags.synthetic).bridged = flags.bridged := by
  have marks : AccessFlags.bridge.bridged = 0 ∧ AccessFlags.synthetic.bridged = 0 := by decide
  unfold AccessFlags.bridged at marks ⊢
  rw [AccessFlags.or_and, AccessFlags.or_and, marks.1, marks.2, UInt16.or_zero, UInt16.or_zero,
    UInt16.and_assoc, UInt16.and_self]

theorem buildBridge_signature
    {bridge : MethodDef}
    (success : buildBridge owner overriding.method overriding.signature = .ok bridge) :
    bridge.erasedSignature = overriding.signature := by
  obtain ⟨arguments, -, made⟩ := except_bind_ok.mp success
  cases made
  rw [MethodDef.erasedSignature]
  dsimp only
  rw [show overriding.signature.flags = overriding.method.flags.bridged from rfl,
    AccessFlags.bridged_marked]
  rfl

/-- Beside a list that is long enough, every element of a list has an entry. -/
theorem forall_mem_zip_fst
    {left : List α} {right : List β}
    (enough : left.length ≤ right.length)
    (Holds : α → Prop) :
    (∀ entry ∈ left.zip right, Holds entry.1) ↔ ∀ value ∈ left, Holds value := by
  rw [← List.forall_mem_map (f := Prod.fst) (P := Holds), List.map_fst_zip enough]

/-- A bridge can be built unless it has to turn an argument into a primitive value. -/
theorem buildBridge_ok_iff :
    (∃ bridge, buildBridge owner overriding.method overriding.signature = .ok bridge) ↔
      ¬overriding.Narrows := by
  have enough : (overriding.signature.params.zip overriding.method.erasedParams).length ≤
      (parameterSlots 1 overriding.signature.params).1.length := by
    rw [List.length_zip, length_parameterSlots]
    exact Nat.min_le_left _ _
  let entries := (overriding.signature.params.zip overriding.method.erasedParams).zip
    (parameterSlots 1 overriding.signature.params).1
  calc
    (∃ bridge, buildBridge owner overriding.method overriding.signature = .ok bridge) ↔
        ∃ arguments, entries.mapM (fun entry => forwardArgument owner overriding.method.name
          entry.1.1 entry.1.2 entry.2) = .ok arguments := by
      constructor
      · rintro ⟨bridge, success⟩
        obtain ⟨arguments, forwarded, -⟩ := except_bind_ok.mp success
        exact ⟨arguments, forwarded⟩
      · rintro ⟨arguments, forwarded⟩
        exact ⟨_, except_bind_ok.mpr ⟨arguments, forwarded, rfl⟩⟩
    _ ↔ ∀ entry ∈ entries, entry.1.1 ≠ entry.1.2 → entry.1.2.isReference = true := by
      simp only [except_mapM_ok_iff, forwardArgument_ok_iff, exists_eq_right]
    _ ↔ ∀ types ∈ overriding.signature.params.zip overriding.method.erasedParams,
        types.1 ≠ types.2 → types.2.isReference = true :=
      forall_mem_zip_fst enough fun types => types.1 ≠ types.2 → types.2.isReference = true
    _ ↔ ¬overriding.Narrows := by
      simp only [Overriding.Narrows, not_exists, not_and, Bool.not_eq_false]

/-! ## Collected bridges -/

namespace Bridging

/-- The bridges of the pairs that were gone through, one for each pair that was the first to
need it. -/
structure Collected
    (owner : String)
    (declared : List ErasedSignature)
    (overridings : List Overriding)
    (state : Bridging) : Prop where
  arity : ∀ overriding ∈ overridings, overriding.SameArity
  wide : ∀ index overriding, Overriding.FirstNeeds declared overridings index overriding →
    ¬overriding.Narrows
  taken : state.taken = declared ++ state.bridges.map MethodDef.erasedSignature
  served : ∀ overriding ∈ overridings, overriding.Needs declared →
    overriding.signature ∈ state.bridges.map MethodDef.erasedSignature
  once : (state.bridges.map MethodDef.erasedSignature).Nodup
  ordered : ∃ indices : List Nat,
    indices.Pairwise (· < ·) ∧
      (∀ index, index ∈ indices ↔
        ∃ overriding, Overriding.FirstNeeds declared overridings index overriding) ∧
      List.Forall₂ (fun index bridge => ∃ overriding,
        Overriding.FirstNeeds declared overridings index overriding ∧
          buildBridge owner overriding.method overriding.signature = .ok bridge) indices
        state.bridges

/-- The result of going through pairs: their bridges, or a pair that can have none. -/
def Result.Collects
    (owner : String)
    (declared : List ErasedSignature)
    (overridings : List Overriding) :
    EStateM.Result Error Bridging Unit → Prop
  | .ok _ state => Collected owner declared overridings state
  | .error _ _ => Overriding.Fail declared overridings

variable {owner : String} {declared : List ErasedSignature} {overridings : List Overriding}
variable {overriding : Overriding} {state : Bridging}

theorem Collected.start (owner : String) (declared : List ErasedSignature) :
    Collected owner declared [] { taken := declared } where
  arity := by simp
  wide index overriding first := absurd first.lt_length (by simp)
  taken := by simp
  served := by simp
  once := List.nodup_nil
  ordered := by
    refine ⟨[], List.Pairwise.nil, fun index => ?_, .nil⟩
    simp only [List.not_mem_nil, false_iff]
    rintro ⟨overriding, first⟩
    exact absurd first.lt_length (by simp)

section Pairs

variable (collected : Collected owner declared overridings state)
include collected

/-- Every bridge was built for a pair that needs it. -/
theorem Collected.built
    {bridge : MethodDef}
    (member : bridge ∈ state.bridges) :
    ∃ overriding ∈ overridings, overriding.Needs declared ∧
      buildBridge owner overriding.method overriding.signature = .ok bridge := by
  obtain ⟨indices, -, -, built⟩ := collected.ordered
  obtain ⟨index, -, overriding, first, made⟩ := exists_of_mem_right built member
  exact ⟨overriding, List.mem_of_getElem? first.found, first.needs, made⟩

theorem Collected.not_fail : ¬Overriding.Fail declared overridings := by
  rintro (⟨overriding, member, differs⟩ | ⟨index, overriding, first, narrows⟩)
  · exact differs (collected.arity overriding member)
  · exact collected.wide index overriding first narrows

/-- What was collected depends on the bridges and the taken signatures only. -/
theorem Collected.congr
    {other : Bridging}
    (taken : other.taken = state.taken)
    (bridges : other.bridges = state.bridges) :
    Collected owner declared overridings other where
  arity := collected.arity
  wide := collected.wide
  taken := by rw [taken, bridges]; exact collected.taken
  served := by rw [bridges]; exact collected.served
  once := by rw [bridges]; exact collected.once
  ordered := by rw [bridges]; exact collected.ordered

/-- A pair that is not the first to need a bridge adds none. -/
theorem Collected.skip
    (arity : overriding.SameArity)
    (served : overriding.Needs declared →
      overriding.signature ∈ state.bridges.map MethodDef.erasedSignature) :
    Collected owner declared (overridings ++ [overriding]) state := by
  obtain ⟨indices, ascending, listed, built⟩ := collected.ordered
  -- Whoever got the bridge stands earlier and needed it too.
  have notFirst : ∀ index candidate,
      Overriding.FirstNeeds declared (overridings ++ [overriding]) index candidate ↔
        Overriding.FirstNeeds declared overridings index candidate := by
    intro index candidate
    rw [Overriding.firstNeeds_concat]
    refine or_iff_left ?_
    rintro ⟨-, -, needs, first⟩
    obtain ⟨bridge, member, same⟩ := List.mem_map.mp (served needs)
    obtain ⟨earlier, among, needed, made⟩ := collected.built member
    refine first earlier among needed ?_
    rw [← buildBridge_signature made, same]
  refine ⟨?_, ?_, collected.taken, ?_, collected.once, indices, ascending, ?_, ?_⟩
  · exact List.forall_mem_append.mpr ⟨collected.arity, List.forall_mem_singleton.mpr arity⟩
  · intro index candidate first
    exact collected.wide index candidate ((notFirst index candidate).mp first)
  · exact List.forall_mem_append.mpr ⟨collected.served, List.forall_mem_singleton.mpr served⟩
  · intro index
    simp only [notFirst]
    exact listed index
  · simp only [notFirst]
    exact built

/-- A pair whose bridge was not collected is the first to need it. -/
theorem Collected.firstNeeds
    (needs : overriding.Needs declared)
    (fresh : overriding.signature ∉ state.bridges.map MethodDef.erasedSignature) :
    Overriding.FirstNeeds declared (overridings ++ [overriding]) overridings.length
      overriding := by
  refine Overriding.firstNeeds_concat.mpr (.inr ⟨rfl, rfl, needs, ?_⟩)
  intro earlier member needsEarlier same
  apply fresh
  rw [← same]
  exact collected.served earlier member needsEarlier

/-- A pair that is the first to need a bridge adds it. -/
theorem Collected.extend
    {bridge : MethodDef}
    (arity : overriding.SameArity)
    (needs : overriding.Needs declared)
    (fresh : overriding.signature ∉ state.bridges.map MethodDef.erasedSignature)
    (built : buildBridge owner overriding.method overriding.signature = .ok bridge)
    {after : Bridging}
    (taken : after.taken = state.taken ++ [overriding.signature])
    (bridges : after.bridges = state.bridges ++ [bridge]) :
    Collected owner declared (overridings ++ [overriding]) after := by
  obtain ⟨indices, ascending, listed, each⟩ := collected.ordered
  have signature := buildBridge_signature built
  have first := collected.firstNeeds needs fresh
  refine ⟨?_, ?_, ?_, ?_, ?_, indices ++ [overridings.length], ?_, ?_, ?_⟩
  · exact List.forall_mem_append.mpr ⟨collected.arity, List.forall_mem_singleton.mpr arity⟩
  · intro index candidate firstCandidate
    obtain earlier | ⟨-, rfl, -, -⟩ := Overriding.firstNeeds_concat.mp firstCandidate
    · exact collected.wide index candidate earlier
    · exact buildBridge_ok_iff.mp ⟨bridge, built⟩
  · rw [taken, bridges, collected.taken, List.map_append, List.map_singleton, signature,
      List.append_assoc]
  · intro candidate member needsCandidate
    rw [bridges, List.map_append, List.map_singleton, List.mem_append]
    obtain member | member := List.mem_append.mp member
    · exact .inl (collected.served candidate member needsCandidate)
    · obtain rfl := List.mem_singleton.mp member
      exact .inr (List.mem_singleton.mpr signature.symm)
  · rw [bridges, List.map_append, List.map_singleton, signature]
    exact List.nodup_append.mpr
      ⟨collected.once, List.nodup_singleton _, fun _ old _ new same =>
        fresh (List.mem_singleton.mp new ▸ same ▸ old)⟩
  · refine List.pairwise_append.mpr ⟨ascending, List.pairwise_singleton _ _, ?_⟩
    intro index member last isLast
    obtain ⟨candidate, firstCandidate⟩ := (listed index).mp member
    rw [List.mem_singleton.mp isLast]
    exact firstCandidate.lt_length
  · intro index
    rw [List.mem_append, List.mem_singleton, listed index]
    constructor
    · rintro (⟨candidate, firstCandidate⟩ | rfl)
      · exact ⟨candidate, firstCandidate.append _⟩
      · exact ⟨overriding, first⟩
    · rintro ⟨candidate, firstCandidate⟩
      obtain earlier | ⟨last, -⟩ := Overriding.firstNeeds_concat.mp firstCandidate
      · exact .inl ⟨candidate, earlier⟩
      · exact .inr last
  · rw [bridges]
    refine List.rel_append ?_ (.cons ⟨overriding, first, built⟩ .nil)
    exact each.imp fun index bridge ⟨candidate, firstCandidate, made⟩ =>
      ⟨candidate, firstCandidate.append _, made⟩

/-! ## Going through the pairs -/

/-- Adding a signature collects its bridge, unless it is taken. -/
theorem add_collects
    (arity : overriding.SameArity)
    (differs : overriding.Differs) :
    Result.Collects owner declared (overridings ++ [overriding])
      (add owner overriding.method overriding.signature state) := by
  refine bind_cases (fun _ _ failed => nomatch failed) ?_
  rintro _ _ ⟨⟩
  have taken : overriding.signature ∈ state.taken ↔ overriding.signature ∈ declared ∨
      overriding.signature ∈ state.bridges.map MethodDef.erasedSignature := by
    rw [collected.taken, List.mem_append]
  split
  · next isTaken =>
    have skipped := collected.skip arity fun needs => (taken.mp isTaken).resolve_left needs.2
    exact skipped.congr rfl rfl
  · next isFree =>
    rw [taken, not_or] at isFree
    obtain ⟨undeclared, fresh⟩ := isFree
    cases built : buildBridge owner overriding.method overriding.signature with
    | error error =>
      have narrows : overriding.Narrows := by
        by_contra wide
        obtain ⟨bridge, success⟩ := buildBridge_ok_iff.mpr wide
        rw [built] at success
        contradiction
      exact .inr ⟨_, overriding, collected.firstNeeds ⟨differs, undeclared⟩ fresh, narrows⟩
    | ok bridge => exact collected.extend arity ⟨differs, undeclared⟩ fresh built rfl rfl

/-- Each pair adds the bridge that it needs first. -/
theorem override_collects
    (overriding : Overriding) :
    Result.Collects owner declared (overridings ++ [overriding])
      (override owner overriding.method overriding.overridden state) := by
  have same : overriding.SameArity ↔
      overriding.signature.params.length = overriding.method.params.length := by
    rw [Overriding.signature, MethodDecl.bridgeSignature, List.length_map]
    exact Iff.rfl
  unfold override
  dsimp only
  split
  · next differs =>
    refine .inl ⟨overriding, List.mem_append_right _ (List.mem_singleton_self _), ?_⟩
    rw [same]
    exact differs
  · next equal =>
    have arity := same.mpr (not_not.mp equal)
    split
    · next alike =>
      refine collected.skip arity fun needs => ?_
      obtain params | ret := needs.1
      · exact absurd alike.1 params
      · exact absurd alike.2 ret
    · next differs =>
      exact add_collects collected arity (not_and_or.mp differs)

end Pairs

/-- Steps that go through pairs one after the other. -/
theorem forM_collects
    {values : List α} {step : α → EStateM Error Bridging PUnit} {expand : α → List Overriding}
    (each : ∀ value overridings state, Collected owner declared overridings state →
      Result.Collects owner declared (overridings ++ expand value) (step value state))
    (collected : Collected owner declared overridings state) :
    Result.Collects owner declared (overridings ++ values.flatMap expand)
      (values.forM step state) := by
  induction values generalizing overridings state with
  | nil =>
    rw [List.flatMap_nil, List.append_nil]
    exact collected
  | cons value values ih =>
    have first := each value overridings state collected
    rw [List.flatMap_cons, ← List.append_assoc]
    refine bind_of_result first (fun _ _ failed => ?_) fun _ between _ first => ?_
    · exact Overriding.Fail.append failed _
    · exact ih first

theorem addFor_collects
    (method : MethodDecl)
    (collected : Collected owner declared overridings state) :
    Result.Collects owner declared (overridings ++ method.overridings)
      (addFor owner method state) := by
  unfold addFor MethodDecl.overridings
  split
  · rw [List.append_nil]
    exact collected
  · rw [List.map_eq_flatMap]
    refine forM_collects (fun overridden _ _ collected => ?_) collected
    exact override_collects collected { method, overridden }

theorem collectBridges_collects (cls : ClassDecl) :
    Result.Collects cls.name cls.signatures cls.overridings cls.collectBridges :=
  forM_collects (fun method _ _ collected => addFor_collects method collected)
    (Collected.start cls.name _)

/-- A sequence of steps fails where one of them does. -/
theorem forM_error
    {values : List α} {step : α → EStateM Error Bridging PUnit} {error : Error} {after : Bridging}
    (failure : values.forM step state = .error error after) :
    ∃ value state, step value state = .error error after := by
  induction values generalizing state with
  | nil => contradiction
  | cons value values ih =>
    obtain failed | ⟨_, between, -, failed⟩ := bind_error.mp failure
    · exact ⟨value, state, failed⟩
    · exact ih failed

/-- Where a pair can have no bridge, that is an internal failure of its own. -/
theorem collectBridges_error
    {cls : ClassDecl} {error : Error}
    (failure : cls.collectBridges = .error error state) :
    error.breaksLink = false ∧ error.breaksBookkeeping = false := by
  obtain ⟨method, _, failure⟩ := forM_error failure
  unfold addFor at failure
  split at failure
  · contradiction
  obtain ⟨overridden, _, failure⟩ := forM_error failure
  unfold override at failure
  dsimp only at failure
  split at failure
  · cases failure
    exact ⟨rfl, rfl⟩
  split at failure
  · contradiction
  obtain failure | ⟨_, _, ⟨⟩, failure⟩ := bind_error.mp failure
  · contradiction
  split at failure
  · contradiction
  cases built : buildBridge cls.name method (method.bridgeSignature overridden) with
  | ok bridge =>
    rw [built] at failure
    contradiction
  | error refused =>
    rw [built] at failure
    cases failure
    obtain refused | ⟨_, -, refused⟩ := except_bind_error.mp built
    · obtain ⟨_, -, refused⟩ := except_mapM_error refused
      unfold forwardArgument at refused
      dsimp only at refused
      split_ifs at refused
      cases refused
      exact ⟨rfl, rfl⟩
    · contradiction

end Bridging

namespace ClassDecl

open Overriding

variable {cls : ClassDecl} {bridges : List MethodDef}

/-- The bridges of a class are what was collected for its pairs. -/
theorem collected_of_bridges (success : cls.bridges = .ok bridges) :
    ∃ state : Bridging, state.bridges = bridges ∧
      Bridging.Collected cls.name cls.signatures cls.overridings state := by
  have collects := Bridging.collectBridges_collects cls
  unfold ClassDecl.bridges at success
  cases ran : cls.collectBridges with
  | ok _ state =>
    rw [ran] at success collects
    cases success
    exact ⟨state, rfl, collects⟩
  | error error state =>
    rw [ran] at success
    contradiction

theorem fail_of_bridges {error : Error} (failure : cls.bridges = .error error) :
    Fail cls.signatures cls.overridings := by
  have collects := Bridging.collectBridges_collects cls
  unfold ClassDecl.bridges at failure
  cases ran : cls.collectBridges with
  | ok _ state =>
    rw [ran] at failure
    contradiction
  | error error state =>
    rw [ran] at collects
    exact collects

/-- The bridges of a class fail exactly when a pair can have none. -/
theorem bridges_eq_error_iff (cls : ClassDecl) :
    (∃ error, cls.bridges = .error error) ↔ Fail cls.signatures cls.overridings := by
  constructor
  · rintro ⟨error, failure⟩
    exact fail_of_bridges failure
  · intro fail
    cases outcome : cls.bridges with
    | error error => exact ⟨error, rfl⟩
    | ok bridges =>
      obtain ⟨state, -, collected⟩ := collected_of_bridges outcome
      exact absurd fail collected.not_fail

/--
A class has no bridges exactly when a method overrides one with another number of
parameters, or is the first to need a bridge that would have to make a primitive value
out of an argument of another type.  Otherwise every overridden signature that differs is
the one of a declared method or of a bridge, and the bridges are those that are needed
and not declared, each for the first pair that needs it and in the order of these pairs.
-/
theorem bridges_complete_and_justified (cls : ClassDecl) :
    ((∃ error, cls.bridges = .error error) ↔
      (∃ overriding ∈ cls.overridings, ¬overriding.SameArity) ∨
        ∃ index overriding, FirstNeeds cls.signatures cls.overridings index overriding ∧
          overriding.Narrows) ∧
    ∀ bridges, cls.bridges = .ok bridges →
      (∀ overriding ∈ cls.overridings, overriding.Differs →
        overriding.signature ∈ cls.signatures ++ bridges.map MethodDef.erasedSignature) ∧
      ∃ indices : List Nat,
        indices.Pairwise (· < ·) ∧
        (∀ index, index ∈ indices ↔
          ∃ overriding, FirstNeeds cls.signatures cls.overridings index overriding) ∧
        List.Forall₂ (fun index bridge => ∃ overriding,
          FirstNeeds cls.signatures cls.overridings index overriding ∧
            bridge.erasedSignature = overriding.signature ∧
            buildBridge cls.name overriding.method overriding.signature = .ok bridge)
          indices bridges := by
  refine ⟨cls.bridges_eq_error_iff, ?_⟩
  intro bridges success
  obtain ⟨state, rfl, collected⟩ := collected_of_bridges success
  obtain ⟨indices, ascending, listed, built⟩ := collected.ordered
  refine ⟨?_, indices, ascending, listed, ?_⟩
  · intro overriding member differs
    rw [List.mem_append]
    by_cases declared : overriding.signature ∈ cls.signatures
    · exact .inl declared
    · exact .inr (collected.served overriding member ⟨differs, declared⟩)
  · refine built.imp ?_
    rintro index bridge ⟨overriding, first, made⟩
    exact ⟨overriding, first, buildBridge_signature made, made⟩

/-- A class whose comparison overrides two generic ones and whose getter narrows its result. -/
def comparisons : ClassDecl :=
  { name := "Foo"
    methods :=
      [{ name := "compareTo"
         params := [⟨⟨1⟩, "other", .ofClass "Foo"⟩]
         ret := .int
         overrides :=
          [⟨"java/lang/Comparable", "compareTo", [.var "T" none], .int⟩,
            ⟨"Base", "compareTo", [.var "U" none], .int⟩] },
        { name := "get"
          ret := .string
          overrides := [⟨"Supplier", "get", [], .var "T" none⟩] }] }

/-- The two comparisons share a bridge, and the getter has one of its own. -/
theorem comparisons_bridges :
    ∃ bridges, comparisons.bridges = .ok bridges ∧ bridges.length = 2 :=
  ⟨_, rfl, rfl⟩

/-- A class that compares needs two bridges. -/
theorem bridges_complete_and_justified_comparisons :
    ∃ (bridges : List MethodDef) (indices : List Nat),
      comparisons.bridges = .ok bridges ∧ bridges.length = 2 ∧ indices.Pairwise (· < ·) ∧
      (∀ index, index ∈ indices ↔
        ∃ overriding, FirstNeeds comparisons.signatures comparisons.overridings index overriding) ∧
      indices.length = bridges.length ∧
      ∀ overriding ∈ comparisons.overridings, overriding.Differs →
        overriding.signature ∈
          comparisons.signatures ++ bridges.map MethodDef.erasedSignature := by
  obtain ⟨bridges, success, length⟩ := comparisons_bridges
  obtain ⟨served, indices, ascending, listed, built⟩ :=
    comparisons.bridges_complete_and_justified.2 bridges success
  exact ⟨bridges, indices, success, length, ascending, listed, built.length_eq, served⟩

/-! ## Signatures that stay apart -/

/-- A bridge has the name and the bits of a declared method. -/
theorem exists_method_of_bridge
    (success : cls.bridges = .ok bridges)
    {bridge : MethodDef}
    (member : bridge ∈ bridges) :
    bridge.erasedSignature ∉ cls.signatures ∧
      ∃ method ∈ cls.methods, bridge.erasedSignature.name = method.name ∧
        bridge.erasedSignature.flags = method.flags.bridged := by
  obtain ⟨state, rfl, collected⟩ := collected_of_bridges success
  obtain ⟨overriding, among, needs, made⟩ := collected.built member
  rw [buildBridge_signature made]
  exact ⟨needs.2, overriding.method, (mem_overridings.mp among).1, rfl, rfl⟩

/-- A signature among the declared ones or those of bridges has the name and the bits of a
declared method. -/
theorem exists_method_of_signature
    (success : cls.bridges = .ok bridges)
    {signature : ErasedSignature}
    (member : signature ∈ cls.signatures ++ bridges.map MethodDef.erasedSignature) :
    ∃ method ∈ cls.methods, signature.name = method.name ∧
      signature.flags = method.flags.bridged := by
  obtain declared | bridged := List.mem_append.mp member
  · obtain ⟨method, listed, rfl⟩ := List.mem_map.mp declared
    exact ⟨method, listed, rfl, rfl⟩
  · obtain ⟨bridge, listed, rfl⟩ := List.mem_map.mp bridged
    exact (exists_method_of_bridge success listed).2

/--
If the declared methods differ in their names or erased types, then they and the bridges
of the class differ in their names, erased types or bits for accessibility and a variable
number of arguments.  If methods of one name agree in these bits, the names and erased
types alone are enough.
-/
theorem bridges_keep_signatures_apart
    (cls : ClassDecl)
    (bridges : List MethodDef)
    (distinct : (cls.signatures.map ErasedSignature.bare).Nodup)
    (success : cls.bridges = .ok bridges) :
    (cls.signatures ++ bridges.map MethodDef.erasedSignature).Nodup ∧
      ((∀ first ∈ cls.methods, ∀ second ∈ cls.methods, first.name = second.name →
          first.flags.bridged = second.flags.bridged) →
        ((cls.signatures ++ bridges.map MethodDef.erasedSignature).map
          ErasedSignature.bare).Nodup) := by
  have apart : (cls.signatures ++ bridges.map MethodDef.erasedSignature).Nodup := by
    obtain ⟨state, rfl, collected⟩ := collected_of_bridges success
    refine List.nodup_append.mpr ⟨distinct.of_map, collected.once, ?_⟩
    rintro declared member _ bridged rfl
    obtain ⟨bridge, listed, rfl⟩ := List.mem_map.mp bridged
    exact (exists_method_of_bridge success listed).1 member
  refine ⟨apart, fun uniform => apart.map_on ?_⟩
  intro first firstMember second secondMember same
  obtain ⟨firstMethod, firstListed, firstName, firstFlags⟩ :=
    exists_method_of_signature success firstMember
  obtain ⟨secondMethod, secondListed, secondName, secondFlags⟩ :=
    exists_method_of_signature success secondMember
  obtain ⟨name, params, ret⟩ : first.name = second.name ∧ first.params = second.params ∧
      first.ret = second.ret := by
    simpa [ErasedSignature.bare] using same
  have flags : first.flags = second.flags := by
    rw [firstFlags, secondFlags]
    apply uniform firstMethod firstListed secondMethod secondListed
    rw [← firstName, ← secondName, name]
  cases first
  cases second
  simp_all

theorem bridges_keep_signatures_apart_comparisons :
    ∃ bridges, comparisons.bridges = .ok bridges ∧ bridges.length = 2 ∧
      (comparisons.signatures ++ bridges.map MethodDef.erasedSignature).Nodup := by
  obtain ⟨bridges, success, length⟩ := comparisons_bridges
  refine ⟨bridges, success, length, ?_⟩
  exact (comparisons.bridges_keep_signatures_apart bridges (by decide) success).1

/-- A class with a public comparison that overrides a generic one, and a protected comparison
with the erased signature of the generic one. -/
def protectedComparison : ClassDecl :=
  { name := "Foo"
    methods :=
      [{ name := "compareTo"
         params := [⟨⟨1⟩, "other", .ofClass "Foo"⟩]
         ret := .int
         overrides := [⟨"java/lang/Comparable", "compareTo", [.var "T" none], .int⟩] },
        { name := "compareTo"
          modifiers := [.protectedAccess]
          params := [⟨⟨1⟩, "other", .object⟩]
          ret := .int }] }

/-- The bridge has the name and the erased types of the protected comparison. -/
theorem bridge_repeats_protectedComparison :
    (protectedComparison.signatures.map ErasedSignature.bare).Nodup ∧
      ∃ bridges, protectedComparison.bridges = .ok bridges ∧
        ¬((protectedComparison.signatures ++ bridges.map MethodDef.erasedSignature).map
          ErasedSignature.bare).Nodup := by
  refine ⟨by decide, _, rfl, ?_⟩
  decide

end ClassDecl

end StackCode
