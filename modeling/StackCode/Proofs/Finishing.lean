import StackCode.Proofs.Advance

/-!
# Finished bodies

What a body owes to the code that it was finished from: its instructions are
those of the code, every label that an instruction or a handler refers to is
bound, and the exception table has the registered ranges, in the order of their
registration and without the empty ones.
-/

namespace StackCode

variable {values : List α} {error : Error}

/-! ## Sequences that may fail -/

theorem except_bind_ok
    {first : Except Error α} {next : α → Except Error β} {result : β} :
    (first >>= next) = .ok result ↔ ∃ value, first = .ok value ∧ next value = .ok result := by
  cases first with
  | ok value =>
    constructor
    · exact fun success => ⟨value, rfl, success⟩
    · rintro ⟨_, ⟨⟩, success⟩
      exact success
  | error error =>
    constructor
    · exact fun failure => nomatch failure
    · rintro ⟨_, ⟨⟩, -⟩

theorem except_forM_ok {step : α → Except Error PUnit} (success : values.forM step = .ok ()) :
    ∀ value ∈ values, step value = .ok () := by
  induction values with
  | nil => simp
  | cons value values ih =>
    obtain ⟨_, first, rest⟩ := except_bind_ok.mp success
    intro other member
    obtain rfl | member := List.mem_cons.mp member
    · exact first
    · exact ih rest other member

theorem except_mapM_ok
    {step : α → Except Error β} {results : List β}
    (success : values.mapM step = .ok results) :
    List.Forall₂ (fun value result => step value = .ok result) values results := by
  induction values generalizing results with
  | nil =>
    cases success
    exact .nil
  | cons value values ih =>
    rw [List.mapM_cons] at success
    obtain ⟨result, first, rest⟩ := except_bind_ok.mp success
    obtain ⟨others, found, same⟩ := except_bind_ok.mp rest
    cases same
    exact .cons first (ih found)

theorem except_bind_error {first : Except Error α} {next : α → Except Error β} :
    (first >>= next) = .error error ↔
      first = .error error ∨ ∃ value, first = .ok value ∧ next value = .error error := by
  cases first with
  | ok value =>
    constructor
    · exact fun failure => .inr ⟨value, rfl, failure⟩
    · rintro (failure | ⟨_, ⟨⟩, failure⟩)
      · contradiction
      · exact failure
  | error found =>
    constructor
    · intro failure
      cases failure
      exact .inl rfl
    · rintro (failure | ⟨_, failure, -⟩)
      · cases failure
        rfl
      · contradiction

theorem except_forM_error
    {step : α → Except Error PUnit}
    (failure : values.forM step = .error error) :
    ∃ value ∈ values, step value = .error error := by
  induction values with
  | nil => contradiction
  | cons value values ih =>
    obtain failure | ⟨_, -, failure⟩ := except_bind_error.mp failure
    · exact ⟨value, List.mem_cons_self, failure⟩
    · obtain ⟨other, member, failure⟩ := ih failure
      exact ⟨other, List.mem_cons_of_mem _ member, failure⟩

/-- The first step to fail decides. -/
theorem except_mapM_error {step : α → Except Error β} (failure : values.mapM step = .error error) :
    ∃ value ∈ values, step value = .error error := by
  induction values with
  | nil => contradiction
  | cons value values ih =>
    rw [List.mapM_cons] at failure
    obtain failure | ⟨_, -, failure⟩ := except_bind_error.mp failure
    · exact ⟨value, List.mem_cons_self, failure⟩
    · obtain failure | ⟨_, -, failure⟩ := except_bind_error.mp failure
      · obtain ⟨other, member, failure⟩ := ih failure
        exact ⟨other, List.mem_cons_of_mem _ member, failure⟩
      · contradiction

theorem except_foldlM_error
    {step : β → α → Except Error β} {start : β}
    (failure : values.foldlM step start = .error error) :
    ∃ state value, step state value = .error error := by
  induction values generalizing start with
  | nil => contradiction
  | cons value values ih =>
    rw [List.foldlM_cons] at failure
    obtain failure | ⟨_, -, failure⟩ := except_bind_error.mp failure
    · exact ⟨start, value, failure⟩
    · exact ih failure

namespace Code

variable {code : Code}

/-! ## Closing scopes -/

theorem closeScopes_eq (code : Code) :
    code.closeScopes.instructions = code.instructions ∧ code.closeScopes.marks = code.marks ∧
      code.closeScopes.regions = code.regions := by
  unfold closeScopes
  generalize code.scopes = scopes
  induction scopes generalizing code with
  | nil => exact ⟨rfl, rfl, rfl⟩
  | cons scope scopes ih => exact ih _

/-! ## Finished bodies -/

theorem resolve_ok {label : Label} {position : Nat} :
    code.resolve label = .ok position ↔ code.position? label = some position := by
  unfold resolve
  split <;> simp_all

/-- The entry that a registered range becomes. -/
theorem resolveRegion_ok {region : Region} {entry : ExceptionEntry} :
    code.resolveRegion region = .ok entry ↔
      code.position? region.start = some entry.start ∧
        code.position? region.stop = some entry.stop ∧
          code.position? region.handler = some entry.handler ∧
            entry.catchType = region.catchType := by
  simp only [resolveRegion, except_bind_ok, resolve_ok]
  constructor
  · rintro ⟨start, started, stop, stopped, handler, handled, same⟩
    cases same
    exact ⟨started, stopped, handled, rfl⟩
  · rintro ⟨started, stopped, handled, same⟩
    refine ⟨_, started, _, stopped, _, handled, ?_⟩
    rw [← same]
    rfl

/-- The body that code is finished into. -/
structure Finishes (code : Code) (body : MethodBody) : Prop where
  instructions : body.instructions = code.instructions
  /-- A label to which control may go is bound. -/
  targets : ∀ instruction ∈ code.instructions, ∀ label ∈ instruction.targets,
    ∃ position, code.position? label = some position
  /-- A label that is bound stands where it was bound. -/
  position : ∀ label position, code.position? label = some position →
    body.position label = position
  /-- The table has the registered ranges that are not empty. -/
  exceptions : ∃ entries,
    List.Forall₂ (fun region entry => code.resolveRegion region = .ok entry) code.regions.toList
      entries ∧
    body.exceptions = entries.filter fun entry => entry.start < entry.stop
  labels : body.labels = code.marks.map fun position => position.getD code.size
  localVars : body.localVars =
    (code.closeScopes.endLocals code.closeScopes.outermost.reverse).ended.toList

/-- A finished body has the code with its labels resolved. -/
theorem finishes_of_finish {body : MethodBody} (success : code.finish = .ok body) :
    code.Finishes body := by
  obtain ⟨instructions, marks, regions⟩ := code.closeScopes_eq
  let closed := code.closeScopes.endLocals code.closeScopes.outermost.reverse
  have positions : ∀ label, closed.position? label = code.position? label := by
    intro label
    rw [position?, position?]
    exact congrArg (fun marks : Array (Option Nat) => marks[label.index]?.join) marks
  obtain ⟨_, resolved, rest⟩ := except_bind_ok.mp success
  obtain ⟨entries, found, same⟩ := except_bind_ok.mp rest
  cases same
  refine ⟨instructions, ?_, ?_, ⟨entries, ?_, rfl⟩, ?_, rfl⟩
  · intro instruction member label inside
    have listed : instruction ∈ closed.instructions.toList := by
      change instruction ∈ code.closeScopes.instructions.toList
      rw [instructions]
      exact Array.mem_def.mp member
    have bound := except_forM_ok (except_forM_ok resolved instruction listed) label inside
    obtain ⟨position, bound, -⟩ := except_bind_ok.mp bound
    exact ⟨position, by rw [← positions, resolve_ok.mp bound]⟩
  · intro label position bound
    have marked : closed.marks[label.index]? = some (some position) := by
      rw [← positions] at bound
      exact Option.join_eq_some_iff.mp bound
    simp only [MethodBody.position, Array.getElem?_map]
    rw [marked]
    rfl
  · have same : closed.regions = code.regions := regions
    rw [← same]
    refine (except_mapM_ok found).imp fun region entry resolved => ?_
    obtain ⟨started, stopped, handled, kind⟩ := resolveRegion_ok.mp resolved
    rw [resolveRegion_ok, ← positions, ← positions, ← positions]
    exact ⟨started, stopped, handled, kind⟩
  · have size : closed.size = code.size := congrArg Array.size instructions
    change closed.marks.map (fun position => position.getD closed.size) = _
    rw [size]
    exact congrArg (Array.map fun position => position.getD code.size) marks

theorem resolve_error {label : Label} {error : Error}
    (failure : code.resolve label = .error error) :
    error = .unmarkedLabel label ∧ code.position? label = none := by
  unfold resolve at failure
  split at failure
  · contradiction
  · next unbound =>
    cases failure
    exact ⟨rfl, unbound⟩

/-- An instruction or a protected range refers to the label. -/
def Uses (code : Code) (label : Label) : Prop :=
  (∃ instruction ∈ code.instructions, label ∈ instruction.targets) ∨
    ∃ region ∈ code.regions, label ∈ [region.start, region.stop, region.handler]

/-- Code that cannot be finished uses a label that is nowhere bound. -/
theorem finish_error {error : Error} (failure : code.finish = .error error) :
    ∃ label, error = .unmarkedLabel label ∧ code.Uses label ∧ code.position? label = none := by
  obtain ⟨instructions, marks, regions⟩ := code.closeScopes_eq
  let closed := code.closeScopes.endLocals code.closeScopes.outermost.reverse
  have unbound : ∀ {label}, closed.position? label = none → code.position? label = none :=
    fun {label} => by
      rw [position?, position?]
      exact (congrArg (fun marks : Array (Option Nat) => marks[label.index]?.join) marks).symm.trans
  obtain failure | ⟨_, -, failure⟩ := except_bind_error.mp failure
  · obtain ⟨instruction, listed, failure⟩ := except_forM_error failure
    obtain ⟨label, used, failure⟩ := except_forM_error failure
    obtain failure | ⟨_, -, failure⟩ := except_bind_error.mp failure
    · obtain ⟨same, missing⟩ := resolve_error failure
      refine ⟨label, same, .inl ⟨instruction, ?_, used⟩, unbound missing⟩
      exact instructions ▸ Array.mem_def.mpr listed
    · contradiction
  · obtain failure | ⟨_, -, failure⟩ := except_bind_error.mp failure
    · obtain ⟨region, listed, failure⟩ := except_mapM_error failure
      have registered : region ∈ code.regions := regions ▸ Array.mem_def.mpr listed
      have used : ∀ label ∈ [region.start, region.stop, region.handler],
          closed.resolve label = .error error →
            ∃ label, error = .unmarkedLabel label ∧ code.Uses label ∧ code.position? label = none :=
        fun label member failure => ⟨label, (resolve_error failure).1,
          .inr ⟨region, registered, member⟩, unbound (resolve_error failure).2⟩
      simp only [resolveRegion, except_bind_error] at failure
      obtain failure | ⟨_, -, failure | ⟨_, -, failure | ⟨_, -, failure⟩⟩⟩ := failure
      · exact used _ (by simp) failure
      · exact used _ (by simp) failure
      · exact used _ (by simp) failure
      · contradiction
    · contradiction

/-- Every entry of the table is a registered range. -/
theorem Finishes.region_of_mem {body : MethodBody} (finishes : code.Finishes body)
    {entry : ExceptionEntry} (member : entry ∈ body.exceptions) :
    ∃ region, code.resolveRegion region = .ok entry := by
  obtain ⟨entries, resolved, table⟩ := finishes.exceptions
  rw [table] at member
  obtain ⟨index, inside, rfl⟩ := List.mem_iff_getElem.mp (List.mem_filter.mp member).1
  obtain ⟨length, each⟩ := List.forall₂_iff_get.mp resolved
  exact ⟨_, each index (by omega) inside⟩

end Code

end StackCode
