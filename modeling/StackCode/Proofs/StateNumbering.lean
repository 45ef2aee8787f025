import StackCode.Generate
import StackCode.Proofs.Activation
import StackCode.Proofs.Contexts
import StackCode.Proofs.Generating
import StackCode.Proofs.IteratorLinkage
import StackCode.Proofs.Resumption

/-!
# The states of an iteration

An iterator with `n` suspension points has the states from 0 to `n`, and -1 for
an iteration that is over.  Suspension point `i`, in the order of the source, is
the only one that sets the state to `i`, and the state `i` is resumed right after
it.  All other writes of the state end the iteration.
-/

namespace StackCode

variable {element : Ty}

/-- The field of an iterator class that says where the iteration goes on. -/
def stateField (className : String) : FieldRef := .ofErased className stateFieldName (.prim .int)

theorem stateFieldName_ne_currentFieldName : stateFieldName ≠ currentFieldName := by decide

/-- The instructions that note the end of an iteration and return false. -/
def finishing (className : String) : List Instruction :=
  [.load .reference 0, .push (.int (-1)), .putField (stateField className), .plain .iconst0,
    .plain .ireturn]

namespace MethodBody

/-- An element of the given type is handed out at a place under a number. -/
def HandsOut
    (body : MethodBody)
    (className : String)
    (element : Ty)
    (number : Nat)
    (site : Site) :
    Prop :=
  ∃ tag value evaluation saves,
    site.stmt = .yield tag (some value) ∧
      Emit.Evaluates value evaluation ∧
      body.Holds site.start
        ([.load .reference 0] ++ evaluation ++
          [.putField (IteratorClass.currentField className element), .load .reference 0,
            .push (.int (.ofNat number)), .putField (stateField className)] ++ saves ++
          [.plain .iconst1, .plain .ireturn]) ∧
      site.write = site.start + evaluation.length + 4 ∧
      site.stop = site.write + saves.length + 3

/--
The body runs an iteration with the given suspension points, which have their
`sites` in the code.  It begins with a table that has the labels to `resume` at.
-/
structure NumbersStates
    (body : MethodBody)
    (className : String)
    (element : Ty)
    (elements : List Stmt)
    (resume : List Label)
    (exhausted : Label)
    (sites : List Site) :
    Prop where
  dispatch : body.Holds 0
    [.load .reference 0, .getField (stateField className),
      .tableSwitch 0 (.ofNat elements.length) exhausted resume]
  /-- The start is right after the table, and a suspension point is resumed right after it. -/
  resume : resume.map body.position = 3 :: sites.map Site.stop
  exhausted : body.Holds (body.position exhausted) (finishing className)
  /-- Every suspension point has one place, in the order of the source. -/
  stmts : sites.map Site.stmt = elements
  ordered : sites.Pairwise fun first second => first.stop ≤ second.start
  numbered : ∀ index site, sites[index]? = some site →
    body.HandsOut className element (index + 1) site
  /-- Only suspension points and ends write the state. -/
  stateWrites : ∀ position field, body.instructions[position]? = some (.putField field) →
    IsStateField className field →
      (∃ site ∈ sites, position = site.write) ∨
        ∃ start, position = start + 2 ∧ body.Holds start (finishing className)
  /-- Only suspension points write the current element. -/
  currentWrites : ∀ position field, body.instructions[position]? = some (.putField field) →
    field.owner = className → field.name = currentFieldName → field.isStatic = false →
      ∃ site ∈ sites, position + 3 = site.write

/-- The element is written first, then its number. -/
theorem HandsOut.writes
    {body : MethodBody} {className : String} {number : Nat} {site : Site}
    (handsOut : body.HandsOut className element number site) :
    ∃ first, site.write = first + 3 ∧
      body.instructions[first]? =
        some (.putField (IteratorClass.currentField className element)) ∧
      body.instructions[first + 2]? = some (.push (.int (.ofNat number))) ∧
      body.instructions[first + 3]? = some (.putField (stateField className)) := by
  obtain ⟨tag, value, evaluation, saves, -, -, held, write, -⟩ := handsOut
  simp only [List.append_assoc] at held
  have later := held.after.after
  refine ⟨site.start + 1 + evaluation.length, by omega, ?_, ?_, ?_⟩
  · exact later.getElem? 0 (by simp)
  · exact later.getElem? 2 (by simp)
  · exact later.getElem? 3 (by simp)

end MethodBody

/-! ## From code to body -/

section Finished

open Activation

variable {code : Code} {body : MethodBody}

theorem Code.Finishes.holds (finishes : code.Finishes body) {position : Nat}
    {segment : List Instruction} (held : code.Holds position segment) :
    body.Holds position segment := by
  rw [MethodBody.Holds, finishes.instructions]
  exact held

/-- Control does not get to a position without labels but from the one before it. -/
theorem Code.Finishes.fenced (finishes : code.Finishes body) {position : Nat}
    (closed : code.Sealed position) : Fenced body position where
  targets := by
    intro instruction member label target same
    rw [finishes.instructions] at member
    obtain ⟨found, bound⟩ := finishes.targets instruction member label target
    rw [finishes.position label found bound] at same
    subst same
    exact (closed label).1 bound
  handlers := by
    intro entry member same
    obtain ⟨region, resolved⟩ := finishes.region_of_mem member
    obtain ⟨-, -, handled, -⟩ := Code.resolveRegion_ok.mp resolved
    rw [same] at handled
    exact (closed _).1 handled

/-- A suspension in the code hands out an element in the body. -/
theorem Code.Finishes.handsOut
    (finishes : code.Finishes body)
    {className : String} {element : Ty} {resume : List Label} {exhausted : Label}
    {promoted : List (LocalId × FieldRef)} {number : Nat} {site : Site}
    (suspends : (Suspension.ofClass className element resume exhausted promoted).SuspendsAt code
      number site) :
    body.HandsOut className element number site ∧ Fenced body site.write ∧
      ∃ label, resume[number]? = some label ∧ body.position label = site.stop := by
  obtain ⟨tag, value, evaluation, saves, label, stmt, evaluates, held, write, stop, resumed, bound,
    closed⟩ := suspends
  refine ⟨⟨tag, value, evaluation, saves, stmt, evaluates, finishes.holds held, write, stop⟩,
    finishes.fenced closed, label, resumed, finishes.position _ _ bound⟩

variable {className : String} {element : Ty} {resume : List Label} {exhausted : Label}
variable {promoted : List (LocalId × FieldRef)} {elements : List Stmt} {sites : List Site}

/-- The points of resumption are the entry and the stops. -/
theorem map_position_resume
    (finishes : code.Finishes body)
    (numbers : Emit.Numbers (.ofClass className element resume exhausted promoted) elements code
      sites) :
    resume.map body.position = 3 :: sites.map Site.stop := by
  have length : resume.length = sites.length + 1 := by
    rw [← List.length_map Site.stmt, numbers.stmts]
    exact numbers.resume
  refine List.ext_getElem? ?_
  rintro (_ | index)
  · obtain ⟨first, found, bound⟩ := numbers.start
    have head : resume.head? = some first := found
    rw [List.getElem?_map, ← List.head?_eq_getElem?, head, Option.map_some,
      finishes.position _ _ bound]
    rfl
  · rw [List.getElem?_map, List.getElem?_cons_succ, List.getElem?_map]
    cases found : sites[index]? with
    | some site =>
      obtain ⟨-, -, label, resumed, position⟩ :=
        finishes.handsOut (numbers.numbered index site found)
      rw [resumed, Option.map_some, position]
      rfl
    | none =>
      have outside := List.getElem?_eq_none_iff.mp found
      rw [List.getElem?_eq_none (by omega)]
      rfl

/-- What the code numbers, the finished body numbers by positions. -/
theorem numbersStates_of_numbers
    (finishes : code.Finishes body)
    (numbers : Emit.Numbers (.ofClass className element resume exhausted promoted) elements code
      sites) :
    body.NumbersStates className element elements resume exhausted sites := by
  have length : resume.length - 1 = elements.length := by
    have resumed : resume.length = elements.length + 1 := numbers.resume
    omega
  have handsOut : ∀ site ∈ sites, ∃ number, body.HandsOut className element number site := by
    intro site member
    obtain ⟨index, found⟩ := List.mem_iff_getElem?.mp member
    exact ⟨_, (finishes.handsOut (numbers.numbered index site found)).1⟩
  refine
    { dispatch := ?_
      resume := map_position_resume finishes numbers
      exhausted := ?_
      stmts := numbers.stmts
      ordered := numbers.ordered
      numbered := fun index site found => (finishes.handsOut (numbers.numbered index site found)).1
      stateWrites := ?_
      currentWrites := ?_ }
  · rw [← length]
    exact finishes.holds numbers.dispatch
  · obtain ⟨position, bound, held⟩ := numbers.exhausted
    have stands : body.position exhausted = position := finishes.position _ _ bound
    rw [stands]
    exact finishes.holds held
  · intro position field written isState
    have inCode := written
    rw [finishes.instructions] at inCode
    obtain spares | ⟨later, held, -⟩ | ⟨site, member, same | same⟩ :=
      numbers.writes position field inCode isState.2.2
    · exact ((spares isState.1).1 isState.2.1).elim
    · exact .inr ⟨position - 2, by omega, finishes.holds held⟩
    · exact .inl ⟨site, member, same⟩
    · obtain ⟨number, out⟩ := handsOut site member
      obtain ⟨first, write, current, -⟩ := out.writes
      obtain rfl : position = first := by omega
      rw [current] at written
      cases written
      exact (stateFieldName_ne_currentFieldName.symm isState.2.1).elim
  · intro position field written owner name isInstance
    have inCode := written
    rw [finishes.instructions] at inCode
    obtain spares | ⟨later, held, -⟩ | ⟨site, member, same | same⟩ :=
      numbers.writes position field inCode isInstance
    · exact ((spares owner).2 name).elim
    · have stored := (finishes.holds held).getElem? 2 (by simp [Suspension.ending])
      rw [Nat.sub_add_cancel later, written] at stored
      cases stored
      exact (stateFieldName_ne_currentFieldName name).elim
    · obtain ⟨number, out⟩ := handsOut site member
      obtain ⟨first, write, -, -, state⟩ := out.writes
      rw [same, write, state] at written
      cases written
      exact (stateFieldName_ne_currentFieldName name).elim
    · obtain ⟨number, out⟩ := handsOut site member
      obtain ⟨first, write, -⟩ := out.writes
      exact ⟨site, member, by omega⟩

/-- The state is only ever set to the number of a suspension point or to -1. -/
theorem setsOnly_of_numbers
    (finishes : code.Finishes body)
    (numbers : Emit.Numbers (.ofClass className element resume exhausted promoted) elements code
      sites) :
    SetsOnly body className fun state =>
      state = -1 ∨ ∃ number ≤ elements.length, state = .ofNat number := by
  intro position field written isState
  have inCode := written
  rw [finishes.instructions] at inCode
  obtain spares | ⟨later, held, closed⟩ | ⟨site, member, same | same⟩ :=
    numbers.writes position field inCode isState.2.2
  · exact ((spares isState.1).1 isState.2.1).elim
  · have pushed := (finishes.holds held).getElem? 1 (by simp [Suspension.ending])
    exact ⟨position - 2 + 1, -1, by omega, .inl rfl, pushed, finishes.fenced closed⟩
  · obtain ⟨index, found⟩ := List.mem_iff_getElem?.mp member
    have inside : index < elements.length := by
      rw [← numbers.stmts, List.length_map]
      exact (List.getElem?_eq_some_iff.mp found).1
    obtain ⟨out, fenced, -⟩ := finishes.handsOut (numbers.numbered index site found)
    obtain ⟨first, write, -, pushed, -⟩ := out.writes
    refine ⟨first + 2, .ofNat (index + 1), by omega, .inr ⟨index + 1, by omega, rfl⟩, pushed, ?_⟩
    exact same ▸ fenced
  · obtain ⟨index, found⟩ := List.mem_iff_getElem?.mp member
    obtain ⟨out, -⟩ := finishes.handsOut (numbers.numbered index site found)
    obtain ⟨first, write, current, -⟩ := out.writes
    obtain rfl : position = first := by omega
    rw [current] at written
    cases written
    exact (stateFieldName_ne_currentFieldName.symm isState.2.1).elim

/-- An iteration that is over is over for good. -/
theorem closes_of_numbersStates
    (states : body.NumbersStates className element elements resume exhausted sites) :
    Closes body (stateField className) (-1) := by
  refine ⟨0, .ofNat elements.length, exhausted, resume, exhausted, states.dispatch, ?_,
    states.exhausted⟩
  rw [Instruction.destination?, if_neg]
  rintro ⟨low, -⟩
  exact absurd low (by decide)

end Finished

/-! ## Iterator classes -/

namespace IteratorClass

open Emit

variable {body : Stmt} {before after : ClassContext} {layout : Layout}

/-- The method that runs an iterator has the body that is lowered for it. -/
theorem moveNextMethod_lowered
    {method : MethodDecl} {moveNext : MethodDef} {spills : List FieldDef}
    (success : moveNextMethod layout method body before = .ok (moveNext, spills) after) :
    ∃ finished lowered,
      moveNextBody layout method body
        { method := .start layout.className method.name false .boolean before.config.varDebugInfo
          cls := before } = .ok (finished, spills) lowered ∧
      moveNext.name = moveNextName ∧ moveNext.body = some finished := by
  have rest := Generation.get_bind_eq.mp success
  obtain ⟨⟨finished, _⟩, _, generated, rest⟩ := bind_ok.mp rest
  obtain ⟨same, rfl⟩ := pure_ok.mp rest
  cases same
  obtain ⟨lowered, lowering, rfl⟩ := Generation.onMethod_ok.mp generated
  exact ⟨finished, lowered, lowering, rfl, rfl⟩

/-- What the method that runs an iterator is made of. -/
theorem moveNextMethod_ok
    {method : MethodDecl}
    (distinct : body.Distinct)
    (named : layout.WellNamed)
    (covered : ∀ id ∈ layout.promotion.resident, id ∈ layout.localFields.map Prod.fst)
    (promotion : layout.promotion = body.promotion method.params)
    {moveNext : MethodDef} {spills : List FieldDef}
    (success : moveNextMethod layout method body before = .ok (moveNext, spills) after) :
    moveNext.name = moveNextName ∧ (∀ spill ∈ spills, IsOrdinary spill.name) ∧
      ∃ finished code machine sites,
        moveNext.body = some finished ∧ code.Finishes finished ∧
          (∃ resume exhausted, machine = .ofClass layout.className layout.element resume exhausted
            (layout.fieldsOf layout.promotion.promoted)) ∧
          Emit.Numbers machine body.elements code sites := by
  obtain ⟨finished, _, lowered, name, hasBody⟩ := moveNextMethod_lowered success
  obtain ⟨machine, code, sites, made, numbers, finishing, numbered⟩ :=
    numbers_moveNextBody distinct named covered promotion lowered
  exact ⟨name, fun _ => numbered.isOrdinary, finished, code, machine, sites, hasBody,
    Code.finishes_of_finish finishing, made, numbers⟩

/-- The class of an iterator has its fields, its constructor and the method that runs it. -/
theorem addClass_ok
    {method : MethodDecl}
    (success : addClass layout method body before = .ok () after) :
    ∃ moveNext spills between iterator,
      moveNextMethod layout method body before = .ok (moveNext, spills) between ∧
        iterator ∈ after.nested ∧ iterator.name = layout.className ∧
        iterator.fields = layout.fields ++ spills ∧
        ∃ others, iterator.methods = .defaultConstructor :: moveNext :: others := by
  obtain ⟨⟨moveNext, spills⟩, between, generated, rest⟩ := bind_ok.mp success
  replace rest := Generation.get_bind_eq.mp rest
  dsimp only at rest
  split_ifs at rest
  · obtain ⟨protocol, _, -, rest⟩ := bind_ok.mp rest
    obtain rfl := Generation.modify_ok.mp rest
    exact ⟨moveNext, spills, _, _, generated, Array.mem_push_self, rfl, rfl, protocol, rfl⟩
  · obtain ⟨protocol, _, -, rest⟩ := bind_ok.mp rest
    obtain rfl := Generation.modify_ok.mp rest
    exact ⟨moveNext, spills, _, _, generated, Array.mem_push_self, rfl, rfl, protocol, rfl⟩

/-- The body of an iterator method itself makes up no method and no class. -/
theorem entryBody_quiet
    {layout : Layout} {method : MethodDecl} {entry : MethodBody} {before after : Emission}
    (frames : before.method.frames = [])
    (success : entryBody layout method before = .ok entry after) :
    before.cls.Quiet after.cls := by
  have links : LinksTo (fun _ => True) before.method.lambdas MethodBody.references
      (entryBody layout method) := entryBody_links method fun _ _ => trivial
  have result := links before ⟨fun _ _ => .inl trivial, rfl, by simp [frames]⟩
  rw [success] at result
  exact result.2.1.quiet

/-- An iterator method is laid out before its class is added. -/
theorem compile_laidOut
    {method : MethodDecl} {entry : MethodBody}
    (success : compile method element body before = .ok entry after) :
    ∃ named layout start added,
      layOut (before.name ++ "$Iterator$" ++ toString before.iteratorCount) method element body
        named = .ok layout named ∧
      addClass layout method body start = .ok () added ∧ after.nested = added.nested := by
  obtain ⟨className, named, naming, rest⟩ := bind_ok.mp success
  obtain ⟨rfl, rfl⟩ := Generation.modifyGet_ok.mp naming
  replace rest := Generation.get_bind_eq.mp rest
  obtain ⟨_, _, -, rest⟩ := bind_ok.mp rest
  obtain ⟨layout, _, laidOut, rest⟩ := bind_ok.mp rest
  obtain ⟨rfl, -⟩ := layOut_ok laidOut
  obtain ⟨_, start, -, rest⟩ := bind_ok.mp rest
  obtain ⟨_, added, adding, rest⟩ := bind_ok.mp rest
  obtain ⟨state, entered, rfl⟩ := Generation.onMethod_ok.mp rest
  exact ⟨_, layout, start, added, laidOut, adding,
    (entryBody_quiet rfl entered).nested⟩

/-- Compiling an iterator lays out its class and adds it. -/
theorem compile_ok
    {method : MethodDecl} {entry : MethodBody}
    (success : compile method element body before = .ok entry after) :
    ∃ layout start added,
      layout.className = before.name ++ "$Iterator$" ++ toString before.iteratorCount ∧
        layout.element = element ∧ layout.WellNamed ∧
        (∀ id ∈ layout.promotion.resident, id ∈ layout.localFields.map Prod.fst) ∧
        layout.promotion = body.promotion method.params ∧
        addClass layout method body start = .ok () added ∧ after.nested = added.nested := by
  obtain ⟨_, layout, start, added, laidOut, adding, nested⟩ := compile_laidOut success
  obtain ⟨-, wellNamed, name, type, promotion, covered⟩ := layOut_ok laidOut
  exact ⟨layout, start, added, name, type, wellNamed, covered, promotion, adding, nested⟩

end IteratorClass

/--
The states of an iterator method: the table at the start of `moveNext`, the
numbers of the suspension points, and what calls of `moveNext` do to the state.
-/
theorem states_of_iterator
    (method : MethodDecl)
    (cls after : ClassContext)
    (element : Ty)
    (body : Stmt)
    (entry : MethodDef)
    (isIterator : method.annotate.element = some element)
    (hasBody : method.annotate.body = some body)
    (success : generateMethod method.annotate cls = .ok entry after) :
    body.elements.length = body.countYields ∧
      ∃ iterator ∈ after.nested,
        iterator.name = cls.name ++ "$Iterator$" ++ toString cls.iteratorCount ∧
        (∃ others, iterator.fields = IteratorClass.machineFields element false ++ others ∧
          ∀ field ∈ others, IsOrdinary field.name) ∧
        ∃ moveNext code,
          iterator.method? moveNextName = some moveNext ∧ moveNext.body = some code ∧
          (∃ resume exhausted sites,
            code.NumbersStates iterator.name element body.elements resume exhausted sites) ∧
          (∀ outcomes state, Activation.Calls code iterator.name 0 outcomes state →
            state = -1 ∨ ∃ number ≤ body.countYields, state = .ofNat number) ∧
          (∀ outcome state, Activation.Call code iterator.name (-1) outcome state ↔
            outcome = .returned (some (.int 0)) ∧ state = -1) ∧
          ∀ slots count last,
            Activation.Run code iterator.name count (Activation.enter slots (-1)) last →
              count ≤ 7 := by
  have distinct : body.Distinct := by
    obtain ⟨original, -, rfl⟩ := Option.map_eq_some_iff.mp hasBody
    exact original.distinct_annotate
  obtain ⟨_, _, generated, rest⟩ := bind_ok.mp success
  obtain ⟨-, rfl⟩ := pure_ok.mp rest
  simp only [generateBody, hasBody, isIterator] at generated
  obtain ⟨_, _, compiled, rest⟩ := bind_ok.mp generated
  obtain ⟨-, rfl⟩ := pure_ok.mp rest
  obtain ⟨layout, start, added, name, rfl, wellNamed, covered, promotion, adding, nested⟩ :=
    IteratorClass.compile_ok compiled
  obtain ⟨moveNext, spills, between, iterator, moving, member, className, fields, members,
    methods⟩ := IteratorClass.addClass_ok adding
  obtain ⟨moveNextNamed, ordinary, finished, code, _, sites, hasCode, finishes,
    ⟨resume, exhausted, rfl⟩, numbers⟩ :=
    IteratorClass.moveNextMethod_ok distinct wellNamed covered promotion moving
  have states := numbersStates_of_numbers finishes numbers
  have closes := closes_of_numbersStates states
  have isState : IsStateField layout.className (stateField layout.className) := ⟨rfl, rfl, rfl⟩
  refine ⟨body.length_elements, iterator, nested ▸ member, className.trans name, ?_, moveNext,
    finished, ?_, hasCode, ?_, ?_, ?_, ?_⟩
  · obtain ⟨others, own, named⟩ := wellNamed.fields
    refine ⟨others ++ spills, by rw [fields, own, List.append_assoc], ?_⟩
    intro field member
    obtain member | member := List.mem_append.mp member
    · exact named field member
    · exact ordinary field member
  · rw [ClassDef.method?, methods, List.find?_cons_of_neg (by decide), List.find?_cons_of_pos]
    rw [moveNextNamed]
    exact beq_self_eq_true _
  · exact ⟨resume, exhausted, sites, className ▸ states⟩
  · intro outcomes state calls
    rw [className] at calls
    rw [← body.length_elements]
    exact calls.allowed (setsOnly_of_numbers finishes numbers) (.inr ⟨0, Nat.zero_le _, rfl⟩)
  · intro outcome state
    rw [className]
    exact closes.call_iff isState
  · intro slots count last run
    rw [className] at run
    exact closes.bounded isState run

/-- An iterator with a local whose name is taken, a suspension point in a protected statement and
another one after it. -/
def twoElements : MethodDecl :=
  let five : Expr := .literal { type := .int } (.int 5)
  { name := "m"
    body := some (.block {}
      [.declare {} [⟨⟨⟨0⟩, stateFieldName, .int⟩, some five⟩],
        .guard {} (.yield {} (some (.localVar { type := .int } ⟨0⟩))) [] (some (.empty {})),
        .yield {} (some five)])
    element := some .int }

/-- The states of the iterator are -1, 0, 1 and 2. -/
theorem states_of_iterator_twoElements :
    ∃ entry after iterator moveNext code,
      generateMethod twoElements.annotate { name := "A" } = .ok entry after ∧
        iterator ∈ after.nested ∧ iterator.name = "A$Iterator$0" ∧
        iterator.method? moveNextName = some moveNext ∧ moveNext.body = some code ∧
        ∀ outcomes state, Activation.Calls code "A$Iterator$0" 0 outcomes state →
          state = -1 ∨ ∃ number ≤ 2, state = .ofNat number := by
  obtain ⟨entry, after, generated, -⟩ : ∃ entry after,
      generateMethod twoElements.annotate { name := "A" } = .ok entry after ∧ true :=
    exists_ok (by decide +kernel)
  obtain ⟨-, iterator, member, name, -, moveNext, code, found, hasCode, -, states, -⟩ :=
    states_of_iterator twoElements { name := "A" } after .int _ entry rfl rfl generated
  have named : iterator.name = "A$Iterator$0" := name
  refine ⟨entry, after, iterator, moveNext, code, generated, member, named, found, hasCode, ?_⟩
  intro outcomes state calls
  rw [named] at states
  exact states outcomes state calls

end StackCode
