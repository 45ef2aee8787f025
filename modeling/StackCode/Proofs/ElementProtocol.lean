import StackCode.Proofs.Execution
import StackCode.Proofs.Linkage

/-!
# Drawing elements from an iterator

A machine that runs the generated bodies of `hasNext` and `next` on the object of
an iterator.  What a call of `moveNext` does is left open but for its answer and the
current element.
-/

namespace StackCode

/-- What the bodies hand around besides integers and the object of the iterator. -/
inductive Drawing.Thing (α : Type) where
  /-- An object that was made in the meantime. -/
  | object (className : String)
  /-- A value that only passes through the machine. -/
  | passing (kind : ValueKind) (value : α)
  deriving DecidableEq, Repr, Inhabited

/-- The kind of a value. -/
def Datum.kind : Datum (Drawing.Thing α) → ValueKind
  | int _ => .int
  | other (.passing kind _) => kind
  | _ => .reference

namespace Drawing

/-- A value of the machine. -/
abbrev Item (α : Type) := Datum (Thing α)

/-- The contents of the fields of the object, by their names and erased types. -/
abbrev Fields (α : Type) := String × Erased → Item α

/-- What tells the fields of a class apart. -/
def key (field : FieldRef) : String × Erased := (field.name, field.type.erasure)

/-- The object of the iterator. -/
structure Receiver (α : Type) where
  /-- The contents of its fields. -/
  fields : Fields α
  /-- The answers that its `moveNext` has given so far. -/
  answers : List Bool

/-- What the machine runs. -/
structure Program (α : Type) where
  /-- The class of the iterator. -/
  className : String
  /-- The methods of the class that are run. -/
  methods : List MethodDef
  /-- What the call of `moveNext` with the given number does: its answer and the fields that it
  leaves. -/
  moveNext : Nat → Fields α → Bool × Fields α

/-- A call that waits for another one. -/
structure Caller (α : Type) where
  /-- The body that is run. -/
  body : MethodBody
  /-- The position at which it goes on. -/
  position : Nat
  /-- The operands below the value that it waits for. -/
  stack : List (Item α)

/-- How a call ends. -/
inductive Outcome (α : Type) where
  /-- With a value, if the method has one. -/
  | returned (value : Option (Item α))
  /-- With an exception. -/
  | thrown (exception : Item α)
  deriving DecidableEq, Repr, Inhabited

/-- A state of the run. -/
inductive Thread (α : Type) where
  /-- A call is under way, on behalf of the calls that wait for it, the latest one first. -/
  | running (body : MethodBody) (machine : Machine (Thing α) (Receiver α))
      (callers : List (Caller α))
  /-- The outermost call has ended. -/
  | ended (outcome : Outcome α) (receiver : Receiver α)

/-- The call that waits for another one goes on with its value. -/
def Thread.afterReturn (value : Item α) (receiver : Receiver α) : List (Caller α) → Thread α
  | [] => .ended (.returned (some value)) receiver
  | caller :: callers =>
    .running caller.body
      { position := caller.position, stack := value :: caller.stack, store := receiver } callers

namespace Program

variable (program : Program α)

/-- The body that a call of a method of the object runs. -/
def body? (method : MethodRef) : Option MethodBody :=
  if method.owner = program.className then
    (program.methods.find? fun found =>
      found.name == method.name && found.descriptor == method.descriptor).bind MethodDef.body
  else none

/-- What the next call of `moveNext` answers. -/
def answer (receiver : Receiver α) : Bool :=
  (program.moveNext receiver.answers.length receiver.fields).1

/-- What the next call of `moveNext` does to the object. -/
def afterMove (receiver : Receiver α) : Receiver α :=
  { fields := (program.moveNext receiver.answers.length receiver.fields).2
    answers := receiver.answers ++ [program.answer receiver] }

/-- The object and its fields are known, and so are calls of its `moveNext` and of the constructor
of an object that was made. -/
def world : World (Thing α) (Receiver α) where
  load? slot _ := if slot = 0 then some .self else none
  read? field object receiver :=
    match object with
    | some .self =>
      if field.owner = program.className then some (receiver.fields (key field)) else none
    | _ => none
  write? field object value receiver :=
    match object with
    | some .self =>
      if field.owner = program.className ∧ value.kind = field.type.kind then
        some { receiver with fields := Function.update receiver.fields (key field) value }
      else none
    | _ => none
  make? className receiver := some (.other (.object className), receiver)
  call? method stack receiver :=
    match stack with
    | .self :: stack =>
      if method.owner = program.className ∧ method.name = moveNextName then
        some (.ofBool (program.answer receiver) :: stack, program.afterMove receiver)
      else none
    | .other (.object className) :: stack =>
      if method.owner = className ∧ method.name = Library.constructorName then
        some (stack, receiver)
      else none
    | _ => none

/-- Leave a body: for that of another method of the object, or for good. -/
def leave?
    (body : MethodBody)
    (machine : Machine (Thing α) (Receiver α))
    (callers : List (Caller α)) :
    Instruction → Option (Thread α)
  | .plain op =>
    machine.stack.head?.bind fun top =>
      if op = .athrow then
        -- Handlers are left out of the machine.
        if (body :: callers.map Caller.body).all fun body => body.exceptions.isEmpty then
          some (.ended (.thrown top) machine.store)
        else none
      else if op = .ofReturn top.kind then some (.afterReturn top machine.store callers)
      else none
  | .invoke method =>
    match machine.stack with
    | .self :: stack =>
      (program.body? method).map fun callee =>
        .running callee (.start machine.store)
          ({ body, position := machine.position + 1, stack } :: callers)
    | _ => none
  | _ => none

/-- One step of the run: within a body, or out of it. -/
def step? : Thread α → Option (Thread α)
  | .running body machine callers =>
    body.instructions[machine.position]?.bind fun instruction =>
      ((program.world.perform? body machine instruction).map fun next =>
        .running body next callers) <|>
      program.leave? body machine callers instruction
  | .ended _ _ => none

/-- The run gets from one state to another. -/
def Reaches : Thread α → Thread α → Prop :=
  Relation.ReflTransGen fun before after => program.step? before = some after

end Program

/-- What a caller asks the iterator for. -/
inductive Request where
  /-- Whether there is another element. -/
  | hasNext
  /-- The next element. -/
  | next
  deriving DecidableEq, Repr, Inhabited

/-- The method that is called for a request. -/
def Request.method (className : String) (element : Ty) : Request → MethodRef
  | hasNext => IteratorClass.hasNext className
  | next => IteratorClass.next className element

namespace Program

variable (program : Program α) (element : Ty)

/-- A call from outside, with what it does to the object. -/
def Call
    (request : Request)
    (before : Receiver α)
    (outcome : Outcome α)
    (after : Receiver α) : Prop :=
  ∃ body, program.body? (request.method program.className element) = some body ∧
    program.Reaches (.running body (.start before) []) (.ended outcome after)

/-- Calls one after the other, in any order. -/
inductive Session (start : Receiver α) : List (Request × Outcome α) → Receiver α → Prop where
  | start : Session start [] start
  | call {trace : List (Request × Outcome α)} {request : Request} {outcome : Outcome α}
      {before after : Receiver α}
      (session : Session start trace before)
      (call : program.Call element request before outcome after) :
      Session start (trace ++ [(request, outcome)]) after

/-- A run of the machine has one end. -/
theorem Reaches.unique
    {program : Program α} {start : Thread α} {outcome other : Outcome α}
    {receiver receiver' : Receiver α}
    (first : program.Reaches start (.ended outcome receiver))
    (second : program.Reaches start (.ended other receiver')) :
    outcome = other ∧ receiver = receiver' := by
  have deterministic : Relator.RightUnique fun before after : Thread α =>
      program.step? before = some after := by
    intro before after after' step step'
    rw [step] at step'
    exact Option.some.inj step'
  have final : ∀ {outcome : Outcome α} {receiver : Receiver α} {thread : Thread α},
      program.Reaches (.ended outcome receiver) thread → thread = .ended outcome receiver := by
    intro outcome receiver thread run
    obtain same | ⟨next, step, -⟩ := Relation.ReflTransGen.cases_head run
    · exact same.symm
    · exact absurd step (by simp [step?])
  obtain run | run := Relation.ReflTransGen.total_of_right_unique deterministic first second
  · cases final run
    exact ⟨rfl, rfl⟩
  · cases final run
    exact ⟨rfl, rfl⟩

theorem Call.unique
    {program : Program α} {element : Ty} {request : Request} {before after after' : Receiver α}
    {outcome other : Outcome α}
    (first : program.Call element request before outcome after)
    (second : program.Call element request before other after') :
    outcome = other ∧ after = after' := by
  obtain ⟨body, found, run⟩ := first
  obtain ⟨body', found', run'⟩ := second
  rw [found] at found'
  cases found'
  exact run.unique run'

section Instructions

variable {program : Program α} {body callee : MethodBody} {method : MethodRef} {field : FieldRef}
variable {position : Nat} {stack : List (Item α)} {receiver : Receiver α} {value : Item α}
variable {machine next : Machine (Thing α) (Receiver α)} {callers : List (Caller α)}
variable {className : String} {instruction : Instruction} {thread : Thread α}

theorem perform?_getField
    (owner : field.owner = program.className)
    (bound : field.isStatic = false)
    (content : receiver.fields (key field) = value) :
    program.world.perform? body ⟨position, .self :: stack, receiver⟩ (.getField field) =
      some ⟨position + 1, value :: stack, receiver⟩ := by
  simp [World.perform?, FieldRef.holder?, world, owner, bound, content, Machine.next]

theorem perform?_putField
    (owner : field.owner = program.className)
    (bound : field.isStatic = false)
    (kind : value.kind = field.type.kind) :
    program.world.perform? body ⟨position, value :: .self :: stack, receiver⟩ (.putField field) =
      some ⟨position + 1, stack,
        { receiver with fields := Function.update receiver.fields (key field) value }⟩ := by
  simp [World.perform?, FieldRef.holder?, world, owner, bound, kind, Machine.next]

theorem perform?_moveNext :
    program.world.perform? body ⟨position, .self :: stack, receiver⟩
        (.invoke (IteratorClass.moveNext program.className)) =
      some ⟨position + 1, .ofBool (program.answer receiver) :: stack,
        program.afterMove receiver⟩ := by
  simp [World.perform?, world, IteratorClass.moveNext, IteratorClass.member, Machine.next]

theorem perform?_constructor :
    program.world.perform? body ⟨position, .other (.object className) :: stack, receiver⟩
        (.invoke (Library.constructor className)) =
      some ⟨position + 1, stack, receiver⟩ := by
  simp [World.perform?, world, Library.constructor, Machine.next]

/-- The next instruction is run, and the body goes on. -/
theorem Reaches.perform
    (here : body.instructions[machine.position]? = some instruction)
    (performed : program.world.perform? body machine instruction = some next)
    (rest : program.Reaches (.running body next callers) thread) :
    program.Reaches (.running body machine callers) thread := by
  refine Relation.ReflTransGen.head ?_ rest
  rw [step?, here, Option.bind_some, performed]
  rfl

/-- An instruction that does not go on in the body may leave it. -/
theorem Reaches.leave
    (here : body.instructions[machine.position]? = some instruction)
    (stops : program.world.perform? body machine instruction = none)
    (left : program.leave? body machine callers instruction = some thread) :
    program.Reaches (.running body machine callers) thread := by
  refine .single ?_
  rw [step?, here, Option.bind_some, stops, left]
  rfl

/-- A call goes on in the body of the method that is called. -/
theorem Reaches.call
    (here : body.instructions[position]? = some (.invoke method))
    (other : method.name ≠ moveNextName)
    (found : program.body? method = some callee)
    (rest : program.Reaches
      (.running callee (.start receiver) ({ body, position := position + 1, stack } :: callers))
      thread) :
    program.Reaches (.running body ⟨position, .self :: stack, receiver⟩ callers) thread := by
  refine Relation.ReflTransGen.trans (Reaches.leave here ?_ ?_) rest
  · simp [World.perform?, world, other]
  · simp [leave?, found]

theorem Reaches.throws
    (here : body.instructions[position]? = some (.plain .athrow))
    (unhandled : body.exceptions = []) :
    program.Reaches (.running body ⟨position, value :: stack, receiver⟩ [])
      (.ended (.thrown value) receiver) := by
  refine .leave here rfl ?_
  simp [leave?, unhandled]

theorem Reaches.returns
    (kind : ValueKind)
    (here : body.instructions[position]? = some (.plain (.ofReturn kind)))
    (typed : value.kind = kind) :
    program.Reaches (.running body ⟨position, value :: stack, receiver⟩ callers)
      (.afterReturn value receiver callers) := by
  refine .leave here ?_ ?_
  · cases kind <;> rfl
  · rw [leave?, List.head?_cons, Option.bind_some, typed, if_pos rfl, if_neg]
    cases kind <;> decide

end Instructions

end Program

end Drawing

/-! ## The bodies -/

namespace IteratorClass

/-- The methods by which elements are drawn begin with `hasNext` and `next`. -/
theorem protocolMethods_ok
    {className : String} {element : Ty} {methods : List MethodDef} {before after : ClassContext}
    (generated : protocolMethods className element before = .ok methods after) :
    ∃ others, methods = drawingMethods className element ++ others := by
  rw [protocolMethods_eq] at generated
  obtain ⟨bridge, _, -, rest⟩ := bind_ok.mp generated
  cases rest
  exact ⟨_, List.append_assoc _ _ _⟩

/-- Every element but one of no type can be turned into an object. -/
theorem exists_boxElement
    (className : String) {type : Erased}
    (valued : type ≠ .prim .void)
    (cls : ClassContext) :
    ∃ box, boxElement className type cls = .ok box cls := by
  cases type with
  | prim primitive =>
    cases primitive with
    | void => exact absurd rfl valued
    | _ => exact ⟨_, rfl⟩
  | named name => exact ⟨[], rfl⟩
  | array element => exact ⟨[], rfl⟩

/-- There are methods to draw elements of any type but `void`. -/
theorem exists_protocolMethods
    (className : String) (element : Ty)
    (valued : element.erasure ≠ .prim .void)
    (cls : ClassContext) :
    ∃ methods after, protocolMethods className element cls = .ok methods after := by
  have bridged : ∃ bridge after, nextBridge? className element cls = .ok bridge after := by
    unfold nextBridge?
    dsimp only
    split
    · exact ⟨_, _, rfl⟩
    · obtain ⟨box, boxed⟩ := exists_boxElement className valued cls
      exact ⟨_, _, bind_ok.mpr ⟨box, cls, boxed, rfl⟩⟩
  obtain ⟨bridge, after, made⟩ := bridged
  rw [protocolMethods_eq]
  exact ⟨_, after, bind_ok.mpr ⟨bridge, after, made, rfl⟩⟩

end IteratorClass

namespace Drawing

open IteratorClass Program

section Runs

variable {program : Program α} {element : Ty} {callers : List (Caller α)}
variable {receiver : Receiver α}

/-- The key of the field that remembers the last answer of `moveNext`. -/
def cacheKey : String × Erased := (hasNextFieldName, .prim .int)

/-- The key of the field that holds the current element. -/
def currentKey (element : Ty) : String × Erased := (currentFieldName, element.erasure)

@[simp] theorem key_currentField (className : String) (element : Ty) :
    key (currentField className element) = currentKey element := by
  simp [key, currentField, FieldRef.ofErased, currentKey]

theorem currentKey_ne_cacheKey (element : Ty) : currentKey element ≠ cacheKey := by
  intro same
  exact absurd (congrArg Prod.fst same) (by decide : currentFieldName ≠ hasNextFieldName)

/-- Where `hasNext` goes on once there is an answer to return. -/
def told (receiver : Receiver α) : Machine (Thing α) (Receiver α) :=
  { position := 11, stack := [], store := receiver }

/-- An answer that is known is not asked for again. -/
theorem reaches_known
    {value : Int32}
    (cached : receiver.fields cacheKey = .int value)
    (known : value ≠ 0) :
    program.Reaches (.running (hasNextBody program.className) (.start receiver) callers)
      (.running (hasNextBody program.className) (told receiver) callers) := by
  apply Reaches.perform rfl (World.perform?_load rfl)
  apply Reaches.perform rfl (perform?_getField rfl rfl cached)
  exact Reaches.perform rfl (World.perform?_taken (by simp [Opcode.tests?, known])) .refl

/-- The object after `moveNext` was asked and its answer is remembered. -/
def Program.remember (program : Program α) (receiver : Receiver α) : Receiver α :=
  { program.afterMove receiver with
    fields := Function.update (program.afterMove receiver).fields cacheKey
      (.int (if program.answer receiver then 1 else -1)) }

/-- An answer that is not known is asked for once and remembered. -/
theorem reaches_asked (cached : receiver.fields cacheKey = .int 0) :
    program.Reaches (.running (hasNextBody program.className) (.start receiver) callers)
      (.running (hasNextBody program.className) (told (program.remember receiver)) callers) := by
  apply Reaches.perform rfl (World.perform?_load rfl)
  apply Reaches.perform rfl (perform?_getField rfl rfl cached)
  apply Reaches.perform rfl (World.perform?_passed rfl)
  apply Reaches.perform rfl (World.perform?_load rfl)
  apply Reaches.perform rfl (World.perform?_load rfl)
  apply Reaches.perform rfl perform?_moveNext
  unfold Program.remember
  cases program.answer receiver with
  | true =>
    apply Reaches.perform rfl (World.perform?_passed rfl)
    apply Reaches.perform rfl (World.perform?_plain rfl)
    apply Reaches.perform rfl World.perform?_goto
    exact Reaches.perform rfl (perform?_putField rfl rfl rfl) .refl
  | false =>
    apply Reaches.perform rfl (World.perform?_taken rfl)
    apply Reaches.perform rfl World.perform?_push
    exact Reaches.perform rfl (perform?_putField rfl rfl rfl) .refl

/-- The remembered answer is returned. -/
theorem reaches_told
    {value : Int32}
    (cached : receiver.fields cacheKey = .int value) :
    program.Reaches (.running (hasNextBody program.className) (told receiver) callers)
      (.afterReturn (.ofBool (0 < value)) receiver callers) := by
  apply Reaches.perform rfl (World.perform?_load rfl)
  apply Reaches.perform rfl (perform?_getField rfl rfl cached)
  by_cases positive : 0 < value
  · rw [decide_eq_true positive]
    apply Reaches.perform rfl
      (World.perform?_passed (by simpa [Opcode.tests?] using positive))
    apply Reaches.perform rfl (World.perform?_plain rfl)
    exact Reaches.returns .int rfl rfl
  · rw [decide_eq_false positive]
    apply Reaches.perform rfl
      (World.perform?_taken (by simpa [Opcode.tests?] using positive))
    apply Reaches.perform rfl (World.perform?_plain rfl)
    exact Reaches.returns .int rfl rfl

end Runs

/-! ## What the object remembers -/

/-- A behaviour of `moveNext`: it hands out the elements one by one and then answers that there
are no more.  What else it does to the fields is left open. -/
structure Program.Yields
    (program : Program α)
    (element : Ty)
    (elements : List (Item α)) : Prop where
  hands : ∀ index (inside : index < elements.length) fields,
    (program.moveNext index fields).1 = true ∧
      (program.moveNext index fields).2 (currentKey element) = elements.get ⟨index, inside⟩
  stops : ∀ fields, (program.moveNext elements.length fields).1 = false

/-- An iterator over the elements: the methods around its `moveNext` are the generated ones. -/
structure Program.Draws
    (program : Program α)
    (element : Ty)
    (elements : List (Item α)) : Prop where
  generated : ∃ cls after,
    protocolMethods program.className element cls = .ok program.methods after
  typed : ∀ value ∈ elements, value.kind = element.erasure.kind
  yields : program.Yields element elements

/-- An object from which nothing was drawn yet. -/
structure Receiver.Fresh (receiver : Receiver α) : Prop where
  cache : receiver.fields cacheKey = .int 0
  answers : receiver.answers = []

section Memory

variable (element : Ty) (elements : List (Item α)) (taken : Nat) (receiver : Receiver α)

/-- Nothing is known of the element after those that were taken. -/
structure Unknown : Prop where
  inside : taken ≤ elements.length
  cache : receiver.fields cacheKey = .int 0
  answers : receiver.answers = List.replicate taken true

/-- The element after those that were taken is there. -/
structure Ready : Prop where
  current : elements[taken]? = some (receiver.fields (currentKey element))
  cache : receiver.fields cacheKey = .int 1
  answers : receiver.answers = List.replicate (taken + 1) true

/-- All elements were taken, and this is known. -/
structure Done : Prop where
  all : taken = elements.length
  cache : receiver.fields cacheKey = .int (-1)
  answers : receiver.answers = List.replicate taken true ++ [false]

/-- It is known whether there is another element. -/
def Known : Prop := Ready element elements taken receiver ∨ Done elements taken receiver

/-- The object after a number of elements was taken. -/
def Remembers : Prop := Unknown elements taken receiver ∨ Known element elements taken receiver

end Memory

section Calls

variable {program : Program α} {element : Ty} {elements : List (Item α)} {taken : Nat}
variable {receiver : Receiver α} {callers : List (Caller α)}

theorem Ready.lt_length (ready : Ready element elements taken receiver) :
    taken < elements.length :=
  (List.getElem?_eq_some_iff.mp ready.current).1

theorem Remembers.le_length (remembers : Remembers element elements taken receiver) :
    taken ≤ elements.length := by
  obtain unknown | ready | done := remembers
  · exact unknown.inside
  · exact ready.lt_length.le
  · exact done.all.le

/-- `moveNext` was called for the elements that were taken and at most once more. -/
theorem Remembers.length_answers_le (remembers : Remembers element elements taken receiver) :
    receiver.answers.length ≤ taken + 1 := by
  obtain unknown | ready | done := remembers
  · simp [unknown.answers]
  · simp [ready.answers]
  · simp [done.answers]

/-- Only the last answer of `moveNext` can be that there are no more elements. -/
theorem Remembers.last_of_false
    (remembers : Remembers element elements taken receiver)
    {index : Nat}
    (found : receiver.answers[index]? = some false) :
    index + 1 = receiver.answers.length := by
  have replicated : ∀ count, (List.replicate count true)[index]? ≠ some false := by
    intro count stopped
    exact absurd (List.eq_of_mem_replicate (List.mem_of_getElem? stopped)) (by decide)
  obtain unknown | ready | done := remembers
  · exact absurd (unknown.answers ▸ found) (replicated taken)
  · exact absurd (ready.answers ▸ found) (replicated (taken + 1))
  · have inside := (List.getElem?_eq_some_iff.mp found).1
    rw [done.answers] at found inside ⊢
    rw [List.length_append, List.length_replicate, List.length_singleton] at inside ⊢
    obtain before | last : index < taken ∨ index = taken := by omega
    · rw [List.getElem?_append_left (by simpa using before)] at found
      exact absurd found (replicated taken)
    · rw [last]

/-- Asking for the element after those that were taken makes it known. -/
theorem Unknown.known_remember
    (unknown : Unknown elements taken receiver)
    (yields : program.Yields element elements) :
    Known element elements taken (program.remember receiver) := by
  have count : receiver.answers.length = taken := by
    rw [unknown.answers, List.length_replicate]
  obtain inside | all := Nat.lt_or_eq_of_le unknown.inside
  · obtain ⟨answer, current⟩ := yields.hands taken inside receiver.fields
    have answered : program.answer receiver = true := by rw [Program.answer, count, answer]
    refine .inl ⟨?_, ?_, ?_⟩
    · rw [List.getElem?_eq_getElem inside]
      simp only [Program.remember, Program.afterMove, count]
      rw [Function.update_of_ne (currentKey_ne_cacheKey element), current]
      rfl
    · simp [Program.remember, answered]
    · simp [Program.remember, Program.afterMove, answered, unknown.answers,
        List.replicate_succ']
  · have answered : program.answer receiver = false := by
      rw [Program.answer, count, all]
      exact yields.stops receiver.fields
    refine .inr ⟨all, ?_, ?_⟩
    · simp [Program.remember, answered]
    · simp [Program.remember, Program.afterMove, answered, unknown.answers]

/-- Whatever the object remembers, it is known at the end of `hasNext` whether there is another
element. -/
theorem Remembers.reaches_known
    (remembers : Remembers element elements taken receiver)
    (yields : program.Yields element elements) :
    ∃ after, Known element elements taken after ∧
      program.Reaches (.running (hasNextBody program.className) (.start receiver) callers)
        (.running (hasNextBody program.className) (told after) callers) := by
  obtain unknown | ready | done := remembers
  · exact ⟨_, unknown.known_remember yields, reaches_asked unknown.cache⟩
  · exact ⟨receiver, .inl ready, Drawing.reaches_known ready.cache (by decide)⟩
  · exact ⟨receiver, .inr done, Drawing.reaches_known done.cache (by decide)⟩

/-- What is known is what `hasNext` returns. -/
theorem Known.reaches_told (known : Known element elements taken receiver) :
    program.Reaches (.running (hasNextBody program.className) (told receiver) callers)
      (.afterReturn (.ofBool (taken < elements.length)) receiver callers) := by
  obtain ready | done := known
  · rw [decide_eq_true ready.lt_length]
    exact Drawing.reaches_told ready.cache
  · rw [decide_eq_false done.all.not_lt]
    exact Drawing.reaches_told done.cache

/-- `hasNext` tells whether fewer than all elements were taken. -/
theorem Remembers.reaches_hasNext
    (remembers : Remembers element elements taken receiver)
    (yields : program.Yields element elements) :
    ∃ after, Known element elements taken after ∧
      program.Reaches (.running (hasNextBody program.className) (.start receiver) callers)
        (.afterReturn (.ofBool (taken < elements.length)) after callers) := by
  obtain ⟨after, known, reaches⟩ := remembers.reaches_known yields
  exact ⟨after, known, reaches.trans known.reaches_told⟩

theorem Program.Draws.body?_hasNext (draws : program.Draws element elements) :
    program.body? (hasNext program.className) = some (hasNextBody program.className) := by
  obtain ⟨cls, after, generated⟩ := draws.generated
  obtain ⟨others, methods⟩ := protocolMethods_ok generated
  have owner : (hasNext program.className).owner = program.className := rfl
  rw [Program.body?, if_pos owner, methods, drawingMethods, List.cons_append,
    List.find?_cons_of_pos]
  · rfl
  · rfl

/-- The body of `next` is the generated one. -/
theorem Program.Draws.body?_next (draws : program.Draws element elements) :
    program.body? (next program.className element) =
      some (nextBody program.className element) := by
  obtain ⟨cls, after, generated⟩ := draws.generated
  obtain ⟨others, methods⟩ := protocolMethods_ok generated
  have owner : (next program.className element).owner = program.className := rfl
  rw [Program.body?, if_pos owner, methods, drawingMethods, List.cons_append,
    List.find?_cons_of_neg, List.cons_append, List.find?_cons_of_pos]
  · rfl
  · simp [next, member, publicDef, MethodDef.descriptor, MethodRef.descriptor]
  · simp [next, member, publicDef, hasNextName, nextName]

/-- Where `next` goes on once `hasNext` has answered. -/
def checked (answer : Bool) (receiver : Receiver α) : Machine (Thing α) (Receiver α) :=
  { position := 2, stack := [.ofBool answer], store := receiver }

/-- A call of `next` begins with a call of `hasNext`. -/
theorem Program.Draws.reaches_checked
    (draws : program.Draws element elements)
    (remembers : Remembers element elements taken receiver) :
    ∃ between, Known element elements taken between ∧
      program.Reaches (.running (nextBody program.className element) (.start receiver) [])
        (.running (nextBody program.className element)
          (checked (taken < elements.length) between) []) := by
  obtain ⟨between, known, reaches⟩ := remembers.reaches_hasNext draws.yields
  have other : (hasNext program.className).name ≠ moveNextName :=
    (by decide : hasNextName ≠ moveNextName)
  refine ⟨between, known, ?_⟩
  apply Reaches.perform rfl (World.perform?_load rfl)
  exact Reaches.call rfl other draws.body?_hasNext reaches

/-- The object when the remembered answer no longer counts. -/
def Receiver.forget (receiver : Receiver α) : Receiver α :=
  { receiver with fields := Function.update receiver.fields cacheKey (.int 0) }

theorem Receiver.current_forget (receiver : Receiver α) (element : Ty) :
    receiver.forget.fields (currentKey element) = receiver.fields (currentKey element) := by
  simp [Receiver.forget, currentKey_ne_cacheKey]

theorem Ready.unknown_forget (ready : Ready element elements taken receiver) :
    Unknown elements (taken + 1) receiver.forget :=
  ⟨ready.lt_length, by simp [Receiver.forget], ready.answers⟩

/-- An element that is there is handed out, and nothing is known of the one after it. -/
theorem Ready.reaches_taken
    (ready : Ready element elements taken receiver)
    (typed : ∀ value ∈ elements, value.kind = element.erasure.kind) :
    program.Reaches
      (.running (nextBody program.className element) (checked true receiver) [])
      (.ended (.returned (some (receiver.fields (currentKey element)))) receiver.forget) := by
  have current : receiver.forget.fields (key (currentField program.className element)) =
      receiver.fields (currentKey element) := by
    rw [key_currentField, receiver.current_forget]
  apply Reaches.perform rfl (World.perform?_taken rfl)
  apply Reaches.perform rfl (World.perform?_load rfl)
  apply Reaches.perform rfl (World.perform?_plain rfl)
  apply Reaches.perform rfl (perform?_putField rfl rfl rfl)
  apply Reaches.perform rfl (World.perform?_load rfl)
  apply Reaches.perform rfl (perform?_getField rfl rfl current)
  exact Reaches.returns element.erasure.kind rfl
    (typed _ (List.mem_of_getElem? ready.current))

/-- If there is no element, an exception is thrown. -/
theorem reaches_thrown :
    program.Reaches
      (.running (nextBody program.className element) (checked false receiver) [])
      (.ended (.thrown (.other (.object Library.noSuchElement))) receiver) := by
  apply Reaches.perform rfl (World.perform?_passed rfl)
  apply Reaches.perform rfl rfl
  apply Reaches.perform rfl (World.perform?_plain rfl)
  apply Reaches.perform rfl perform?_constructor
  exact Reaches.throws rfl rfl

/-- What a request comes to after a number of elements was taken. -/
def answerTo (elements : List (Item α)) (taken : Nat) : Request → Outcome α
  | .hasNext => .returned (some (.ofBool (taken < elements.length)))
  | .next =>
    if taken < elements.length then .returned elements[taken]?
    else .thrown (.other (.object Library.noSuchElement))

/-- The number of elements taken after a request. -/
def takenAfter (elements : List (Item α)) (taken : Nat) : Request → Nat
  | .hasNext => taken
  | .next => if taken < elements.length then taken + 1 else taken

/-- Every request is answered, and the object remembers how many elements were taken. -/
theorem Program.Draws.call
    (draws : program.Draws element elements)
    (remembers : Remembers element elements taken receiver)
    (request : Request) :
    ∃ left, program.Call element request receiver (answerTo elements taken request) left ∧
      Remembers element elements (takenAfter elements taken request) left := by
  cases request with
  | hasNext =>
    obtain ⟨left, known, reaches⟩ := remembers.reaches_hasNext draws.yields
    exact ⟨left, ⟨_, draws.body?_hasNext, reaches⟩, .inr known⟩
  | next =>
    obtain ⟨between, known, reaches⟩ := draws.reaches_checked remembers
    obtain ready | done := known
    · have inside := ready.lt_length
      rw [decide_eq_true inside] at reaches
      refine ⟨between.forget, ⟨_, draws.body?_next, ?_⟩, ?_⟩
      · rw [answerTo, if_pos inside, ready.current]
        exact reaches.trans (ready.reaches_taken draws.typed)
      · rw [takenAfter, if_pos inside]
        exact .inl ready.unknown_forget
    · have outside := done.all.not_lt
      rw [decide_eq_false outside] at reaches
      refine ⟨between, ⟨_, draws.body?_next, ?_⟩, ?_⟩
      · rw [answerTo, if_neg outside]
        exact reaches.trans reaches_thrown
      · rw [takenAfter, if_neg outside]
        exact .inr (.inr done)

end Calls

/-! ## Calls in any order -/

/-- The elements that calls of `next` returned. -/
def delivered (trace : List (Request × Outcome α)) : List (Item α) :=
  trace.filterMap fun
    | (.next, .returned value) => value
    | _ => none

/-- The outcomes of calls are those of drawing the elements one after the other. -/
structure Serves (elements : List (Item α)) (trace : List (Request × Outcome α)) : Prop where
  /-- The elements come in their order, and each one once. -/
  delivers : delivered trace <+: elements
  /-- There is another element while fewer than all were taken. -/
  tells : ∀ before outcome after, trace = before ++ (.hasNext, outcome) :: after →
    outcome = .returned (some (.ofBool ((delivered before).length < elements.length)))
  /-- As long as there is another element, `next` returns one. -/
  gives : ∀ before outcome after, trace = before ++ (.next, outcome) :: after →
    (delivered before).length < elements.length → ∃ value, outcome = .returned (some value)
  /-- An exception is thrown when all elements were taken, and only then. -/
  throws : ∀ before outcome after, trace = before ++ (.next, outcome) :: after →
    (outcome = .thrown (.other (.object Library.noSuchElement)) ↔
      (delivered before).length = elements.length)

/-- The outcome of each call is the answer to its request after the elements taken before. -/
structure Follows (elements : List (Item α)) (trace : List (Request × Outcome α)) : Prop where
  delivers : delivered trace <+: elements
  answers : ∀ before request outcome after, trace = before ++ (request, outcome) :: after →
    outcome = answerTo elements (delivered before).length request

section Sessions

variable {elements : List (Item α)} {trace : List (Request × Outcome α)}

theorem Follows.nil (elements : List (Item α)) : Follows elements [] where
  delivers := List.nil_prefix
  answers := by simp

theorem delivered_concat (trace : List (Request × Outcome α)) (event : Request × Outcome α) :
    delivered (trace ++ [event]) = delivered trace ++ delivered [event] :=
  List.filterMap_append

/-- The element that comes next is the only one that an answer adds to those delivered. -/
theorem delivered_answerTo (elements : List (Item α)) (taken : Nat) (request : Request) :
    delivered [(request, answerTo elements taken request)] =
      (elements.drop taken).take (takenAfter elements taken request - taken) := by
  cases request with
  | hasNext => simp [delivered, answerTo, takenAfter]
  | next =>
    by_cases inside : taken < elements.length
    · simp [delivered, answerTo, takenAfter, inside, List.take_one, List.head?_drop]
    · simp [delivered, answerTo, takenAfter, inside]

theorem Follows.delivered_eq (follows : Follows elements trace) :
    delivered trace = elements.take (delivered trace).length :=
  List.prefix_iff_eq_take.mp follows.delivers

theorem le_takenAfter (elements : List (Item α)) (taken : Nat) (request : Request) :
    taken ≤ takenAfter elements taken request := by
  cases request with
  | hasNext => exact Nat.le_refl _
  | next =>
    rw [takenAfter]
    split_ifs <;> omega

/-- An answer extends what was delivered up to the number of elements that are then taken. -/
theorem Follows.delivered_extend (follows : Follows elements trace) (request : Request) :
    delivered (trace ++ [(request, answerTo elements (delivered trace).length request)]) =
      elements.take (takenAfter elements (delivered trace).length request) := by
  rw [delivered_concat, delivered_answerTo]
  nth_rewrite 1 [follows.delivered_eq]
  rw [← List.take_add]
  congr 1
  have := le_takenAfter elements (delivered trace).length request
  omega

/-- One more request is answered. -/
theorem Follows.extend (follows : Follows elements trace) (request : Request) :
    Follows elements
      (trace ++ [(request, answerTo elements (delivered trace).length request)]) := by
  refine ⟨?_, ?_⟩
  · rw [follows.delivered_extend]
    exact List.take_prefix _ _
  · intro before other outcome after split
    obtain rfl | ⟨rest, last, rfl⟩ := List.eq_nil_or_concat after
    · obtain ⟨rfl, same⟩ := List.append_inj' split rfl
      cases same
      rfl
    · refine follows.answers before other outcome rest ?_
      rw [List.concat_eq_append, ← List.cons_append, ← List.append_assoc] at split
      exact (List.append_inj' split rfl).1

/-- Outcomes that follow the elements serve them. -/
theorem Follows.serves (follows : Follows elements trace) : Serves elements trace where
  delivers := follows.delivers
  tells before outcome after split := follows.answers before .hasNext outcome after split
  gives before outcome after split inside := by
    refine ⟨elements.get ⟨(delivered before).length, inside⟩, ?_⟩
    rw [follows.answers before .next outcome after split, answerTo, if_pos inside,
      List.getElem?_eq_getElem inside]
    rfl
  throws before outcome after split := by
    have within : (delivered before).length ≤ elements.length := by
      refine List.IsPrefix.length_le (List.IsPrefix.trans ?_ follows.delivers)
      rw [split, delivered, delivered, List.filterMap_append]
      exact List.prefix_append _ _
    rw [follows.answers before .next outcome after split, answerTo]
    split_ifs with inside
    · simp only [false_iff]
      omega
    · simp only [true_iff]
      omega

variable {program : Program α} {element : Ty} {start final : Receiver α}

/-- What a session delivers and what the object remembers at its end. -/
theorem Program.Draws.follows
    (draws : program.Draws element elements)
    (fresh : start.Fresh)
    (session : program.Session element start trace final) :
    Follows elements trace ∧ Remembers element elements (delivered trace).length final := by
  induction session with
  | start => exact ⟨.nil elements, .inl ⟨Nat.zero_le _, fresh.cache, fresh.answers⟩⟩
  | @call trace request outcome before between session call ih =>
    obtain ⟨follows, remembers⟩ := ih
    obtain ⟨left, called, remembersLeft⟩ := draws.call remembers request
    obtain ⟨rfl, rfl⟩ := call.unique called
    refine ⟨follows.extend request, ?_⟩
    rw [follows.delivered_extend, List.length_take, Nat.min_eq_left remembersLeft.le_length]
    exact remembersLeft

/-- Requests can be made in any order. -/
theorem Program.Draws.exists_session
    (draws : program.Draws element elements)
    (fresh : start.Fresh)
    (requests : List Request) :
    ∃ trace final, trace.map Prod.fst = requests ∧ program.Session element start trace final := by
  induction requests using List.reverseRecOn with
  | nil => exact ⟨[], start, rfl, .start⟩
  | append_singleton requests request ih =>
    obtain ⟨trace, between, made, session⟩ := ih
    obtain ⟨-, remembers⟩ := draws.follows fresh session
    obtain ⟨final, call, -⟩ := draws.call remembers request
    refine ⟨_, final, ?_, session.call call⟩
    rw [List.map_append, made]
    rfl

/--
Let `moveNext` hand out some elements and then answer that there are no more.  Then
`hasNext` and `next` can be called in any order and any number of times on an object from
which nothing was drawn yet.  However they are called, `next` returns the elements one
after the other, and throws once all were taken; `hasNext` tells whether there is another
element; and `moveNext` is called at most once more than elements were taken, and never
again after it has answered that there are no more.
-/
theorem protocol_draws_elements
    (program : Program α)
    (element : Ty)
    (elements : List (Item α))
    (start : Receiver α)
    (cls after : ClassContext)
    (generated : protocolMethods program.className element cls = .ok program.methods after)
    (typed : ∀ value ∈ elements, value.kind = element.erasure.kind)
    (yields : program.Yields element elements)
    (fresh : start.Fresh) :
    (∀ requests, ∃ trace final, trace.map Prod.fst = requests ∧
      program.Session element start trace final) ∧
    ∀ trace final, program.Session element start trace final →
      Serves elements trace ∧
      final.answers.length ≤ (delivered trace).length + 1 ∧
      ∀ index, final.answers[index]? = some false → index + 1 = final.answers.length := by
  have draws : program.Draws element elements := ⟨⟨cls, after, generated⟩, typed, yields⟩
  refine ⟨draws.exists_session fresh, ?_⟩
  intro trace final session
  obtain ⟨follows, remembers⟩ := draws.follows fresh session
  refine ⟨follows.serves, remembers.length_answers_le, ?_⟩
  intro index found
  exact remembers.last_of_false found

/-- An iterator over the integers 5 and 7. -/
def twoIntegers (methods : List MethodDef) : Program Unit :=
  { className := "Foo$Iterator$0"
    methods
    moveNext := fun index fields =>
      (index < 2, Function.update fields (currentKey .int) (.int (if index = 0 then 5 else 7))) }

theorem twoIntegers_yields (methods : List MethodDef) :
    (twoIntegers methods).Yields .int [.int 5, .int 7] where
  hands index inside fields := by
    obtain rfl | rfl : index = 0 ∨ index = 1 := by
      simp only [List.length_cons, List.length_nil] at inside
      omega
    · simp [twoIntegers]
    · simp [twoIntegers]
  stops fields := rfl

/-- Asking twice, and taking more than there is. -/
theorem protocol_draws_elements_twoIntegers :
    ∃ methods after, protocolMethods "Foo$Iterator$0" .int { name := "Foo" } = .ok methods after ∧
      ∃ trace final,
        trace.map Prod.fst = [.hasNext, .hasNext, .next, .next, .next, .hasNext] ∧
        (twoIntegers methods).Session .int { fields := fun _ => .int 0, answers := [] } trace
          final ∧
        Serves [.int 5, .int 7] trace ∧ final.answers.length ≤ (delivered trace).length + 1 := by
  obtain ⟨methods, after, generated⟩ :=
    exists_protocolMethods "Foo$Iterator$0" .int (by decide) { name := "Foo" }
  refine ⟨methods, after, generated, ?_⟩
  obtain ⟨runs, serves⟩ := protocol_draws_elements (twoIntegers methods) .int [.int 5, .int 7]
    { fields := fun _ => .int 0, answers := [] } { name := "Foo" } after generated (by decide)
    (twoIntegers_yields methods) ⟨rfl, rfl⟩
  obtain ⟨trace, final, made, session⟩ :=
    runs [.hasNext, .hasNext, .next, .next, .next, .hasNext]
  obtain ⟨served, bounded, -⟩ := serves trace final session
  exact ⟨trace, final, made, session, served, bounded⟩

end Sessions

end Drawing
end StackCode
