import StackCode.Proofs.Outline

/-!
# Constructs with a cleanup

Four kinds of statements have something to clean up when control leaves what
they protect: a try statement with a finally body, a statement that holds a
monitor, a statement with resources, and a loop that disposes of its iterator.
Which of them protect a part of a statement can be read off the source.  While a
body is lowered, each of them has a frame.
-/

namespace StackCode

/-- What leaving a construct takes. -/
inductive Cleanup where
  /-- A finally body runs. -/
  | finalizer (body : Stmt)
  /-- A monitor is given up. -/
  | monitor
  /-- A resource is disposed of. -/
  | resource (dispose : MethodRef)
  /-- An iterator is disposed of. -/
  | iterator (dispose : MethodRef)

/-- A construct with a cleanup, as the source has it. -/
structure Construct where
  /-- The statement. -/
  stmt : StmtId
  /-- What leaving it takes. -/
  cleanup : Cleanup

/-- The construct to which a frame belongs, if it has a cleanup. -/
def Frame.construct? (frame : Frame) : Option Construct :=
  match frame.kind with
  | .loop => none
  | .switch => none
  | .labeled => none
  | .finalized finalizer _ => some { stmt := frame.stmt, cleanup := .finalizer finalizer }
  | .monitor _ _ => some { stmt := frame.stmt, cleanup := .monitor }
  | .resource _ dispose _ => some { stmt := frame.stmt, cleanup := .resource dispose }
  | .iterator _ dispose _ => some { stmt := frame.stmt, cleanup := .iterator dispose }

/-- A frame has a cleanup exactly if it has a region. -/
theorem Frame.isSome_construct? (frame : Frame) :
    frame.construct?.isSome = frame.region?.isSome := by
  obtain ⟨stmt, kind⟩ := frame
  cases kind <;> rfl

/-- The constructs around the current point that have a cleanup, the innermost one first. -/
def MethodContext.constructs (method : MethodContext) : List Construct :=
  method.frames.filterMap Frame.construct?

/-- The constructs of a loop over a collection. -/
def ElementSource.constructs (id : StmtId) : ElementSource → List Construct
  | .array => []
  | .iterator _ _ _ dispose =>
    dispose.toList.map fun dispose => { stmt := id, cleanup := .iterator dispose }

namespace Stmt

variable {stmt : Stmt}

/-- The constructs of a statement that have a cleanup, the innermost one first. -/
def constructs : Stmt → List Construct
  | .forEach tag _ _ source _ => source.constructs tag.id
  | .guard tag _ _ finalizer =>
    finalizer.toList.map fun finalizer => { stmt := tag.id, cleanup := .finalizer finalizer }
  | .acquire tag resources _ =>
    (resources.map fun resource =>
      { stmt := tag.id, cleanup := .resource resource.dispose }).reverse
  | .synchronized tag _ _ => [{ stmt := tag.id, cleanup := .monitor }]
  | _ => []

/--
The statements directly inside a statement, each with the constructs of the
statement that protect it.  The finally body of a try statement is not protected
by that statement.
-/
def parts (stmt : Stmt) : List (Stmt × List Construct) :=
  match stmt with
  | .guard _ body catches finalizer =>
    (body :: catches.map CatchClause.body).map (fun part => (part, stmt.constructs)) ++
      finalizer.toList.map fun part => (part, [])
  | _ => stmt.children.map fun part => (part, stmt.constructs)

/-- The parts of a statement are the statements directly inside it. -/
theorem map_fst_parts (stmt : Stmt) : stmt.parts.map Prod.fst = stmt.children := by
  cases stmt <;> simp [parts, children, Function.comp_def]

theorem mem_children_of_mem_parts {part : Stmt × List Construct} (member : part ∈ stmt.parts) :
    part.1 ∈ stmt.children := by
  rw [← map_fst_parts]
  exact List.mem_map_of_mem member

/-- A part is protected by all constructs of the statement or by none of them. -/
theorem protects_of_mem_parts {part : Stmt × List Construct} (member : part ∈ stmt.parts) :
    part.2 = stmt.constructs ∨ part.2 = [] := by
  unfold parts at member
  split at member
  · obtain member | member := List.mem_append.mp member
    · obtain ⟨_, -, rfl⟩ := List.mem_map.mp member
      exact .inl rfl
    · obtain ⟨_, -, rfl⟩ := List.mem_map.mp member
      exact .inr rfl
  · obtain ⟨_, -, rfl⟩ := List.mem_map.mp member
    exact .inl rfl

/-- The constructs of a statement name it, and their finally bodies are parts of it. -/
theorem of_mem_constructs {construct : Construct} (member : construct ∈ stmt.constructs) :
    construct.stmt = stmt.id ∧
      ∀ finalizer, construct.cleanup = .finalizer finalizer → finalizer ∈ stmt.children := by
  cases stmt with
  | forEach tag decl collection source body =>
    cases source with
    | array => contradiction
    | iterator iterator hasNext next dispose =>
      obtain ⟨_, -, rfl⟩ := List.mem_map.mp member
      exact ⟨rfl, nofun⟩
  | guard tag body catches finalizer =>
    obtain ⟨found, present, rfl⟩ := List.mem_map.mp member
    refine ⟨rfl, ?_⟩
    rintro _ ⟨⟩
    exact List.mem_append_right _ present
  | acquire tag resources body =>
    obtain ⟨_, -, rfl⟩ := List.mem_map.mp (List.mem_reverse.mp member)
    exact ⟨rfl, nofun⟩
  | synchronized tag lock body =>
    obtain rfl := List.mem_singleton.mp member
    exact ⟨rfl, nofun⟩
  | _ => contradiction

end Stmt

end StackCode
