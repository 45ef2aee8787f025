import StackCode.Proofs.Ancestry
import StackCode.Proofs.Entry

/-!
# Where statements are lowered

The states in which the statements of a class are lowered are those in which the
lowering of a body begins, and those that lowering a statement on the way leads
to.  In each of them the books are in order, and the frames follow the
statements around the one that is lowered.
-/

namespace StackCode

open Emit

/-- No two statements of a method share an identifier. -/
def ClassDecl.Distinct (decl : ClassDecl) : Prop :=
  ∀ method ∈ decl.methods, ∀ body ∈ method.body, body.Distinct

/-- No two statements of an annotated class share an identifier. -/
theorem ClassDecl.distinct_annotate (decl : ClassDecl) : decl.annotate.Distinct := by
  intro method member body found
  obtain ⟨source, -, rfl⟩ := List.mem_map.mp member
  obtain ⟨original, -, rfl⟩ := Option.map_eq_some_iff.mp found
  exact original.distinct_annotate

/-- A lambda that stands in a body, on its own or inside other lambdas. -/
inductive Stmt.Holds (body : Stmt) : Lambda → Prop where
  | direct {lambda : Lambda} (member : lambda ∈ body.lambdas) : Holds body lambda
  | nested {outer inner : Lambda}
      (holds : Holds body outer)
      (member : inner ∈ outer.body.lambdas) :
      Holds body inner

theorem Stmt.Distinct.holds {body : Stmt} {lambda : Lambda} (distinct : body.Distinct)
    (holds : body.Holds lambda) : lambda.body.Distinct := by
  induction holds with
  | direct member => exact distinct.allDistinct _ member
  | nested _ member ih => exact ih.allDistinct _ member

/-- What a body is compiled as: the body of a declared method, of a lambda or of an iterator. -/
inductive Compilation where
  | plain (className : String) (method : MethodDecl) (body : Stmt)
  | lambda (className methodName : String) (isStatic : Bool) (depth : Nat) (function : Lambda)
      (access : List (LocalId × LocalAccess)) (selfPath : List FieldRef)
  | iterator (layout : IteratorClass.Layout) (method : MethodDecl) (body : Stmt)

namespace Compilation

/-- The body that is compiled. -/
def body : Compilation → Stmt
  | plain _ _ body => body
  | lambda _ _ _ _ function _ _ => function.body
  | iterator _ _ body => body

/-- The state in which the code is begun. -/
def first (compilation : Compilation) (debugInfo : Bool) (cls : ClassContext) : Emission :=
  let method := match compilation with
    | plain className method _ =>
      .start className method.name method.isStatic method.ret debugInfo
    | lambda className methodName isStatic _ function _ _ =>
      .start className methodName isStatic function.ret debugInfo
    | iterator layout method _ => .start layout.className method.name false .boolean debugInfo
  { method, cls }

/-- What comes before the body. -/
def entry : Compilation → Emit Unit
  | plain _ method body => plainEntry method body
  | lambda _ _ _ depth function access selfPath =>
    lambdaEntry (prepareWithin depth) function access selfPath
  | iterator layout method body => do
    let suspension ← moveNextStart layout body
    enterScope
    moveNextEntry layout method body suspension

/-- The whole code. -/
def code : Compilation → Emit MethodBody
  | plain _ method body => plainBody method body
  | lambda _ _ _ depth function access selfPath =>
    lambdaBody (prepareWithin depth) function access selfPath
  | iterator layout method body => do
    let (finished, _) ← IteratorClass.moveNextBody layout method body
    return finished

/-- The body is that of a method of the class, or of a lambda inside it. -/
inductive Of (decl : ClassDecl) : Compilation → Prop where
  | plain {className : String} {method : MethodDecl} {body : Stmt}
      (member : method ∈ decl.methods)
      (found : method.body = some body) :
      Of decl (.plain className method body)
  | lambda {method : MethodDecl} {body : Stmt} {lambda : Lambda} {className methodName : String}
      {isStatic : Bool} {depth : Nat} {access : List (LocalId × LocalAccess)}
      {selfPath : List FieldRef}
      (member : method ∈ decl.methods)
      (found : method.body = some body)
      (holds : body.Holds lambda) :
      Of decl (.lambda className methodName isStatic depth lambda access selfPath)
  | iterator {layout : IteratorClass.Layout} {method : MethodDecl} {body : Stmt}
      (member : method ∈ decl.methods)
      (found : method.body = some body) :
      Of decl (.iterator layout method body)

/-- After a body an iterator is exhausted, and any other method returns. -/
def ending (body : Stmt) : Option Suspension → Emit Unit
  | none => returnAtEnd body
  | some suspension => do
    mark suspension.exhausted
    finishIteration suspension.state
    exitScope

/-- The code of a body is what comes before it, the body itself, and what comes after it. -/
theorem code_ok
    {compilation : Compilation} {first last : Emission} {finished : MethodBody}
    (success : compilation.code first = .ok finished last) :
    ∃ start lowered ended suspension,
      compilation.entry first = .ok () start ∧
        lower compilation.body start = .ok () lowered ∧
        ending compilation.body suspension lowered = .ok () ended ∧
        ended.code.finish = .ok finished := by
  cases compilation with
  | plain _ method body =>
    rw [code, plainBody_eq] at success
    obtain ⟨start, entering, rest⟩ := seq_ok.mp success
    obtain ⟨lowered, lowering, rest⟩ := seq_ok.mp rest
    obtain ⟨ended, ending, finishing⟩ := seq_ok.mp rest
    exact ⟨start, lowered, ended, none, entering, lowering, ending, (finish_ok.mp finishing).1⟩
  | lambda =>
    rw [code, lambdaBody_eq] at success
    obtain ⟨start, entering, rest⟩ := seq_ok.mp success
    obtain ⟨lowered, lowering, rest⟩ := seq_ok.mp rest
    obtain ⟨ended, ending, finishing⟩ := seq_ok.mp rest
    exact ⟨start, lowered, ended, none, entering, lowering, ending, (finish_ok.mp finishing).1⟩
  | iterator layout method body =>
    obtain ⟨⟨_, _⟩, _, generated, same⟩ := bind_ok.mp success
    obtain ⟨rfl, -⟩ := pure_ok.mp same
    rw [moveNextBody_eq] at generated
    obtain ⟨suspension, _, beginning, rest⟩ := bind_ok.mp generated
    obtain ⟨_, opening, rest⟩ := seq_ok.mp rest
    obtain ⟨start, entering, rest⟩ := seq_ok.mp rest
    obtain ⟨lowered, lowering, rest⟩ := seq_ok.mp rest
    obtain ⟨_, marking, rest⟩ := seq_ok.mp rest
    obtain ⟨_, iterating, rest⟩ := seq_ok.mp rest
    obtain ⟨ended, exiting, rest⟩ := seq_ok.mp rest
    replace rest := method_bind_eq.mp rest
    obtain ⟨_, _, finishing, same⟩ := bind_ok.mp rest
    obtain ⟨⟨⟩, -⟩ := pure_ok.mp same
    refine ⟨start, lowered, ended, some suspension, ?_, lowering, ?_, (finish_ok.mp finishing).1⟩
    · exact bind_ok.mpr ⟨_, _, beginning, seq_ok.mpr ⟨_, opening, entering⟩⟩
    · exact seq_ok.mpr ⟨_, marking, seq_ok.mpr ⟨_, iterating, exiting⟩⟩

end Compilation

/-- The states in which the lowering of a body of a class begins. -/
inductive Entered (decl : ClassDecl) : Stmt → Emission → Prop where
  | intro {compilation : Compilation} {debugInfo : Bool} {cls : ClassContext} {state : Emission}
      (ofClass : compilation.Of decl)
      (entering : compilation.entry (compilation.first debugInfo cls) = .ok () state) :
      Entered decl compilation.body state

/-- Lowering the body of a declared method begins after what comes before it. -/
theorem Entered.plain
    {decl : ClassDecl} {className : String} {method : MethodDecl} {body : Stmt} {debugInfo : Bool}
    {cls : ClassContext} {state : Emission}
    (member : method ∈ decl.methods)
    (found : method.body = some body)
    (entering :
      plainEntry method body ((Compilation.plain className method body).first debugInfo cls) =
        .ok () state) :
    Entered decl body state :=
  .intro (Compilation.Of.plain member found) entering

/-- The code that a body becomes, whatever it is a body of. -/
inductive Generates : Stmt → MethodBody → Prop where
  | intro {compilation : Compilation} {debugInfo : Bool} {cls : ClassContext} {code : MethodBody}
      {last : Emission}
      (generated : compilation.code (compilation.first debugInfo cls) = .ok code last) :
      Generates compilation.body code

/-- A body of a class becomes the code of a method.  It is lowered from the given state on. -/
inductive CompilesTo (decl : ClassDecl) : Stmt → Emission → MethodBody → Prop where
  | intro {compilation : Compilation} {debugInfo : Bool} {cls : ClassContext}
      {start last : Emission} {finished : MethodBody}
      (ofClass : compilation.Of decl)
      (entering : compilation.entry (compilation.first debugInfo cls) = .ok () start)
      (generated : compilation.code (compilation.first debugInfo cls) = .ok finished last) :
      CompilesTo decl compilation.body start finished

theorem CompilesTo.entered
    {decl : ClassDecl} {body : Stmt} {start : Emission} {finished : MethodBody}
    (compiles : CompilesTo decl body start finished) : Entered decl body start := by
  obtain ⟨ofClass, entering, -⟩ := compiles
  exact ⟨ofClass, entering⟩

open Classical in
/-- A lowering that stops with an error at one statement in one state. -/
noncomputable def stopAt
    (lower : Lowering)
    (stmt : Stmt)
    (state : Emission)
    (error : Error) :
    Lowering := fun other current =>
  if other = stmt ∧ current = state then .error error current else lower other current

/--
Lowering a statement lowers another one in some state: if the latter stops there,
so does the former, whatever the error is.
-/
def Enters
    (lower : Lowering)
    (stmt : Stmt)
    (state : Emission)
    (inner : Stmt)
    (innerState : Emission) :
    Prop :=
  ∀ error, lowerReachable (stopAt lower inner innerState error) stmt state =
    .error error innerState

/-- The states in which the statements of a body are lowered, from where its lowering begins. -/
inductive LowersAt (body : Stmt) (begun : Emission) : Stmt → Emission → Prop where
  | body : LowersAt body begun body begun
  | within {stmt inner : Stmt} {state innerState : Emission} {depth : Nat}
      (outer : LowersAt body begun stmt state)
      (enters : Enters (lowerWithin depth) stmt state inner innerState) :
      LowersAt body begun inner innerState

/-- The states in which the statements of a body of a class are lowered. -/
def LoweredAt (decl : ClassDecl) (body stmt : Stmt) (state : Emission) : Prop :=
  ∃ begun, Entered decl body begun ∧ LowersAt body begun stmt state

/-- The books are in order where a statement is lowered. -/
structure InOrder (stmt : Stmt) (state : Emission) : Prop where
  distinguished : Distinguished state.method.setting stmt
  ready : state.Ready state.method.setting stmt.ids [] []

theorem Emit.Bare.inOrder {body : Stmt} {labels : List Label} {state : Emission}
    (bare : Bare body.ids labels state) : InOrder body state where
  distinguished := bare.distinguished
  ready := bare.ready.mono (List.Subperm.refl _) List.nil_subperm (List.Subperm.refl _)

section Entered

variable {decl : ClassDecl} {body : Stmt} {state : Emission}

/-- No construct is around a body that is about to be lowered. -/
theorem Entered.bare (distinct : decl.Distinct) (entered : Entered decl body state) :
    ∃ labels, Bare body.ids labels state := by
  obtain ⟨ofClass, entering⟩ := entered
  cases ofClass with
  | plain member found =>
    have bodyDistinct := distinct _ member _ found
    have bare := bare_start bodyDistinct.nodup
    exact ⟨_, ((Preparing.plainEntry _ bodyDistinct).bare (bare _ _ _ _ _ _) entering).1⟩
  | lambda member found holds =>
    have bodyDistinct := (distinct _ member _ found).holds holds
    have bare := bare_start bodyDistinct.nodup
    exact ⟨_, ((Preparing.lambdaEntry (.prepareWithin _ _ bodyDistinct.allDistinct) _ _).bare
      (bare _ _ _ _ _ _) entering).1⟩
  | iterator member found =>
    have bodyDistinct := distinct _ member _ found
    have bare := bare_start bodyDistinct.nodup
    obtain ⟨suspension, begun, beginning, entering⟩ := bind_ok.mp entering
    obtain ⟨first, others, resume, -, bareBegun⟩ :=
      bare_moveNextStart (bare _ _ _ _ _ _) rfl rfl beginning
    obtain ⟨opened, opening, entering⟩ := seq_ok.mp entering
    obtain rfl := enterScope_ok.mp opening
    have bareOpened := Bare.mk (Tidy.ready_enterScope bareBegun.ready) bareBegun.frames
    exact ⟨_, (bare_moveNextEntry bodyDistinct resume bareOpened entering).1⟩

/-- The ancestry of the statements of a body is known where its lowering begins. -/
theorem Entered.parents (entered : Entered decl body state) :
    state.method.parents = .ofBody body := by
  obtain @⟨compilation, _, _, _, -, entering⟩ := entered
  have last : ∃ prepared, setParents compilation.body prepared = .ok () state := by
    cases compilation with
    | plain =>
      obtain ⟨_, -, entering⟩ := seq_ok.mp entering
      obtain ⟨prepared, -, entering⟩ := seq_ok.mp entering
      exact ⟨prepared, entering⟩
    | lambda =>
      obtain ⟨_, -, entering⟩ := seq_ok.mp entering
      obtain ⟨prepared, -, entering⟩ := seq_ok.mp entering
      exact ⟨prepared, entering⟩
    | iterator =>
      obtain ⟨_, _, -, entering⟩ := bind_ok.mp entering
      obtain ⟨_, -, entering⟩ := seq_ok.mp entering
      obtain ⟨_, -, entering⟩ := seq_ok.mp entering
      obtain ⟨_, -, entering⟩ := seq_ok.mp entering
      obtain ⟨prepared, -, entering⟩ := seq_ok.mp entering
      exact ⟨prepared, entering⟩
  obtain ⟨prepared, known⟩ := last
  rw [← modifyMethod_ok.mp known]
  rfl

end Entered

/--
A statement that is lowered while another one is stands at a place at which that
one lowers others, and the books are in order there.
-/
theorem InOrder.calls
    {stmt inner : Stmt} {state innerState : Emission} {depth : Nat}
    (inOrder : InOrder stmt state)
    (enters : Enters (lowerWithin depth) stmt state inner innerState) :
    Calls stmt state.method.setting innerState.method.setting inner ∧
      innerState.Ready innerState.method.setting inner.ids [] [] := by
  -- Otherwise stopping there would keep the books, and the lowering could fail because of them.
  by_contra disorder
  have tidy : CallsTidily (stopAt (lowerWithin depth) inner innerState .scopeUnderflow)
      (Calls stmt state.method.setting) := by
    intro method other called
    have distinguished := inOrder.distinguished.calls called
    have within := Tidy.lowerWithin depth distinguished
    refine ⟨distinguished.distinct, ?_, ?_⟩
    · intro before _ after ready success
      unfold stopAt at success
      split_ifs at success
      exact within.kept ready success
    · intro before error after ready failure
      unfold stopAt at failure
      split_ifs at failure with stopped
      · obtain ⟨rfl, rfl⟩ := stopped
        obtain rfl := ready.setting
        exact absurd ⟨called, ready⟩ disorder
      · exact within.proper ready failure
  have proper := (Tidy.lowerReachable tidy).proper inOrder.ready (enters .scopeUnderflow)
  contradiction

namespace LoweredAt

variable {decl : ClassDecl} {body stmt : Stmt} {state : Emission}

/-- The books are in order wherever a statement of an annotated class is lowered. -/
theorem inOrder (distinct : decl.Distinct) (loweredAt : LoweredAt decl body stmt state) :
    InOrder stmt state := by
  obtain ⟨begun, entered, lowersAt⟩ := loweredAt
  induction lowersAt with
  | body =>
    obtain ⟨labels, bare⟩ := entered.bare distinct
    exact bare.inOrder
  | within _ enters ih =>
    obtain ⟨called, ready⟩ := ih.calls enters
    exact ⟨ih.distinguished.calls called, ready⟩

/-- The frames around a statement follow the statements around it. -/
theorem sited (distinct : decl.Distinct) (loweredAt : LoweredAt decl body stmt state) :
    ∃ outer, Sited body stmt outer state.method.frames := by
  obtain ⟨begun, entered, lowersAt⟩ := loweredAt
  induction lowersAt with
  | body =>
    obtain ⟨labels, bare⟩ := entered.bare distinct
    rw [bare.frames]
    exact ⟨[], .whole⟩
  | within outer enters ih =>
    obtain ⟨outerIds, sited⟩ := ih
    obtain ⟨called, -⟩ := (inOrder distinct ⟨begun, entered, outer⟩).calls enters
    have start : Sited body _ outerIds (MethodContext.setting _).frames := sited
    obtain ⟨around, -, inside⟩ := start.calls called
    exact ⟨around, inside⟩

/-- The ancestry of the statements of the body is known wherever one of them is lowered. -/
theorem parents (distinct : decl.Distinct) (loweredAt : LoweredAt decl body stmt state) :
    state.method.parents = .ofBody body := by
  obtain ⟨begun, entered, lowersAt⟩ := loweredAt
  induction lowersAt with
  | body => exact entered.parents
  | within outer enters ih =>
    obtain ⟨called, -⟩ := (inOrder distinct ⟨begun, entered, outer⟩).calls enters
    have same := called.parents
    exact same.trans ih

/-- No two statements of the body share an identifier. -/
theorem nodup_body (distinct : decl.Distinct) (loweredAt : LoweredAt decl body stmt state) :
    body.ids.Nodup := by
  obtain ⟨begun, entered, -⟩ := loweredAt
  obtain ⟨labels, bare⟩ := entered.bare distinct
  exact bare.ready.idsNodup

end LoweredAt

end StackCode
