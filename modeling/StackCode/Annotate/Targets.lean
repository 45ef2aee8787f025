import StackCode.Tree.Visit

/-!
# Jump targets

Where the jumps of one body go.  A `break` goes to an enclosing loop or switch
or to an enclosing labeled statement, a `continue` to an enclosing loop or to
the statement under an enclosing label, a jump to a case to the enclosing
switch, and a `goto` to the last statement of the body that carries its label.
Lambdas are bodies of their own.
-/

namespace StackCode

/-- A statement that a jump may refer to while it is open. -/
inductive Enclosing where
  /-- A loop. -/
  | loop (id : StmtId)
  /-- A switch. -/
  | switch (id : StmtId)
  /-- A labeled statement and the statement under its label. -/
  | labeled (label : String) (id inner : StmtId)
  deriving DecidableEq, Repr, Inhabited

namespace Enclosing

/-- The loop or switch that an unlabeled `break` leaves. -/
def breakable? : Enclosing → Option StmtId
  | loop id => some id
  | switch id => some id
  | labeled _ _ _ => none

/-- The loop that an unlabeled `continue` goes on with. -/
def loop? : Enclosing → Option StmtId
  | loop id => some id
  | _ => none

/-- The switch whose cases a jump may name. -/
def switch? : Enclosing → Option StmtId
  | switch id => some id
  | _ => none

/-- The statement with the given label, with the statement under it. -/
def labeled? (name : String) : Enclosing → Option (StmtId × StmtId)
  | labeled label id inner => if label = name then some (id, inner) else none
  | _ => none

end Enclosing

/-- The jump targets of one body. -/
structure Targets where
  /-- The target of every jump that has one; the newest entry counts. -/
  ofJump : List (StmtId × StmtId) := []
  /-- The statements to which a `break` goes. -/
  ofBreaks : List StmtId := []
  /-- The statements to which a `continue` goes. -/
  ofContinues : List StmtId := []
  /-- The statements to which a `goto` goes. -/
  ofGotos : List StmtId := []
  deriving DecidableEq, Repr, Inhabited

namespace Targets

/-- The target of a jump. -/
def target? (targets : Targets) (jump : StmtId) : Option StmtId := targets.ofJump.lookup jump

/-- Some jump goes to the statement. -/
def isTargeted (targets : Targets) (id : StmtId) : Bool :=
  targets.ofJump.any fun entry => entry.2 = id

/-- Record where a jump goes, if it goes anywhere. -/
def bind (targets : Targets) (jump : StmtId) (target : Option StmtId) : Targets :=
  { targets with ofJump := (target.toList.map fun id => (jump, id)) ++ targets.ofJump }

/-- The last statement of a body with the given label. -/
def labeled? (body : Stmt) (name : String) : Option StmtId :=
  (body.visits false).reverse.findSome? fun
    | .enter (.labeled tag label _) => if label = name then some tag.id else none
    | _ => none

/-- A `break` and where it goes. -/
def bindBreak
    (targets : Targets)
    (enclosing : List Enclosing)
    (jump : StmtId) :
    Option String → Targets
  | none =>
    let target := enclosing.findSome? Enclosing.breakable?
    { targets.bind jump target with ofBreaks := target.toList ++ targets.ofBreaks }
  | some label =>
    let target := (enclosing.findSome? (Enclosing.labeled? label)).map Prod.fst
    { targets.bind jump target with ofBreaks := target.toList ++ targets.ofBreaks }

/-- A `continue` and where it goes. -/
def bindContinue
    (targets : Targets)
    (enclosing : List Enclosing)
    (jump : StmtId) :
    Option String → Targets
  | none =>
    let target := enclosing.findSome? Enclosing.loop?
    { targets.bind jump target with ofContinues := target.toList ++ targets.ofContinues }
  | some label =>
    let target := (enclosing.findSome? (Enclosing.labeled? label)).map Prod.snd
    { targets.bind jump target with ofContinues := target.toList ++ targets.ofContinues }

/-- A `goto` and where it goes. -/
def bindGoto (targets : Targets) (jump : StmtId) (target : Option StmtId) : Targets :=
  { targets.bind jump target with ofGotos := target.toList ++ targets.ofGotos }

/-- What a visit adds to the open statements, the innermost one first, and to the targets. -/
def step (body : Stmt) (state : List Enclosing × Targets) : Visit → List Enclosing × Targets
  | .enter stmt =>
    let (enclosing, targets) := state
    match stmt with
    | .whileLoop tag _ _ => (.loop tag.id :: enclosing, targets)
    | .doLoop tag _ _ => (.loop tag.id :: enclosing, targets)
    | .forLoop tag _ _ _ _ => (.loop tag.id :: enclosing, targets)
    | .forEach tag _ _ _ _ => (.loop tag.id :: enclosing, targets)
    | .switch tag _ _ _ => (.switch tag.id :: enclosing, targets)
    | .labeled tag label inner => (.labeled label tag.id inner.id :: enclosing, targets)
    | .breakJump tag label => (enclosing, targets.bindBreak enclosing tag.id label)
    | .continueJump tag label => (enclosing, targets.bindContinue enclosing tag.id label)
    | .goto tag label => (enclosing, targets.bindGoto tag.id (labeled? body label))
    | .gotoCase tag _ =>
      (enclosing, targets.bind tag.id (enclosing.findSome? Enclosing.switch?))
    | _ => state
  | .leave stmt =>
    match stmt with
    | .whileLoop _ _ _ => (state.1.tail, state.2)
    | .doLoop _ _ _ => (state.1.tail, state.2)
    | .forLoop _ _ _ _ _ => (state.1.tail, state.2)
    | .forEach _ _ _ _ _ => (state.1.tail, state.2)
    | .switch _ _ _ _ => (state.1.tail, state.2)
    | .labeled _ _ _ => (state.1.tail, state.2)
    | _ => state
  | _ => state

/-- The jump targets of a body. -/
def ofBody (body : Stmt) : Targets :=
  ((body.visits false).foldl (step body) ([], {})).2

end Targets

end StackCode
