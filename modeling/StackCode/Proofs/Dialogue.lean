import StackCode.Proofs.ComposedLowering
import StackCode.Proofs.Contexts
import StackCode.Proofs.DispatchMachine

/-!
# Lowering as a dialogue

The lowering of a statement asks for the lowering of other statements, one after the
other: it hands a statement over in some state and goes on in the state in which the
answer leaves it.  It only adds to the code, it passes on every error of an answer,
and of its own it fails for want of a case only where it is allowed to.
-/

namespace StackCode
namespace Emit

open Dispatching (Growing)

/-- Go on where a step has ended, or pass its error on. -/
def goOn
    (outcome : EStateM.Result Error Emission α)
    (next : α → Emission → EStateM.Result Error Emission β) :
    EStateM.Result Error Emission β :=
  match outcome with
  | .ok value state => next value state
  | .error error state => .error error state

theorem bind_eq_goOn (first : Emit α) (next : α → Emit β) (before : Emission) :
    (first >>= next) before = goOn (first before) next := by
  change EStateM.bind first next before = _
  unfold EStateM.bind
  cases first before <;> rfl

/--
What happens from a state on, depending on how statements are lowered; `misses` holds
of the errors for want of a case that do not come from a statement asked for.
-/
inductive Dialogue (misses : CaseKey → Span → Prop) :
    Emission → (Lowering → EStateM.Result Error Emission α) → Prop where
  /-- It ends. -/
  | succeeds {before after : Emission} {value : α} (grows : before.code.Grows after.code) :
      Dialogue misses before fun _ => .ok value after
  /-- It fails. -/
  | fails {before after : Emission} {error : Error}
      (known : ∀ key span, error = .missingCaseLabel key span → misses key span) :
      Dialogue misses before fun _ => .error error after
  /-- It asks for the lowering of a statement. -/
  | asks {before asked : Emission} {stmt : Stmt}
      {next : Emission → Lowering → EStateM.Result Error Emission α}
      (grows : before.code.Grows asked.code)
      (answered : ∀ answer, Dialogue misses answer (next answer)) :
      Dialogue misses before fun lower =>
        goOn (lower stmt asked) fun _ answer => next answer lower

namespace Dialogue

variable {misses : CaseKey → Span → Prop} {before between : Emission}
variable {run : Lowering → EStateM.Result Error Emission α}

/-- What happens later happens after what was added before. -/
theorem later (grows : before.code.Grows between.code) (dialogue : Dialogue misses between run) :
    Dialogue misses before run := by
  cases dialogue with
  | succeeds further => exact .succeeds (grows.trans further)
  | fails known => exact .fails known
  | asks further answered => exact .asks (grows.trans further) answered

/-- One dialogue after the other. -/
theorem bind
    {next : α → Emission → Lowering → EStateM.Result Error Emission β}
    (dialogue : Dialogue misses before run)
    (nextDialogue : ∀ value state, Dialogue misses state (next value state)) :
    Dialogue misses before fun lower => goOn (run lower) fun value state =>
      next value state lower := by
  induction dialogue with
  | succeeds grows => exact (nextDialogue _ _).later grows
  | fails known => exact .fails known
  | @asks before asked stmt rest grows _ ih =>
    have same : (fun lower => goOn (goOn (lower stmt asked) fun _ answer => rest answer lower)
          fun value state => next value state lower) =
        fun lower => goOn (lower stmt asked) fun _ answer =>
          goOn (rest answer lower) fun value state => next value state lower := by
      funext lower
      cases lower stmt asked <;> rfl
    rw [same]
    exact .asks grows ih

/-- A step on the code that may fail. -/
theorem tryCode
    {change : Code → Except Error Code}
    (grows : ∀ {code changed}, change code = .ok changed → code.Grows changed)
    (known : ∀ {code error}, change code = .error error →
      ∀ key span, error ≠ .missingCaseLabel key span) :
    Dialogue misses before fun _ => tryCode change before := by
  cases outcome : Emit.tryCode change before with
  | ok value after =>
    obtain ⟨code, changed, rfl⟩ := tryCode_ok.mp outcome
    exact .succeeds (grows changed)
  | error error after =>
    have failed := tryCode_error outcome
    exact .fails fun key span same => absurd same (known failed key span)

/-- A local gets its storage. -/
theorem declareLocal (decl : LocalDecl) :
    Dialogue misses before fun _ => declareLocal decl before := by
  cases outcome : Emit.declareLocal decl before with
  | ok access after =>
    refine .succeeds ?_
    obtain ⟨_, _, -, -, rfl⟩ | ⟨-, declared⟩ := declareLocal_cases outcome
    · exact .refl _
    · obtain ⟨-, rfl⟩ := declareSlot_ok declared
      exact Code.grows_allocate _ _ _
  | error error after => exact absurd outcome declareLocal_ne_error

end Dialogue

/-- What is composed of steps and of the lowering of statements is a dialogue. -/
theorem ComposedTo.dialogue
    {basis : Basis} {refs : α → List Reference} {step : Lowering → Emit α}
    (composed : ComposedTo basis refs step)
    (free : basis.targets = none)
    (before : Emission) :
    Dialogue basis.misses before fun lower => step lower before := by
  induction composed generalizing before with
  | pureTo _ => exact .succeeds (.refl _)
  | throw missing _ => exact .fails missing
  | bindTo _ _ firstHypothesis nextHypothesis =>
    simp only [bind_eq_goOn]
    exact (firstHypothesis free before).bind fun value => nextHypothesis value free
  | reading _ _ nextHypothesis => exact nextHypothesis before.method (by simp [free]) free before
  | @modifyMethod _ change unseen _ =>
    have kept := congrArg MethodContext.code (unseen before.method before.method.code)
    have same : (change before.method).code = before.method.code := kept
    exact .succeeds (.of_eq (congrArg _ same) (congrArg _ same) (congrArg _ same))
  | declareLocal decl => exact .declareLocal decl
  | emit _ => exact .succeeds (.emit _ _)
  | newLabel => exact .succeeds (.newLabel _)
  | here => exact .succeeds (.here _)
  | mark label =>
    refine .tryCode (fun {code changed} success => ?_) fun {code error} failure key span => ?_
    · obtain ⟨free, rfl⟩ := (Code.mark_eq_ok_iff _ _ _).mp success
      exact .mark free _
    · rintro rfl
      unfold Code.mark at failure
      split at failure <;> cases failure
  | allocate name type => exact .succeeds (Code.grows_allocate _ name type)
  | addRegion region => exact .succeeds (.addRegion _ region)
  | openScope => exact .succeeds (.of_eq rfl rfl rfl)
  | closeScope =>
    refine .tryCode (fun {code changed} success => ?_) fun {code error} failure key span => ?_
    · unfold Code.exitScope at success
      split at success
      · cases success
      · cases success
        exact .closeScope _ _ _
    · rintro rfl
      exact nomatch ((Code.exitScope_eq_error_iff _ _).mp failure).2
  | readingClass _ _ nextHypothesis => exact nextHypothesis before.cls free before
  | takeClass _ _ => exact .succeeds (.refl _)
  | log level text => exact .succeeds (.refl _)
  | @call _ stmt _ _ =>
    have same : (fun lower : Lowering => lower stmt before) =
        fun lower => goOn (lower stmt before) fun _ answer => .ok () answer := by
      funext lower
      cases lower stmt before <;> rfl
    rw [same]
    exact .asks (.refl _) fun _ => .succeeds (.refl _)

namespace Dialogue

variable {misses : CaseKey → Span → Prop} {before after : Emission} {value : α}
variable {run : Lowering → EStateM.Result Error Emission α}
variable {lower : Lowering} {inner : Stmt} {innerState : Emission}

/-- Nothing but additions to the code if the answers are such. -/
theorem grows
    (lowers : ∀ stmt, Growing (lower stmt))
    (dialogue : Dialogue misses before run)
    (success : run lower = .ok value after) :
    before.code.Grows after.code := by
  induction dialogue with
  | succeeds grows =>
    cases success
    exact grows
  | fails _ => cases success
  | @asks before asked stmt next grows _ ih =>
    cases answered : lower stmt asked with
    | ok _ answer =>
      simp only [answered, goOn] at success
      exact (grows.trans (lowers stmt answered)).trans (ih answer success)
    | error error answer =>
      simp only [answered, goOn] at success
      cases success

/-- A dialogue that stops at a statement if lowering it does goes on from the answer to it. -/
theorem of_stops
    (dialogue : Dialogue misses before run)
    (stops : ∀ error, run (stopAt lower inner innerState error) = .error error innerState) :
    ∃ next : Emission → Lowering → EStateM.Result Error Emission α,
      (∀ answer, Dialogue misses answer (next answer)) ∧
        run lower = goOn (lower inner innerState) fun _ answer => next answer lower := by
  induction dialogue with
  | succeeds _ => cases stops .scopeUnderflow
  | @fails before after error _ =>
    have first := stops .scopeUnderflow
    cases first
    cases stops (.rethrowOutsideCatch {})
  | @asks before asked stmt next _ answered ih =>
    by_cases here : stmt = inner ∧ asked = innerState
    · obtain ⟨rfl, rfl⟩ := here
      exact ⟨next, answered, rfl⟩
    · have passes : ∀ error, stopAt lower inner innerState error stmt asked = lower stmt asked :=
        fun error => if_neg here
      simp only [passes] at stops
      cases answer : lower stmt asked with
      | ok _ answer =>
        simp only [answer, goOn] at stops
        obtain ⟨further, dialogues, same⟩ := ih _ stops
        exact ⟨further, dialogues, by simpa only [answer, goOn] using same⟩
      | error error answer =>
        simp only [answer, goOn] at stops
        have first := stops .scopeUnderflow
        cases first
        cases stops (.rethrowOutsideCatch {})

/-- An error for want of a case is one of its own, or that of a statement it asked for. -/
theorem missing
    {key : CaseKey} {span : Span}
    (dialogue : Dialogue misses before run)
    (failure : run lower = .error (.missingCaseLabel key span) after) :
    misses key span ∨ ∃ inner innerState,
      lower inner innerState = .error (.missingCaseLabel key span) after ∧
        ∀ error, run (stopAt lower inner innerState error) = .error error innerState := by
  induction dialogue with
  | succeeds _ => cases failure
  | fails known =>
    cases failure
    exact .inl (known key span rfl)
  | @asks before asked stmt next _ _ ih =>
    cases answered : lower stmt asked with
    | error error answer =>
      simp only [answered, goOn] at failure
      cases failure
      refine .inr ⟨stmt, asked, answered, fun error => ?_⟩
      have stopped : stopAt lower stmt asked error stmt asked = .error error asked :=
        if_pos ⟨rfl, rfl⟩
      simp only [stopped, goOn]
    | ok _ answer =>
      simp only [answered, goOn] at failure
      obtain own | ⟨inner, innerState, failed, stops⟩ := ih _ failure
      · exact .inl own
      · refine .inr ⟨inner, innerState, failed, fun error => ?_⟩
        -- The statement that failed is not the one that was answered.
        have passes : stopAt lower inner innerState error stmt asked = lower stmt asked := by
          refine if_neg ?_
          rintro ⟨rfl, rfl⟩
          rw [failed] at answered
          cases answered
        simp only [passes, answered, goOn]
        exact stops error

end Dialogue

/-! ## Lowering -/

/-- What is composed of steps only adds to the code if lowering statements does. -/
theorem ComposedTo.growing
    {misses : CaseKey → Span → Prop} {step : Lowering → Emit α} {lower : Lowering}
    (composed : Composed (.free misses) step)
    (lowers : ∀ stmt, Growing (lower stmt)) :
    Growing (step lower) :=
  fun before _ _ success => (composed.dialogue rfl before).grows lowers success

theorem composed_lowerReachable (stmt : Stmt) :
    Composed (.free fun _ span => span = stmt.span) fun lower => lowerReachable lower stmt :=
  .lowerStmt stmt fun _ _ _ _ => rfl

theorem growing_lowerWithin (depth : Nat) (stmt : Stmt) : Growing (lowerWithin depth stmt) := by
  induction depth generalizing stmt with
  | zero =>
    intro before _ after success
    cases success
  | succ depth ih =>
    unfold lowerWithin
    split
    · exact (composed_lowerReachable stmt).growing ih
    · intro before _ after success
      obtain ⟨-, rfl⟩ := pure_ok.mp success
      exact .refl _

/-- A step that lowers no statements only adds to the code. -/
theorem ComposedTo.growing_step {step : Emit α}
    (composed : Composed (.free fun _ _ => False) fun _ => step) :
    Growing step :=
  composed.growing (growing_lowerWithin 0)

end Emit
end StackCode
