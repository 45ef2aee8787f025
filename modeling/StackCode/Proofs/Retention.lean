import StackCode.Proofs.ComposedLowering
import StackCode.Proofs.Contexts

/-!
# What lowering leaves in place

Lowering a statement gives slots to the locals that it declares.  It never moves
a method into another class, and a local that lives in a field before lives
there afterwards, and nowhere else.  This holds wherever lowering is interrupted,
so it holds in every state in which a statement on the way is lowered.
-/

namespace StackCode

/-- The method stays in its class, and the same locals live in the same fields. -/
structure MethodContext.Retains (before after : MethodContext) : Prop where
  className : after.className = before.className
  captured : ∀ id holder path, after.locals.lookup id = some (.captured holder path) ↔
    before.locals.lookup id = some (.captured holder path)

namespace MethodContext.Retains

variable {before between after : MethodContext}

theorem refl (method : MethodContext) : method.Retains method := ⟨rfl, fun _ _ _ => Iff.rfl⟩

theorem trans (first : before.Retains between) (second : between.Retains after) :
    before.Retains after where
  className := second.className.trans first.className
  captured id holder path := (second.captured id holder path).trans (first.captured id holder path)

/-- Nothing is said of any local. -/
theorem ofLocals
    (className : after.className = before.className)
    (locals : after.locals = before.locals) :
    before.Retains after :=
  ⟨className, by simp [locals]⟩

/-- A local that does not live in a field gets a slot. -/
theorem ofSlot
    {id : LocalId} {slot : Nat} {kind : ValueKind}
    (uncaptured : ∀ holder path, before.locals.lookup id ≠ some (.captured holder path))
    (className : after.className = before.className)
    (locals : after.locals = (id, .slot slot kind) :: before.locals) :
    before.Retains after := by
  refine ⟨className, fun other holder path => ?_⟩
  rw [locals, List.lookup_cons]
  by_cases same : other = id
  · subst same
    simpa using uncaptured holder path
  · have apart : (other == id) = false := beq_false_of_ne same
    rw [apart]

end MethodContext.Retains

namespace Emit

/-- A step that leaves captured locals in place, whether it succeeds or fails. -/
structure Retaining (step : Emit α) : Prop where
  ok : ∀ {before value after}, step before = .ok value after →
    before.method.Retains after.method
  error : ∀ {before error after}, step before = .error error after →
    before.method.Retains after.method

namespace Retaining

/-- The method is not changed, but for what is not said of locals. -/
theorem ofLocals
    {step : Emit α}
    (ok : ∀ {before value after}, step before = .ok value after →
      after.method.className = before.method.className ∧
        after.method.locals = before.method.locals)
    (error : ∀ {before error after}, step before = .error error after → after = before) :
    Retaining step where
  ok success := .ofLocals (ok success).1 (ok success).2
  error failure := by
    rw [error failure]
    exact .refl _

theorem bind
    {first : Emit α} {next : α → Emit β}
    (firstRetaining : Retaining first)
    (nextRetaining : ∀ value, Retaining (next value)) :
    Retaining (first >>= next) where
  ok success := by
    obtain ⟨value, between, firstSuccess, nextSuccess⟩ := bind_ok.mp success
    exact (firstRetaining.ok firstSuccess).trans ((nextRetaining value).ok nextSuccess)
  error failure := by
    obtain failure | ⟨value, between, firstSuccess, failure⟩ := bind_error.mp failure
    · exact firstRetaining.error failure
    · exact (firstRetaining.ok firstSuccess).trans ((nextRetaining value).error failure)

theorem pure (value : α) : Retaining (pure value : Emit α) :=
  ofLocals (by rintro before _ _ ⟨⟩; exact ⟨rfl, rfl⟩) nofun

theorem throw (error : Error) : Retaining (throw error : Emit α) :=
  ofLocals nofun (by rintro before _ _ ⟨⟩; rfl)

theorem method : Retaining method :=
  ofLocals (by rintro before _ _ ⟨⟩; exact ⟨rfl, rfl⟩) nofun

theorem modifyMethod
    {change : MethodContext → MethodContext}
    (kept : ∀ method, (change method).className = method.className ∧
      (change method).locals = method.locals) :
    Retaining (modifyMethod change) := by
  refine ofLocals ?_ nofun
  intro before _ after success
  obtain rfl := modifyMethod_ok.mp success
  exact kept _

theorem modifyCode (change : Code → Code) : Retaining (modifyCode change) :=
  modifyMethod fun _ => ⟨rfl, rfl⟩

theorem takeCode (take : Code → α × Code) : Retaining (takeCode take) :=
  ofLocals (by rintro before _ _ ⟨⟩; exact ⟨rfl, rfl⟩) nofun

theorem tryCode (change : Code → Except Error Code) : Retaining (tryCode change) := by
  refine bind method fun found => ?_
  split
  · exact modifyCode _
  · exact throw _

theorem cls : Retaining cls := ofLocals (by rintro before _ _ ⟨⟩; exact ⟨rfl, rfl⟩) nofun

theorem takeClass (take : ClassContext → α × ClassContext) : Retaining (takeClass take) :=
  ofLocals (by rintro before _ _ ⟨⟩; exact ⟨rfl, rfl⟩) nofun

theorem log (level : LogLevel) (text : String) : Retaining (log level text) :=
  ofLocals (by rintro before _ _ ⟨⟩; exact ⟨rfl, rfl⟩) nofun

/-- Only a local that lives in no field gets a slot. -/
theorem declareLocal (decl : LocalDecl) : Retaining (declareLocal decl) where
  ok success := by
    obtain ⟨holder, path, -, -, rfl⟩ | ⟨uncaptured, declared⟩ := declareLocal_cases success
    · exact .refl _
    · obtain ⟨rfl, rfl⟩ := declareSlot_ok declared
      exact .ofSlot uncaptured rfl rfl
  error failure := absurd failure declareLocal_ne_error

end Retaining

/-- What is composed of steps leaves captured locals in place if lowering statements does. -/
theorem ComposedTo.retaining
    {basis : Basis} {refs : α → List Reference}
    {step : Lowering → Emit α} {lower : Lowering}
    (composed : ComposedTo basis refs step)
    (free : basis.targets = none)
    (lowers : ∀ stmt, Retaining (lower stmt)) :
    Retaining (step lower) := by
  induction composed with
  | pureTo _ => exact .pure _
  | throw _ _ => exact .throw _
  | bindTo _ _ firstHypothesis nextHypothesis =>
    exact .bind (firstHypothesis free) fun value => nextHypothesis value free
  | reading _ _ nextHypothesis =>
    exact .bind .method fun method => nextHypothesis method (by simp [free]) free
  | modifyMethod unseen _ => exact .modifyMethod unseen.kept
  | declareLocal decl => exact .declareLocal decl
  | emit _ => exact .modifyCode _
  | newLabel => exact .takeCode _
  | here => exact .takeCode _
  | mark label => exact .tryCode _
  | allocate name type => exact .takeCode _
  | addRegion region => exact .modifyCode _
  | openScope => exact .modifyCode _
  | closeScope => exact .tryCode _
  | readingClass _ _ nextHypothesis => exact .bind .cls fun cls => nextHypothesis cls free
  | takeClass _ _ => exact .takeClass _
  | log level text => exact .log level text
  | call _ _ => exact lowers _

namespace Retaining

/-- Lowering a statement leaves captured locals in place if lowering others does. -/
theorem lowerReachable {lower : Lowering} (lowers : ∀ stmt, Retaining (lower stmt)) (stmt : Stmt) :
    Retaining (lowerReachable lower stmt) := by
  have composed : Composed (.free fun _ _ => True) fun lower => Emit.lowerReachable lower stmt :=
    .lowerStmt stmt fun _ _ _ _ => trivial
  exact composed.retaining rfl lowers

theorem lowerWithin (depth : Nat) (stmt : Stmt) : Retaining (lowerWithin depth stmt) := by
  induction depth generalizing stmt with
  | zero => exact throw _
  | succ depth ih =>
    unfold Emit.lowerWithin
    split
    · exact lowerReachable ih stmt
    · exact pure _

/-- A step in which no statement is lowered. -/
theorem composed {step : Emit α} (stepComposed : Composed (.free fun _ _ => False) fun _ => step) :
    Retaining step := stepComposed.retaining rfl (lowerWithin 0)

/-- A lowering that stops early retains no less. -/
theorem stopAt {lower : Lowering} (lowers : ∀ stmt, Retaining (lower stmt))
    (stmt : Stmt) (state : Emission) (error : Error) (other : Stmt) :
    Retaining (stopAt lower stmt state error other) where
  ok success := by
    unfold StackCode.stopAt at success
    split at success
    · cases success
    · exact (lowers other).ok success
  error failure := by
    unfold StackCode.stopAt at failure
    split at failure
    · cases failure
      exact .refl _
    · exact (lowers other).error failure

end Retaining
end Emit

open Emit

/-- Wherever a statement of a body is lowered, captured locals are where they were. -/
theorem LowersAt.retains {body stmt : Stmt} {begun state : Emission}
    (lowersAt : LowersAt body begun stmt state) : begun.method.Retains state.method := by
  induction lowersAt with
  | body => exact .refl _
  | @within stmt inner state innerState depth outer enters ih =>
    have stopping := Retaining.stopAt (Retaining.lowerWithin depth) inner innerState .scopeUnderflow
    exact ih.trans
      ((Retaining.lowerReachable stopping stmt).error (enters .scopeUnderflow))

end StackCode
