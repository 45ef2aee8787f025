import StackCode.Proofs.Growth
import StackCode.Proofs.Plain

/-!
# What emitting code leaves in place

A plain step adds to the code and to the class and changes nothing else: the
constructs around the current point, the copies in progress and the open scopes
are the same afterwards.
-/

namespace StackCode

/-- What a suspension keeps track of, without the slots that are saved. -/
def Suspension.setting (suspension : Suspension) : Suspension :=
  { suspension with live := [], spills := [] }

namespace MethodContext

/-- What lowering finds and has to leave as it was. -/
def setting (method : MethodContext) : MethodContext :=
  { method with
    code := {}
    labels := {}
    locals := []
    suspension := none
    yieldCount := 0
    regions := #[] }

/-- The slots that are saved at a suspension. -/
def live (method : MethodContext) : List SavedSlot :=
  (method.suspension.map Suspension.live).getD []

end MethodContext

/-- A state that any step of a lowering may lead to. -/
structure Emission.Evolves (before after : Emission) : Prop where
  /-- The code has grown. -/
  code : before.code.Grows after.code
  /-- The same scopes are open. -/
  scopes :
    after.code.scopes.map LocalScope.firstSlot = before.code.scopes.map LocalScope.firstSlot
  /-- The same copies are in progress, with labels added. -/
  labels : before.method.labels.Extends after.method.labels
  /-- The scopes in which slots are saved are the same. -/
  suspension :
    after.method.suspension.map Suspension.setting =
      before.method.suspension.map Suspension.setting
  /-- Suspensions claim more and more points of resumption. -/
  yieldCount : before.method.yieldCount ≤ after.method.yieldCount

namespace Emission.Evolves

variable {before between after : Emission}

theorem refl (state : Emission) : state.Evolves state where
  code := .refl _
  scopes := rfl
  labels := .refl _
  suspension := rfl
  yieldCount := Nat.le_refl _

theorem trans (first : before.Evolves between) (second : between.Evolves after) :
    before.Evolves after where
  code := first.code.trans second.code
  scopes := second.scopes.trans first.scopes
  labels := first.labels.trans second.labels
  suspension := second.suspension.trans first.suspension
  yieldCount := first.yieldCount.trans second.yieldCount

/-- A change of the code that opens and closes no scope. -/
theorem mapCode
    (state : Emission) {change : Code → Code}
    (grows : state.code.Grows (change state.code))
    (scopes :
      (change state.code).scopes.map LocalScope.firstSlot =
        state.code.scopes.map LocalScope.firstSlot) :
    state.Evolves (state.mapCode change) :=
  { refl state with code := grows, scopes := scopes }

end Emission.Evolves

namespace Emit

/-- The changes that plain steps consist of. -/
inductive PlainChange (writable : FieldRef → Prop) : Emission → Emission → Prop where
  | emit {before : Emission} {instruction : Instruction}
      (writes : ∀ field, instruction = .putField field → field.isStatic = false → writable field) :
      PlainChange writable before (before.mapCode fun code => code.emit instruction)
  | newLabel {before : Emission} :
      PlainChange writable before (before.mapCode fun code => code.newLabel.2)
  | mark {before : Emission} {label : Label}
      (free : before.code.marks[label.index]? = some none) :
      PlainChange writable before (before.mapCode fun code =>
        { code with marks := code.marks.setIfInBounds label.index (some code.size) })
  | allocate {before : Emission} (name : Option String) (type : Ty) :
      PlainChange writable before (before.mapCode fun code => (code.allocate name type).2)
  | cls {before : Emission} {cls : ClassContext} (quiet : before.cls.Quiet cls) :
      PlainChange writable before { before with cls }

/-- Each of them adds to the code at most. -/
theorem PlainChange.evolves {writable : FieldRef → Prop} {before after : Emission}
    (change : PlainChange writable before after) : before.Evolves after := by
  cases change with
  | emit _ => exact .mapCode _ (.emit _ _) rfl
  | newLabel => exact .mapCode _ (.newLabel _) rfl
  | mark free => exact .mapCode _ (.mark free _) rfl
  | allocate name type =>
    exact .mapCode _ (Code.grows_allocate _ name type) (Code.map_firstSlot_allocate _ name type)
  | cls _ => exact { Emission.Evolves.refl before with }

namespace PlainTo

variable {writable : FieldRef → Prop} {basis : Basis}
variable {allowed : Label → Prop} {bound : List Label} {refs : α → List Reference}
variable {step : Emit α} {before after : Emission} {value : α}

/-- What holds of each change passes along a plain step, which changes only the code. -/
theorem related_and_method_eq
    {Related : Emission → Emission → Prop}
    (refl : ∀ state, Related state state)
    (trans : ∀ {first second third}, Related first second → Related second third →
      Related first third)
    (each : ∀ {first second}, PlainChange writable first second → Related first second)
    (plain : PlainTo writable basis allowed bound refs step)
    (free : basis.targets = none)
    (stores : before.method.StoresTo writable)
    (success : step before = .ok value after) :
    Related before after ∧ after.method = { before.method with code := after.code } := by
  induction plain generalizing before after with
  | pureTo _ =>
    obtain ⟨-, rfl⟩ := pure_ok.mp success
    exact ⟨refl _, rfl⟩
  | throw _ _ => exact (throw_ok.mp success).elim
  | bindTo _ _ _ firstHypothesis nextHypothesis =>
    obtain ⟨result, between, firstSuccess, nextSuccess⟩ := bind_ok.mp success
    obtain ⟨first, unchanged⟩ := firstHypothesis free stores firstSuccess
    have stillStores : between.method.StoresTo writable := by rwa [unchanged]
    obtain ⟨second, same⟩ := nextHypothesis result free stillStores nextSuccess
    exact ⟨trans first second, by rw [same, unchanged]⟩
  | reading _ _ nextHypothesis =>
    exact nextHypothesis before.method stores (by simp [free]) free stores success
  | emit _ writes _ =>
    obtain rfl := emit_ok.mp success
    exact ⟨each (.emit writes), rfl⟩
  | fresh _ nextHypothesis =>
    obtain ⟨label, between, firstSuccess, nextSuccess⟩ := bind_ok.mp success
    obtain ⟨-, rfl⟩ := newLabel_ok.mp firstSuccess
    have stillStores :
        (before.mapCode fun code => code.newLabel.2).method.StoresTo writable := stores
    obtain ⟨second, same⟩ := nextHypothesis label free stillStores nextSuccess
    exact ⟨trans (each .newLabel) second, by rw [same]; rfl⟩
  | mark _ _ =>
    obtain ⟨free, rfl⟩ := mark_ok.mp success
    exact ⟨each (.mark free), rfl⟩
  | allocate name type =>
    obtain ⟨-, rfl⟩ := takeCode_ok.mp success
    exact ⟨each (.allocate name type), rfl⟩
  | takeClass _ quiet =>
    obtain ⟨-, rfl⟩ := takeClass_ok.mp success
    exact ⟨each (.cls (quiet _).1), rfl⟩
  | log level text =>
    obtain rfl := modifyClass_ok.mp success
    exact ⟨each (.cls { ClassContext.Quiet.refl before.cls with }), rfl⟩

/-- A plain step adds to the code at most. -/
theorem evolves
    (plain : PlainTo writable .any allowed bound refs step)
    (stores : before.method.StoresTo writable)
    (success : step before = .ok value after) :
    before.Evolves after :=
  (related_and_method_eq .refl .trans PlainChange.evolves plain rfl stores success).1

/-- A plain step changes nothing of the method but its code. -/
theorem method_eq
    (plain : PlainTo writable .any allowed bound refs step)
    (stores : before.method.StoresTo writable)
    (success : step before = .ok value after) :
    after.method = { before.method with code := after.code } :=
  (related_and_method_eq Emission.Evolves.refl .trans PlainChange.evolves plain rfl
    stores success).2

end PlainTo

end Emit

end StackCode
