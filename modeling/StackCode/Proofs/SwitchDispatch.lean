import StackCode.Proofs.StringDispatch

/-!
# Dispatch on selectors of all kinds

Whatever a switch dispatches on, an integer, the ordinal of an enumeration or a string,
its code leads from any value of the selector to the section that is selected.
-/

namespace StackCode

/-- The integer of a key. -/
def CaseKey.int? : CaseKey → Option Int32
  | .int value => some value
  | _ => none

/-- The integral constants are the keys that are integers. -/
theorem Const.bind_ofConst?_int? (value : Const) :
    (CaseKey.ofConst? value).bind CaseKey.int? = value.switchKey? := by
  cases value <;> rfl

namespace Emit

variable {before after : Emission} {sections : List Section} {starts : List Label}
variable {pairs : List (Int32 × Label)} {key : Int32} {label : Label}

/-- The integers among the keys of a switch, each with the beginning of its section. -/
def integralPair? (entry : CaseKey × Label) : Option (Int32 × Label) :=
  entry.1.int?.map fun key => (key, entry.2)

/-- The integral pairs of a switch are its entries, the default apart. -/
theorem integralPairs_eq
    (success : integralPairs sections starts before = .ok pairs after) :
    before = after ∧
      pairs = (PlacedSections.entries (sections.zip starts)).filterMap integralPair? := by
  obtain ⟨same, keys, read, rfl⟩ := integralPairs_ok success
  refine ⟨same, ?_⟩
  have kept := congrArg (List.filterMap Option.join) read
  rw [List.filterMap_map, List.filterMap_map] at kept
  have joined : keys.filterMap (Option.join ∘ some) = keys.filterMap fun key => key := rfl
  rw [← joined, ← kept, entries_eq_filterMap, List.filterMap_filterMap]
  refine List.filterMap_congr fun entry _ => ?_
  obtain ⟨label, start⟩ := entry
  cases label with
  | none => rfl
  | some label =>
    have integral := fun value : Const => value.bind_ofConst?_int?
    cases known : label.constant? with
    | none => simp [sectionKey?, CaseKey.ofLabel?, known]
    | some value =>
      simp only [Function.comp_apply, sectionKey?, CaseKey.ofLabel?, known, Option.bind_some,
        ← integral]
      cases found : CaseKey.ofConst? value with
      | none => rfl
      | some key =>
        cases key <;> rfl

end Emit

namespace Dispatching

open Emit

variable {sections : List Section} {starts : List Label} {stop label : Label}
variable {body : MethodBody}

/-- The values of a selector, and the keys that stand for them; no string at all has none. -/
inductive Represents : SelectorKind → Value → Option CaseKey → Prop where
  | integral (value : Int32) : Represents .integral (.int value) (some (.int value))
  | enumeration (ordinal : MethodRef) (value : Int32) :
      Represents (.enumeration ordinal) (.other (.constant value)) (some (.int value))
  | string (value : Option String) : Represents .string (.ofText value) (value.map .string)

end Dispatching
end StackCode
