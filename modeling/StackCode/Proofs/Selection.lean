import Mathlib.Data.List.Nodup
import StackCode.Proofs.Steps

/-!
# The section that a selector selects

A switch goes to the section that lists the value of its selector, else to the
section with the default, else to its end.  The map of cases that lowering keeps for
jumps into a switch is the same relation, written as a list.
-/

namespace StackCode

/-- What a label of a section is selected by; a label without an expression is the default. -/
def CaseKey.ofLabel? : Option Expr → Option CaseKey
  | none => some .default
  | some label => label.constant?.bind CaseKey.ofConst?

/-- The keys that a section lists, its default among them. -/
def Section.keys (switchSection : Section) : List CaseKey :=
  switchSection.labels.filterMap CaseKey.ofLabel?

/-- The default section is the one that lists the default. -/
theorem Section.isDefault_iff (switchSection : Section) :
    switchSection.isDefault ↔ .default ∈ switchSection.keys := by
  rw [isDefault, List.any_eq_true, keys, List.mem_filterMap]
  refine exists_congr fun label => and_congr_right fun _ => ?_
  cases label with
  | none => simp [CaseKey.ofLabel?]
  | some label =>
    simp only [Option.isNone_some, Bool.false_eq_true, CaseKey.ofLabel?, false_iff]
    intro found
    obtain ⟨value, -, key⟩ := Option.bind_eq_some_iff.mp found
    cases value <;> simp [CaseKey.ofConst?, Const.switchKey?] at key

/-- The sections of a switch together with where they begin. -/
abbrev PlacedSections := List (Section × Label)

namespace PlacedSections

variable {placed : PlacedSections} {stop label other : Label} {key : CaseKey}
variable {value : Option CaseKey}

/-- All keys, each with the beginning of the section that lists it. -/
def entries (placed : PlacedSections) : CaseMap :=
  placed.flatMap fun entry => entry.1.keys.map fun key => (key, entry.2)

theorem mem_entries :
    (key, label) ∈ placed.entries ↔
      ∃ switchSection, (switchSection, label) ∈ placed ∧ key ∈ switchSection.keys := by
  simp [entries]

/-- All keys of a switch. -/
def keys (placed : PlacedSections) : List CaseKey := placed.flatMap fun entry => entry.1.keys

theorem map_fst_entries : placed.entries.map Prod.fst = placed.keys := by
  simp [entries, keys, List.map_flatMap, Function.comp_def]

theorem mem_keys : key ∈ placed.keys ↔ ∃ label, (key, label) ∈ placed.entries := by
  simp [← map_fst_entries]

/-- Where a switch goes for the value of its selector, which may be no key at all. -/
inductive Selects (placed : PlacedSections) (stop : Label) : Option CaseKey → Label → Prop where
  /-- The section that lists the value. -/
  | listed {key : CaseKey} {switchSection : Section} {start : Label}
      (member : (switchSection, start) ∈ placed)
      (lists : key ∈ switchSection.keys) :
      Selects placed stop (some key) start
  /-- The section with the default, if no section lists the value. -/
  | default {value : Option CaseKey} {switchSection : Section} {start : Label}
      (unlisted : ∀ key ∈ value, key ∉ placed.keys)
      (member : (switchSection, start) ∈ placed)
      (lists : .default ∈ switchSection.keys) :
      Selects placed stop value start
  /-- The end of the switch, if there is no default either. -/
  | stop {value : Option CaseKey}
      (unlisted : ∀ key ∈ value, key ∉ placed.keys)
      (noDefault : .default ∉ placed.keys) :
      Selects placed stop value stop

/-- Where a value goes that no section lists. -/
def defaultStart (placed : PlacedSections) (stop : Label) : Label :=
  ((placed.find? fun entry => entry.1.isDefault).map Prod.snd).getD stop

/-- If no two labels have the same key, no key has two sections. -/
theorem entries_unique
    (distinct : placed.keys.Nodup)
    (first : (key, label) ∈ placed.entries)
    (second : (key, other) ∈ placed.entries) :
    label = other := by
  have once : (placed.entries.map Prod.fst).Nodup := by rwa [map_fst_entries]
  have found := lookup_of_mem once first
  rw [lookup_of_mem once second] at found
  exact (Option.some.inj found).symm

/-- A section with the default is the one that is found. -/
theorem defaultStart_of_mem
    (distinct : placed.keys.Nodup)
    (member : (.default, label) ∈ placed.entries) :
    placed.defaultStart stop = label := by
  obtain ⟨switchSection, placedAt, lists⟩ := mem_entries.mp member
  unfold defaultStart
  cases found : placed.find? fun entry => entry.1.isDefault with
  | none =>
    have absent := List.find?_eq_none.mp found _ placedAt
    exact absurd (switchSection.isDefault_iff.mpr lists) absent
  | some entry =>
    have isDefault : entry.1.isDefault := by simpa using List.find?_some found
    have listed := mem_entries.mpr
      ⟨entry.1, List.mem_of_find?_eq_some found, entry.1.isDefault_iff.mp isDefault⟩
    exact entries_unique distinct listed member

theorem defaultStart_of_not_mem (noDefault : .default ∉ placed.keys) :
    placed.defaultStart stop = stop := by
  have absent : (placed.find? fun entry => entry.1.isDefault) = none := by
    refine List.find?_eq_none.mpr fun entry member isDefault => noDefault ?_
    exact List.mem_flatMap.mpr ⟨entry, member, entry.1.isDefault_iff.mp isDefault⟩
  rw [defaultStart, absent]
  rfl

namespace Selects

/-- A key that is listed is selected by its entry, and everything else goes where unlisted values
go. -/
theorem cases_of
    (distinct : placed.keys.Nodup)
    (selects : Selects placed stop value label) :
    (∃ key, value = some key ∧ (key, label) ∈ placed.entries) ∨
      (∀ key ∈ value, key ∉ placed.keys) ∧ placed.defaultStart stop = label := by
  cases selects with
  | listed member lists => exact .inl ⟨_, rfl, mem_entries.mpr ⟨_, member, lists⟩⟩
  | default unlisted member lists =>
    exact .inr ⟨unlisted, defaultStart_of_mem distinct (mem_entries.mpr ⟨_, member, lists⟩)⟩
  | stop unlisted noDefault => exact .inr ⟨unlisted, defaultStart_of_not_mem noDefault⟩

/-- Every value is sent somewhere. -/
theorem exists_label (placed : PlacedSections) (stop : Label) (value : Option CaseKey) :
    ∃ label, Selects placed stop value label := by
  by_cases listed : ∃ key ∈ value, key ∈ placed.keys
  · obtain ⟨key, rfl, member⟩ := listed
    obtain ⟨entry, placedAt, lists⟩ := List.mem_flatMap.mp member
    exact ⟨entry.2, .listed placedAt lists⟩
  · have unlisted : ∀ key ∈ value, key ∉ placed.keys := fun key isValue member =>
      listed ⟨key, isValue, member⟩
    by_cases hasDefault : .default ∈ placed.keys
    · obtain ⟨entry, placedAt, lists⟩ := List.mem_flatMap.mp hasDefault
      exact ⟨entry.2, .default unlisted placedAt lists⟩
    · exact ⟨stop, .stop unlisted hasDefault⟩

/-- If no two labels have the same key, every value is sent to one place only. -/
theorem unique
    (distinct : placed.keys.Nodup)
    (first : Selects placed stop value label)
    (second : Selects placed stop value other) :
    label = other := by
  obtain ⟨key, rfl, member⟩ | ⟨unlisted, rfl⟩ := first.cases_of distinct
  · obtain ⟨_, ⟨⟩, other⟩ | ⟨unlisted, -⟩ := second.cases_of distinct
    · exact entries_unique distinct member other
    · exact absurd (mem_keys.mpr ⟨_, member⟩) (unlisted key rfl)
  · obtain ⟨key, rfl, member⟩ | ⟨-, same⟩ := second.cases_of distinct
    · exact absurd (mem_keys.mpr ⟨_, member⟩) (unlisted key rfl)
    · exact same

end Selects

end PlacedSections

namespace Emit

variable {before after : Emission} {sections : List Section} {starts : List Label}

theorem entries_eq_filterMap (sections : List Section) (starts : List Label) :
    PlacedSections.entries (sections.zip starts) =
      (labeledSections sections starts).filterMap fun entry =>
        (CaseKey.ofLabel? entry.1).map fun key => (key, entry.2) := by
  simp [labeledSections, PlacedSections.entries, List.filterMap_flatMap, List.filterMap_map,
    Section.keys, List.map_filterMap]

/-- The map of cases has all keys of the switch, each with the beginning of its section. -/
theorem caseMap_ok
    {cases : CaseMap}
    (success : caseMap sections starts before = .ok cases after) :
    before = after ∧ cases = (PlacedSections.entries (sections.zip starts)).reverse := by
  simp only [caseMap, bind_ok, pure_ok] at success
  obtain ⟨entries, _, reading, rfl, rfl⟩ := success
  rw [mapM_ok fun entry => (CaseKey.ofLabel? entry.1).map fun key => (key, entry.2)] at reading
  · obtain ⟨read, rfl⟩ := reading
    refine ⟨rfl, congrArg List.reverse ?_⟩
    have kept := congrArg (List.filterMap id) read
    simp only [List.filterMap_map, Function.comp_def, id_eq, List.filterMap_some] at kept
    rw [← kept, entries_eq_filterMap]
  · rintro ⟨label, start⟩ result between next
    cases label with
    | none => simp [CaseKey.ofLabel?, pure_ok]
    | some label =>
      simp only [CaseKey.ofLabel?, bind_ok, caseValue_ok, pure_ok, Option.map_eq_some_iff]
      constructor
      · rintro ⟨key, _, ⟨found, rfl⟩, rfl, rfl⟩
        exact ⟨⟨key, found, rfl⟩, rfl⟩
      · rintro ⟨⟨key, found, rfl⟩, rfl⟩
        exact ⟨key, between, ⟨found, rfl⟩, rfl, rfl⟩

end Emit
end StackCode
