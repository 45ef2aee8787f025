import StackCode.Context.Frame
import StackCode.Proofs.Finishing
import StackCode.Proofs.Growth

/-!
# The exception table under construction

Registered ranges have labels for ends.  This module reads off the table that
they stand for at any time, and says how it grows: entries are only appended, and
the handlers of later entries stand behind those of earlier ones.
-/

namespace StackCode

/-! ## Successive ranges -/

/-- Ranges between two positions that are not empty and follow one another. -/
def Successive : Nat → List (Nat × Nat) → Nat → Prop
  | first, [], last => first ≤ last
  | first, range :: ranges, last =>
    first ≤ range.1 ∧ range.1 < range.2 ∧ Successive range.2 ranges last

namespace Successive

variable {first last : Nat} {ranges : List (Nat × Nat)}

theorem mono (successive : Successive first ranges last) {later : Nat} (behind : last ≤ later) :
    Successive first ranges later := by
  induction ranges generalizing first with
  | nil => exact Nat.le_trans successive behind
  | cons range ranges ih =>
    obtain ⟨start, nonempty, rest⟩ := successive
    exact ⟨start, nonempty, ih rest⟩

theorem anti (successive : Successive first ranges last) {earlier : Nat}
    (before : earlier ≤ first) : Successive earlier ranges last := by
  cases ranges with
  | nil => exact Nat.le_trans before successive
  | cons range ranges => exact ⟨Nat.le_trans before successive.1, successive.2⟩

theorem le (successive : Successive first ranges last) : first ≤ last := by
  induction ranges generalizing first with
  | nil => exact successive
  | cons range ranges ih =>
    obtain ⟨start, nonempty, rest⟩ := successive
    have := ih rest
    omega

/-- More ranges follow. -/
theorem append (successive : Successive first ranges last) {more : List (Nat × Nat)} {stop : Nat}
    (following : Successive last more stop) : Successive first (ranges ++ more) stop := by
  induction ranges generalizing first with
  | nil =>
    cases more with
    | nil => exact Nat.le_trans successive following
    | cons range more => exact ⟨Nat.le_trans successive following.1, following.2⟩
  | cons range ranges ih =>
    obtain ⟨start, nonempty, rest⟩ := successive
    exact ⟨start, nonempty, ih rest⟩

/-- One more range follows. -/
theorem snoc (successive : Successive first ranges last) {start stop : Nat}
    (behind : last ≤ start) (nonempty : start < stop) :
    Successive first (ranges ++ [(start, stop)]) stop :=
  successive.append ⟨behind, nonempty, Nat.le_refl _⟩

/-- Ranges that follow each other lie between their ends. -/
theorem bounds (successive : Successive first ranges last) :
    ∀ range ∈ ranges, first ≤ range.1 ∧ range.1 < range.2 ∧ range.2 ≤ last := by
  induction ranges generalizing first with
  | nil => exact fun _ member => (List.not_mem_nil member).elim
  | cons range ranges ih =>
    obtain ⟨start, nonempty, rest⟩ := successive
    intro other member
    obtain rfl | member := List.mem_cons.mp member
    · exact ⟨start, nonempty, rest.le⟩
    · obtain ⟨starts, stops, within⟩ := ih rest other member
      exact ⟨by omega, stops, within⟩

end Successive

/-! ## The table of registered ranges -/

namespace Code

/-- The range between two labels, unless it is empty. -/
def range? (code : Code) (segment : Label × Label) : Option (Nat × Nat) := do
  let start ← code.position? segment.1
  let stop ← code.position? segment.2
  if start < stop then some (start, stop) else none

/-- The ranges that segments stand for. -/
def ranges (code : Code) (segments : List (Label × Label)) : List (Nat × Nat) :=
  segments.filterMap code.range?

/-- The entry that a registered range stands for, unless it is empty. -/
def entryOf? (code : Code) (region : Region) : Option ExceptionEntry := do
  let range ← code.range? (region.start, region.stop)
  let handler ← code.position? region.handler
  return { start := range.1, stop := range.2, handler, catchType := region.catchType }

/-- The exception table that the registered ranges stand for. -/
def table (code : Code) : List ExceptionEntry := code.regions.toList.filterMap code.entryOf?

/-- Both ends of a segment are bound. -/
def Bounds (code : Code) (segment : Label × Label) : Prop :=
  ∃ start stop, code.position? segment.1 = some start ∧ code.position? segment.2 = some stop

/-- The ends of all registered ranges are bound, and their handlers have begun. -/
def Tabled (code : Code) : Prop :=
  ∀ region ∈ code.regions.toList, code.Bounds (region.start, region.stop) ∧
    ∃ handler, code.position? region.handler = some handler ∧ handler < code.size

variable {before between after code : Code}

theorem Bounds.grows {segment : Label × Label} (bounds : before.Bounds segment)
    (grows : before.Grows after) : after.Bounds segment := by
  obtain ⟨start, stop, started, stopped⟩ := bounds
  exact ⟨start, stop, grows.marks _ _ started, grows.marks _ _ stopped⟩

theorem Bounds.range?_eq {segment : Label × Label} (bounds : before.Bounds segment)
    (grows : before.Grows after) : after.range? segment = before.range? segment := by
  obtain ⟨start, stop, started, stopped⟩ := bounds
  simp only [range?, started, stopped, grows.marks _ _ started, grows.marks _ _ stopped]

theorem ranges_append (code : Code) (segments more : List (Label × Label)) :
    code.ranges (segments ++ more) = code.ranges segments ++ code.ranges more :=
  List.filterMap_append

/-- Segments with bound ends stand for the same ranges later on. -/
theorem ranges_eq_of_grows {segments : List (Label × Label)}
    (bounds : ∀ segment ∈ segments, before.Bounds segment) (grows : before.Grows after) :
    after.ranges segments = before.ranges segments :=
  List.filterMap_congr fun segment member => (bounds segment member).range?_eq grows

/-- A finished body has the table that the registered ranges stand for. -/
theorem Finishes.exceptions_eq {body : MethodBody} (finishes : code.Finishes body) :
    body.exceptions = code.table := by
  obtain ⟨entries, resolved, same⟩ := finishes.exceptions
  rw [same, table]
  clear same
  generalize code.regions.toList = regions at resolved
  induction resolved with
  | nil => rfl
  | @cons region entry regions entries found _ ih =>
    obtain ⟨started, stopped, handled, kind⟩ := resolveRegion_ok.mp found
    rw [List.filter_cons, List.filterMap_cons, ih]
    by_cases nonempty : entry.start < entry.stop
    · simp [entryOf?, range?, started, stopped, handled, nonempty, ← kind]
    · simp [entryOf?, range?, started, stopped, nonempty]

/--
The table has got the given entries.  Their handlers begin behind all that was
emitted before.
-/
structure Tables (before after : Code) (entries : List ExceptionEntry) : Prop where
  grows : before.Grows after
  tabled : before.Tabled → after.Tabled
  table : before.Tabled → after.table = before.table ++ entries
  handlers : ∀ entry ∈ entries, before.size ≤ entry.handler ∧ entry.handler < after.size
  sorted : entries.Pairwise fun earlier later => earlier.handler ≤ later.handler

/-- The entry of a range for a handler. -/
def entryOf (handler : Nat) (catchType : Option String) (range : Nat × Nat) : ExceptionEntry :=
  { start := range.1, stop := range.2, handler, catchType }

theorem Tabled.table_eq (tabled : before.Tabled) (grows : before.Grows after) :
    before.regions.toList.filterMap after.entryOf? = before.table := by
  refine List.filterMap_congr fun region member => ?_
  obtain ⟨bounds, handler, handled, -⟩ := tabled region member
  simp only [entryOf?, bounds.range?_eq grows, handled, grows.marks _ _ handled]

theorem Tabled.grown (tabled : before.Tabled) (grows : before.Grows after) :
    ∀ region ∈ before.regions.toList, after.Bounds (region.start, region.stop) ∧
      ∃ handler, after.position? region.handler = some handler ∧ handler < after.size := by
  intro region member
  obtain ⟨bounds, handler, handled, begun⟩ := tabled region member
  exact ⟨bounds.grows grows, handler, grows.marks _ _ handled, begun.trans_le grows.size_le⟩

namespace Tables

variable {entries more : List ExceptionEntry}

/-- Nothing is registered. -/
theorem silent (grows : before.Grows after) (regions : after.regions = before.regions) :
    before.Tables after [] where
  grows := grows
  tabled := by
    intro tabled
    rw [Tabled, regions]
    exact tabled.grown grows
  table := by
    intro tabled
    rw [Code.table, regions, tabled.table_eq grows, List.append_nil]
  handlers := nofun
  sorted := .nil

/-- Later entries come after earlier ones. -/
theorem trans (first : before.Tables between entries) (second : between.Tables after more) :
    before.Tables after (entries ++ more) where
  grows := first.grows.trans second.grows
  tabled tabled := second.tabled (first.tabled tabled)
  table := by
    intro tabled
    rw [second.table (first.tabled tabled), first.table tabled, List.append_assoc]
  handlers := by
    have sizes := first.grows.size_le
    have later := second.grows.size_le
    intro entry member
    obtain member | member := List.mem_append.mp member
    · have := first.handlers entry member
      omega
    · have := second.handlers entry member
      omega
  sorted := by
    refine List.pairwise_append.mpr ⟨first.sorted, second.sorted, ?_⟩
    intro earlier member later member'
    have := first.handlers earlier member
    have := second.handlers later member'
    omega

/-- Segments are registered for a handler that begins where the code has ended. -/
theorem register
    {segments : List (Label × Label)} {handler : Label} {catchType : Option String}
    (grows : before.Grows after)
    (regions : after.regions.toList = before.regions.toList ++ segments.map fun segment =>
      { start := segment.1, stop := segment.2, handler, catchType })
    (bounds : ∀ segment ∈ segments, before.Bounds segment)
    (handled : after.position? handler = some before.size)
    (begun : before.size < after.size) :
    before.Tables after ((before.ranges segments).map (entryOf before.size catchType)) where
  grows := grows
  tabled := by
    intro tabled region member
    rw [regions] at member
    obtain member | member := List.mem_append.mp member
    · exact tabled.grown grows region member
    · obtain ⟨segment, listed, rfl⟩ := List.mem_map.mp member
      exact ⟨(bounds segment listed).grows grows, _, handled, begun⟩
  table := by
    intro tabled
    rw [Code.table, regions, List.filterMap_append, tabled.table_eq grows, List.filterMap_map,
      ranges, List.map_filterMap]
    congr 1
    refine List.filterMap_congr fun segment member => ?_
    have same := (bounds segment member).range?_eq grows
    simp only [Function.comp_apply, entryOf?, same, handled]
    cases before.range? segment with
    | none => rfl
    | some range => rfl
  handlers := by
    intro entry member
    obtain ⟨range, -, rfl⟩ := List.mem_map.mp member
    exact ⟨Nat.le_refl _, begun⟩
  sorted := by
    refine List.pairwise_of_forall_mem_list ?_
    intro earlier member later member'
    obtain ⟨_, -, rfl⟩ := List.mem_map.mp member
    obtain ⟨_, -, rfl⟩ := List.mem_map.mp member'
    exact Nat.le_refl _

end Tables

end Code

/-! ## Open regions -/

/--
The segments of a region follow one another from a position on, and the current
one begins behind them.
-/
structure OpenRegion.Ascends (code : Code) (first : Nat) (region : OpenRegion) : Prop where
  bounds : ∀ segment ∈ region.segments, code.Bounds segment
  successive : ∃ last ≤ code.size, Successive first (code.ranges region.segments) last ∧
    ∀ start ∈ region.current, ∃ position, code.position? start = some position ∧
      last ≤ position ∧ position ≤ code.size

namespace OpenRegion.Ascends

variable {before after code : Code} {first : Nat} {region : OpenRegion}

/-- Positions stay in order while code is added. -/
theorem grows (ascends : region.Ascends before first) (grows : before.Grows after) :
    region.Ascends after first where
  bounds segment member := (ascends.bounds segment member).grows grows
  successive := by
    obtain ⟨last, within, successive, current⟩ := ascends.successive
    have sizes := grows.size_le
    refine ⟨last, by omega, ?_, ?_⟩
    · rwa [Code.ranges_eq_of_grows ascends.bounds grows]
    · intro start found
      obtain ⟨position, bound, behind, within⟩ := current start found
      exact ⟨position, grows.marks _ _ bound, behind, by omega⟩

/-- A region that is opened here. -/
theorem begin {start : Label} (bound : code.position? start = some code.size) :
    ({ current := some start } : OpenRegion).Ascends code code.size where
  bounds _ member := (List.not_mem_nil member).elim
  successive := by
    refine ⟨code.size, Nat.le_refl _, Nat.le_refl _, ?_⟩
    rintro _ ⟨⟩
    exact ⟨_, bound, Nat.le_refl _, Nat.le_refl _⟩

/-- A region that is cut here covers code up to here. -/
theorem suspend (ascends : region.Ascends code first) {stop : Label}
    (bound : code.position? stop = some code.size) : (region.suspend stop).Ascends code first := by
  obtain ⟨last, within, successive, current⟩ := ascends.successive
  unfold OpenRegion.suspend
  split
  · next start found =>
    obtain ⟨position, started, behind, reached⟩ := current start found
    refine ⟨?_, code.size, Nat.le_refl _, ?_, nofun⟩
    · intro segment member
      obtain member | member := List.mem_append.mp member
      · exact ascends.bounds segment member
      · obtain rfl := List.mem_singleton.mp member
        exact ⟨_, _, started, bound⟩
    · rw [Code.ranges_append]
      by_cases nonempty : position < code.size
      · have range : code.ranges [(start, stop)] = [(position, code.size)] := by
          simp [Code.ranges, Code.range?, started, bound, nonempty]
        rw [range]
        exact successive.snoc behind nonempty
      · have range : code.ranges [(start, stop)] = [] := by
          simp [Code.ranges, Code.range?, started, bound, nonempty]
        rw [range, List.append_nil]
        exact successive.mono within
  · exact ascends

theorem resume (ascends : region.Ascends code first) {start : Label}
    (bound : code.position? start = some code.size) : (region.resume start).Ascends code first := by
  unfold OpenRegion.resume
  split
  · exact ascends
  · obtain ⟨last, within, successive, -⟩ := ascends.successive
    refine ⟨ascends.bounds, last, within, successive, ?_⟩
    rintro _ ⟨⟩
    exact ⟨_, bound, within, Nat.le_refl _⟩

end OpenRegion.Ascends

end StackCode
