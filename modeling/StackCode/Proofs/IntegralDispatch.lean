import Mathlib.Data.List.Nodup
import StackCode.Proofs.Execution

/-!
# Dispatch on integers

Where a switch instruction sends an integer, and that the instruction made for
pairs of keys and labels sends every integer to the label it is paired with.  A table
is used only if the keys leave no gap: distinct keys in ascending order whose first
and last one are as far apart as their number allows are consecutive.
-/

namespace StackCode

namespace Emit

/-- Where pairs of keys and labels send an integer. -/
structure Sends (pairs : List (Int32 × Label)) (default : Label) (instruction : Instruction) :
    Prop where
  /-- A key goes to the label it is paired with. -/
  paired : ∀ {key label}, (key, label) ∈ pairs → instruction.destination? key = some label
  /-- All other integers go to the default. -/
  unpaired : ∀ {value}, value ∉ pairs.map Prod.fst → instruction.destination? value = some default

/-- Pairs in strictly ascending order of their keys. -/
def AscendingPairs (pairs : List (Int32 × Label)) : Prop :=
  pairs.Pairwise fun first second => first.1 < second.1

/-- The least and the greatest key of some pairs. -/
structure KeyRange (pairs : List (Int32 × Label)) (low high : Int32) : Prop where
  low_mem : low ∈ pairs.map Prod.fst
  high_mem : high ∈ pairs.map Prod.fst
  between : ∀ key ∈ pairs.map Prod.fst, low ≤ key ∧ key ≤ high

/-- How the instruction for some pairs is chosen. -/
inductive Chosen (pairs : List (Int32 × Label)) (default : Label) : Instruction → Prop where
  /-- If the keys leave no gap there is a table, with one target for each integer in its range. -/
  | table {low high : Int32} {targets : List Label}
      (range : KeyRange pairs low high)
      (dense : high.toInt - low.toInt = pairs.length - 1)
      (size : (targets.length : Int) = high.toInt - low.toInt + 1) :
      Chosen pairs default (.tableSwitch low high default targets)
  /-- Otherwise the pairs are listed in strictly ascending order of their keys. -/
  | lookup {sorted : List (Int32 × Label)}
      (sparse : ∀ low high, KeyRange pairs low high → high.toInt - low.toInt ≠ pairs.length - 1)
      (same : sorted.Perm pairs)
      (ascending : AscendingPairs sorted) :
      Chosen pairs default (.lookupSwitch default sorted)

/-- The order in which pairs are sorted. -/
def keyLE (first second : Int32 × Label) : Bool := first.1 ≤ second.1

namespace AscendingPairs

variable {pairs : List (Int32 × Label)}

/-- Sorting pairs with distinct keys puts their keys in strictly ascending order. -/
theorem mergeSort (distinct : (pairs.map Prod.fst).Nodup) :
    AscendingPairs (pairs.mergeSort keyLE) := by
  have sorted : (pairs.mergeSort keyLE).Pairwise fun first second => keyLE first second := by
    apply List.pairwise_mergeSort
    · intro first second third before after
      exact decide_eq_true (Int32.le_trans (of_decide_eq_true before) (of_decide_eq_true after))
    · intro first second
      simpa [keyLE] using Int32.le_total first.1 second.1
  have apart : (pairs.mergeSort keyLE).Pairwise fun first second => first.1 ≠ second.1 := by
    apply List.pairwise_map.mp
    exact (((List.mergeSort_perm pairs keyLE).map Prod.fst).nodup_iff).mpr distinct
  refine (sorted.and apart).imp ?_
  rintro first second ⟨ordered, differs⟩
  exact Int32.lt_of_le_of_ne (of_decide_eq_true ordered) differs

/-- Keys are at least as far apart as their places. -/
theorem gap
    (ascending : AscendingPairs pairs)
    {first last : Nat}
    (ordered : first ≤ last)
    (inside : last < pairs.length) :
    pairs[first].1.toInt + (last - first : Nat) ≤ pairs[last].1.toInt := by
  induction ordered with
  | refl => simp
  | @step last ordered ih =>
    have before := ih (by omega)
    have ordered : first ≤ last := ordered
    have step : pairs[last].1 < pairs[last + 1].1 :=
      List.pairwise_iff_getElem.mp ascending last (last + 1) (by omega) inside
        (Nat.lt_succ_self last)
    have apart := Int32.lt_iff_toInt_lt.mp step
    change pairs[first].1.toInt + (last + 1 - first : Nat) ≤ pairs[last + 1].1.toInt
    omega

/-- Keys that span no more than their number allows are consecutive. -/
theorem consecutive
    (ascending : AscendingPairs pairs)
    (nonempty : 0 < pairs.length)
    (span : pairs[pairs.length - 1].1.toInt - pairs[0].1.toInt = pairs.length - 1)
    {index : Nat}
    (inside : index < pairs.length) :
    pairs[index].1.toInt = pairs[0].1.toInt + index := by
  have below := ascending.gap (Nat.zero_le index) inside
  have above := ascending.gap (show index ≤ pairs.length - 1 by omega) (by omega)
  omega

variable {default : Label}

/-- A table of consecutive keys sends every integer to the label it is paired with. -/
theorem tableSwitch
    (ascending : AscendingPairs pairs)
    (nonempty : 0 < pairs.length)
    (span : pairs[pairs.length - 1].1.toInt - pairs[0].1.toInt = pairs.length - 1) :
    Sends pairs default
      (.tableSwitch pairs[0].1 pairs[pairs.length - 1].1 default (pairs.map Prod.snd)) where
  paired := by
    intro key label member
    obtain ⟨index, inside, found⟩ := List.mem_iff_getElem.mp member
    have place := ascending.consecutive nonempty span inside
    simp only [found] at place
    have low : pairs[0].1 ≤ key := Int32.le_iff_toInt_le.mpr (by omega)
    have high : key ≤ pairs[pairs.length - 1].1 := Int32.le_iff_toInt_le.mpr (by omega)
    have offset : (key.toInt - pairs[0].1.toInt).toNat = index := by omega
    rw [Instruction.destination?, if_pos ⟨low, high⟩, offset, List.getElem?_map,
      List.getElem?_eq_getElem inside, found]
    rfl
  unpaired := by
    intro value missing
    rw [Instruction.destination?, if_neg]
    rintro ⟨low, high⟩
    -- An integer between the ends is one of the keys, since these leave no gap.
    have low := Int32.le_iff_toInt_le.mp low
    have high := Int32.le_iff_toInt_le.mp high
    have inside : (value.toInt - pairs[0].1.toInt).toNat < pairs.length := by omega
    have place := ascending.consecutive nonempty span inside
    have same : pairs[(value.toInt - pairs[0].1.toInt).toNat].1 = value :=
      Int32.toInt_inj.mp (by omega)
    exact missing (same ▸ List.mem_map_of_mem (List.getElem_mem inside))

end AscendingPairs

/-- A list of pairs with distinct keys sends every integer to the label it is paired with. -/
theorem sends_lookupSwitch
    {pairs : List (Int32 × Label)} {default : Label}
    (distinct : (pairs.map Prod.fst).Nodup) :
    Sends pairs default (.lookupSwitch default pairs) where
  paired := by
    intro key label member
    rw [Instruction.destination?, lookup_of_mem distinct member]
    rfl
  unpaired := by
    intro value missing
    rw [Instruction.destination?, lookup_eq_none missing]
    rfl

/-! ## The instruction for some pairs -/

variable {pairs sorted : List (Int32 × Label)} {default : Label} {low high : Int32}
variable {instruction : Instruction}

theorem Sends.perm (sends : Sends sorted default instruction) (same : sorted.Perm pairs) :
    Sends pairs default instruction where
  paired := fun member => sends.paired (same.mem_iff.mpr member)
  unpaired := fun missing => sends.unpaired fun member =>
    missing ((same.map Prod.fst).mem_iff.mp member)

theorem KeyRange.perm (range : KeyRange sorted low high) (same : sorted.Perm pairs) :
    KeyRange pairs low high where
  low_mem := (same.map Prod.fst).mem_iff.mp range.low_mem
  high_mem := (same.map Prod.fst).mem_iff.mp range.high_mem
  between := fun key member => range.between key ((same.map Prod.fst).mem_iff.mpr member)

/-- The least and the greatest key are the only ones. -/
theorem KeyRange.unique
    {low' high' : Int32}
    (range : KeyRange pairs low high)
    (range' : KeyRange pairs low' high') :
    low = low' ∧ high = high' :=
  ⟨Int32.le_antisymm (range.between _ range'.low_mem).1 (range'.between _ range.low_mem).1,
    Int32.le_antisymm (range'.between _ range.high_mem).2 (range.between _ range'.high_mem).2⟩

/-- The first and the last of ascending keys are the least and the greatest one. -/
theorem AscendingPairs.keyRange (ascending : AscendingPairs pairs) (nonempty : 0 < pairs.length) :
    KeyRange pairs pairs[0].1 pairs[pairs.length - 1].1 where
  low_mem := List.mem_map_of_mem (List.getElem_mem nonempty)
  high_mem := List.mem_map_of_mem (List.getElem_mem (Nat.sub_one_lt_of_lt nonempty))
  between := by
    intro key member
    obtain ⟨pair, listed, rfl⟩ := List.mem_map.mp member
    obtain ⟨index, inside, rfl⟩ := List.mem_iff_getElem.mp listed
    have below := ascending.gap (Nat.zero_le index) inside
    have above := ascending.gap (show index ≤ pairs.length - 1 by omega) (by omega)
    exact ⟨Int32.le_iff_toInt_le.mpr (by omega), Int32.le_iff_toInt_le.mpr (by omega)⟩

theorem AscendingPairs.nodup (ascending : AscendingPairs pairs) : (pairs.map Prod.fst).Nodup := by
  apply List.pairwise_map.mpr
  exact ascending.imp fun less => Int32.ne_of_lt less

/-- The instruction for ascending pairs sends every integer where it belongs. -/
theorem AscendingPairs.dispatchSorted (ascending : AscendingPairs pairs) :
    Sends pairs default (dispatchSorted pairs default) ∧
      Chosen pairs default (Emit.dispatchSorted pairs default) := by
  by_cases empty : pairs = []
  · subst empty
    exact ⟨sends_lookupSwitch List.nodup_nil,
      .lookup (fun _ _ range => absurd range.low_mem List.not_mem_nil)
      (List.Perm.refl _) List.Pairwise.nil⟩
  · have nonempty : 0 < pairs.length := List.length_pos_iff.mpr empty
    have range := ascending.keyRange nonempty
    have head : pairs.head? = some pairs[0] := by
      rw [List.head?_eq_getElem?, List.getElem?_eq_getElem nonempty]
    have last : pairs.getLast? = some pairs[pairs.length - 1] := by
      rw [List.getLast?_eq_getElem?, List.getElem?_eq_getElem (Nat.sub_one_lt_of_lt nonempty)]
    rw [Emit.dispatchSorted, head, last]
    dsimp only
    split
    · next dense =>
      exact ⟨ascending.tableSwitch nonempty dense, .table range dense (by simp; omega)⟩
    · next sparse =>
      refine ⟨sends_lookupSwitch ascending.nodup, .lookup ?_ (List.Perm.refl _) ascending⟩
      intro low high other
      obtain ⟨rfl, rfl⟩ := range.unique other
      exact sparse

theorem Chosen.perm (chosen : Chosen sorted default instruction) (same : sorted.Perm pairs) :
    Chosen pairs default instruction := by
  cases chosen with
  | table range dense size => exact .table (range.perm same) (same.length_eq ▸ dense) size
  | lookup sparse order ascending =>
    refine .lookup ?_ (order.trans same) ascending
    intro low high range
    rw [← same.length_eq]
    exact sparse low high (range.perm same.symm)

theorem Sends.dispatch (distinct : (pairs.map Prod.fst).Nodup) (default : Label) :
    Sends pairs default (dispatch pairs default) :=
  (AscendingPairs.mergeSort distinct).dispatchSorted.1.perm (List.mergeSort_perm pairs keyLE)

/--
The instruction for pairs with distinct keys, in any order, sends each key to the label
it is paired with and every other integer to the default.  It is a table of as many
targets as there are integers in its range if the keys leave no gap, and otherwise a
list of the pairs in strictly ascending order.
-/
theorem dispatch_sends
    (pairs : List (Int32 × Label))
    (default : Label)
    (distinct : (pairs.map Prod.fst).Nodup) :
    Sends pairs default (dispatch pairs default) ∧
      Chosen pairs default (dispatch pairs default) := by
  refine ⟨.dispatch distinct default, ?_⟩
  have ascending := AscendingPairs.mergeSort distinct
  exact ascending.dispatchSorted.2.perm (List.mergeSort_perm pairs keyLE)

/-- Keys at both ends of the range, the greatest one first. -/
theorem dispatch_sends_extremes :
    let pairs : List (Int32 × Label) :=
      [(2147483647, ⟨0⟩), (-2147483648, ⟨1⟩), (-2147483647, ⟨2⟩)]
    (pairs.map Prod.fst).Nodup ∧ Sends pairs ⟨3⟩ (dispatch pairs ⟨3⟩) ∧
      Chosen pairs ⟨3⟩ (dispatch pairs ⟨3⟩) :=
  ⟨by decide, dispatch_sends _ _ (by decide)⟩

end Emit
end StackCode
