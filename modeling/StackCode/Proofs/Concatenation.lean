import StackCode.Const.Fold

/-!
# Joining constants to a string

A string is a sequence of characters, but a `char` is a code unit of UTF-16.  Joining
constants to a string keeps the code units of all of them, in their order, with one
exception: a `char` that is half of a surrogate pair is left out, even where its other
half comes next.
-/

namespace StackCode

namespace Text

/-- The code units of a character in UTF-16. -/
def charUnits (character : Char) : List UInt16 :=
  if character.toNat < 0x10000 then [character.toNat.toUInt16]
  else
    let offset := character.toNat - 0x10000
    [(0xD800 + offset / 0x400).toUInt16, (0xDC00 + offset % 0x400).toUInt16]

/-- The code units of a text in UTF-16. -/
def units (text : String) : List UInt16 := text.toList.flatMap charUnits

@[simp] theorem units_append (first second : String) :
    units (first ++ second) = units first ++ units second := by
  simp [units]

end Text

namespace Const

/-- The code units for which a constant stands in a concatenation. -/
def units : Const → List UInt16
  | boolean value => Text.units (boolText value)
  | char unit => [unit]
  | byte value => Text.units (toString value.toInt)
  | short value => Text.units (toString value.toInt)
  | int value => Text.units (toString value.toInt)
  | long value => Text.units (toString value.toInt)
  | float value => Text.units (floatText (.ofSingle value))
  | double value => Text.units (floatText (.ofDouble value))
  | string value => Text.units value
  | null => Text.units "null"

/-- The constant is half of a surrogate pair. -/
def isHalf : Const → Bool
  | char unit => 0xD800 ≤ unit.toNat && unit.toNat < 0xE000
  | _ => false

/-- The code units of some constants one after the other, halves of surrogate pairs left out. -/
def wholeUnits (parts : List Const) : List UInt16 :=
  (parts.filter fun part => !part.isHalf).flatMap units

theorem wholeUnits_append (first second : List Const) :
    wholeUnits (first ++ second) = wholeUnits first ++ wholeUnits second := by
  simp [wholeUnits]

/-- A code unit is a character by itself unless it is half of a surrogate pair. -/
theorem isValidChar_iff_not_isHalf (unit : UInt16) :
    unit.toUInt32.toNat.isValidChar ↔ (char unit).isHalf = false := by
  have bounded := unit.toNat_lt
  rw [UInt16.toNat_toUInt32, Nat.isValidChar, isHalf, Bool.and_eq_false_iff,
    decide_eq_false_iff_not, decide_eq_false_iff_not]
  omega

theorem charUnits_of_unit {unit : UInt16} (valid : unit.toUInt32.toNat.isValidChar) :
    Text.charUnits ⟨unit.toUInt32, valid⟩ = [unit] := by
  have small : unit.toNat < 0x10000 := unit.toNat_lt
  simp [Text.charUnits, Char.toNat, small]

/-- A constant contributes its code units, half of a surrogate pair none. -/
theorem units_concatText (value : Const) : Text.units value.concatText = wholeUnits [value] := by
  cases value with
  | char unit =>
    by_cases valid : unit.toUInt32.toNat.isValidChar
    · have whole := (isValidChar_iff_not_isHalf unit).mp valid
      simp only [concatText, unitChar?, dif_pos valid]
      simp [wholeUnits, whole, Text.units, units, charUnits_of_unit valid]
    · have half : (char unit).isHalf := by
        simpa using mt (isValidChar_iff_not_isHalf unit).mpr valid
      simp only [concatText, unitChar?, dif_neg valid]
      simp [wholeUnits, half, Text.units]
  | _ => simp [wholeUnits, isHalf, units, concatText, text]

/-- Addition of a string joins the code units of both operands. -/
theorem foldBinary_add_units
    (left right : Const)
    (joins : left.string?.isSome ∨ right.string?.isSome) :
    ∃ text, foldBinary .add left right = some (string text) ∧
      Text.units text = wholeUnits [left, right] := by
  refine ⟨_, if_pos ⟨rfl, joins⟩, ?_⟩
  rw [Text.units_append, units_concatText, units_concatText, ← wholeUnits_append,
    List.singleton_append]

/-- A chain of additions to a string joins the code units of all its parts. -/
theorem foldlM_add_units (start : String) (parts : List Const) :
    ∃ text, parts.foldlM (foldBinary .add) (string start) = some (string text) ∧
      Text.units text = wholeUnits (string start :: parts) := by
  induction parts generalizing start with
  | nil => exact ⟨start, rfl, units_concatText (string start)⟩
  | cons part parts ih =>
    obtain ⟨between, folded, joined⟩ := foldBinary_add_units (string start) part (.inl rfl)
    obtain ⟨text, rest, units⟩ := ih between
    refine ⟨text, by rw [List.foldlM_cons, folded]; exact rest, ?_⟩
    calc
      Text.units text = wholeUnits ([string between] ++ parts) := units
      _ = wholeUnits ([string start, part] ++ parts) := by
        rw [wholeUnits_append, ← units_concatText (string between), wholeUnits_append, ← joined]
        rfl

/-- The two halves of a character are lost one by one. -/
example :
    [char 0xD83D, char 0xDE00, int 7].foldlM (foldBinary .add) (string "x") =
      some (string "x7") := by
  rfl

end Const

end StackCode
