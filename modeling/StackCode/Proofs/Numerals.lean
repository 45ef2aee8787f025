import Mathlib.Data.List.DropRight
import Mathlib.Data.List.TakeDrop
import Mathlib.Tactic.Ring
import StackCode.Decimal.Layout

/-!
# Numerals

The computerised layout writes the number that it reads.  A number in power form has
its point after the first digit; the layout moves the point to where the power is one, or
keeps the power, and fills the places between the digits and the point with zeros.
-/

namespace StackCode
namespace Decimal

/-- A number in power form: digits of which only the first may be zero. -/
structure PowerForm where
  /-- There is a minus in front. -/
  negative : Bool
  /-- The digit before the point. -/
  lead : Char
  /-- The digits after the point; without any there is no point. -/
  rest : List Char
  /-- The power of ten. -/
  exponent : Int
  isDigit : ∀ digit ∈ lead :: rest, digit.isDigit
  rest_eq_nil : lead = '0' → rest = []
  getLast?_rest : rest.getLast? ≠ some '0'
  lower : -2147483648 ≤ exponent
  upper : exponent ≤ 2147483647

namespace PowerForm

variable (form : PowerForm)

/-- All digits. -/
def digits : List Char := form.lead :: form.rest

/-- What stands before the power. -/
def mantissa : List Char :=
  form.lead :: if form.rest.isEmpty then [] else '.' :: form.rest

/-- The written form. -/
def text : String :=
  signed form.negative (form.mantissa ++ 'e' :: (toString form.exponent).toList)

/-- The number without its sign. -/
def magnitude : ℚ :=
  Nat.ofDigitChars 10 form.digits 0 * 10 ^ (form.exponent - form.rest.length)

end PowerForm

/-- A numeral with digits on both sides of a point. -/
structure Numeral where
  negative : Bool
  /-- The digits before the point. -/
  whole : List Char
  /-- The digits after the point. -/
  fraction : List Char
  /-- The power of ten, if one is written. -/
  power : Option Int
  isDigit : ∀ digit ∈ whole ++ fraction, digit.isDigit
  whole_ne_nil : whole ≠ []
  fraction_ne_nil : fraction ≠ []

namespace Numeral

variable (numeral : Numeral)

/-- The written numeral. -/
def text : String :=
  let power := numeral.power.elim [] fun power => 'E' :: (toString power).toList
  signed numeral.negative (numeral.whole ++ ['.'] ++ numeral.fraction ++ power)

/-- The number without its sign. -/
def magnitude : ℚ :=
  Nat.ofDigitChars 10 (numeral.whole ++ numeral.fraction) 0 *
    10 ^ (numeral.power.getD 0 - numeral.fraction.length)

/-- A zero starts the digits before the point or ends those after it only where it is alone. -/
def Canonical : Prop :=
  (numeral.whole.head? = some '0' → numeral.whole = ['0']) ∧
    (numeral.fraction.getLast? = some '0' → numeral.fraction = ['0'])

end Numeral

/-! ## Reading a power form -/

theorem isDigit_of_mem_toDigits
    {number : Nat} {digit : Char}
    (member : digit ∈ Nat.toDigits 10 number) :
    digit.isDigit = true :=
  Nat.isDigit_of_mem_toDigits (by decide) (by decide) member

theorem natural?_toDigits (number : Nat) : natural? (Nat.toDigits 10 number) = some number := by
  rw [natural?, if_pos, Nat.ofDigitChars_ten_toDigits]
  exact ⟨Nat.toDigits_ne_nil, List.all_eq_true.2 fun digit => isDigit_of_mem_toDigits⟩

/-- A number can be read from its text. -/
theorem integer?_toString
    {number : Int}
    (lower : -2147483648 ≤ number)
    (upper : number ≤ 2147483647) :
    integer? (toString number).toList = some number := by
  rw [Int.toString_eq_repr, Int.repr_eq_if]
  split
  next nonneg =>
    have unsigned (sign : Char) (noDigit : sign.isDigit = false) (digits : List Char) :
        Nat.toDigits 10 number.toNat ≠ sign :: digits := fun spelled => by
      have member : sign ∈ Nat.toDigits 10 number.toNat := spelled ▸ List.mem_cons_self
      exact Bool.false_ne_true (noDigit.symm.trans (isDigit_of_mem_toDigits member))
    have read : integer? (Nat.toDigits 10 number.toNat) =
        (some (number.toNat : Int)).filter fun number =>
          -2147483648 ≤ number ∧ number ≤ 2147483647 := by
      unfold integer?
      split
      next digits spelled => exact absurd spelled (unsigned '-' rfl digits)
      next digits spelled => exact absurd spelled (unsigned '+' rfl digits)
      next => rw [natural?_toDigits]; rfl
    rw [Nat.repr_eq_ofList_toDigits, String.toList_ofList, read]
    simp
    omega
  next negative =>
    have minus : "-".toList = ['-'] := rfl
    rw [String.toList_append, minus, Nat.repr_eq_ofList_toDigits, String.toList_ofList,
      List.singleton_append, integer?, natural?_toDigits]
    simp
    omega

theorem Scientific.zeros_add_one (count : Int) :
    zeros (count + 1) = zeros count ++ if 0 ≤ count then ['0'] else [] := by
  split
  next nonneg =>
    have count_add : (count + 1).toNat = count.toNat + 1 := by omega
    rw [zeros, zeros, count_add, List.replicate_succ']
  next negative =>
    have none : (count + 1).toNat = 0 := by omega
    have none' : count.toNat = 0 := by omega
    rw [zeros, zeros, none, none', List.append_nil]

/-- A power form is split before its power. -/
theorem span_append_e {mantissa : List Char} (absent : 'e' ∉ mantissa) (power : List Char) :
    (mantissa ++ 'e' :: power).span (· != 'e') = (mantissa, 'e' :: power) := by
  have before (char : Char) (member : char ∈ mantissa) : (char != 'e') = true :=
    bne_iff_ne.2 fun isE => absent (isE ▸ member)
  rw [List.span_eq_takeWhile_dropWhile, List.takeWhile_append_of_pos before,
    List.dropWhile_append_of_pos before]
  simp

namespace PowerForm

variable (form : PowerForm)

theorem ne_of_mem_digits
    {char other : Char}
    (member : char ∈ form.digits)
    (noDigit : other.isDigit = false) :
    char ≠ other := by
  rintro rfl
  exact Bool.false_ne_true (noDigit.symm.trans (form.isDigit char member))

/-- The mantissa has the digits and perhaps a point. -/
theorem filter_mantissa : form.mantissa.filter (· != '.') = form.digits := by
  have kept : form.digits.filter (· != '.') = form.digits :=
    List.filter_eq_self.2 fun char member => bne_iff_ne.2 (form.ne_of_mem_digits member rfl)
  rw [← kept, mantissa, digits]
  cases form.rest <;> simp [List.filter_cons]

/-- A power form can be read from its text. -/
theorem ofPowerForm_text :
    ofPowerForm form.text =
      (form.negative, { digits := form.digits, exponent := form.exponent }) := by
  have absent : 'e' ∉ form.mantissa := fun member => by
    have digit : 'e' ∈ form.digits := form.filter_mantissa ▸ List.mem_filter.2 ⟨member, rfl⟩
    exact form.ne_of_mem_digits digit rfl rfl
  have unsigned : (form.mantissa.head? == some '-') = false :=
    beq_eq_false_iff_ne.2 fun isMinus =>
      form.ne_of_mem_digits List.mem_cons_self rfl (Option.some.inj isMinus)
  have exponent := integer?_toString form.lower form.upper
  rw [ofPowerForm, text, signed, String.toList_ofList]
  cases form.negative with
  | true =>
    have absent : 'e' ∉ '-' :: form.mantissa := by simp [absent]
    rw [if_pos rfl, ← List.cons_append, span_append_e absent]
    simp [filter_mantissa, -Int.toString_eq_repr, exponent]
  | false =>
    rw [if_neg Bool.false_ne_true, span_append_e absent]
    simp [unsigned, filter_mantissa, -Int.toString_eq_repr, exponent]

/-- The digits of a power form end in a zero only where it is the only one. -/
theorem lead_eq_zero_of_getLast? (ends : form.digits.getLast? = some '0') :
    form.lead = '0' ∧ form.rest = [] := by
  cases rest : form.rest with
  | nil => simpa [digits, rest] using ends
  | cons next others =>
    have last := form.getLast?_rest
    simp_all [digits]

/-- The digits of a power form have no zeros to trim. -/
theorem trimmed_digits (exponent : Int) :
    Scientific.trimmed { digits := form.digits, exponent } =
      { digits := form.digits, exponent } := by
  by_cases zero : form.lead = '0'
  · rw [digits, form.rest_eq_nil zero, zero]
    rfl
  · have kept : (form.digits.reverse.dropWhile (· == '0')).reverse = form.digits :=
      List.rdropWhile_eq_self_iff.2 fun nonempty isZero =>
        zero (form.lead_eq_zero_of_getLast?
          ((List.getLast?_eq_some_getLast nonempty).trans (congrArg some (eq_of_beq isZero)))).1
    simp only [Scientific.trimmed, kept]
    rfl

/-! ## Moving the point -/

/-- How far the point of the power form moves to the right. -/
def point : Int :=
  if -3 ≤ form.exponent ∧ form.exponent < 7 then form.exponent else 0

/-- The digits with the zeros that put at least one of them on each side of the point. -/
def padded : List Char :=
  Scientific.zeros (-form.point) ++ form.digits ++
    Scientific.zeros (form.point - form.rest.length + 1)

theorem isDigit_padded (digit : Char) (member : digit ∈ form.padded) : digit.isDigit := by
  simp only [padded, Scientific.zeros, List.mem_append, List.mem_replicate] at member
  obtain (⟨-, rfl⟩ | inner) | ⟨-, rfl⟩ := member
  · rfl
  · exact form.isDigit digit inner
  · rfl

theorem length_padded :
    form.padded.length = (-form.point).toNat + (form.rest.length + 1) +
      (form.point - form.rest.length + 1).toNat := by
  simp [padded, digits, Scientific.zeros]
  omega

/-- The numeral that the computerised layout writes. -/
def numeral : Numeral where
  negative := form.negative
  whole := form.padded.take (form.point.toNat + 1)
  fraction := form.padded.drop (form.point.toNat + 1)
  power := if -3 ≤ form.exponent ∧ form.exponent < 7 then none else some form.exponent
  isDigit := by
    rw [List.take_append_drop]
    exact form.isDigit_padded
  whole_ne_nil := by
    have := form.length_padded
    rw [← List.length_pos_iff, List.length_take]
    omega
  fraction_ne_nil := by
    have := form.length_padded
    rw [← List.length_pos_iff, List.length_drop]
    omega

theorem length_whole : form.numeral.whole.length = form.point.toNat + 1 := by
  have := form.length_padded
  simp only [numeral, List.length_take]
  omega

theorem length_fraction :
    (form.numeral.fraction.length : Int) =
      form.rest.length + (form.point - form.rest.length + 1).toNat - form.point := by
  have := form.length_padded
  simp only [numeral, List.length_drop]
  omega

theorem whole_append_fraction :
    form.numeral.whole ++ form.numeral.fraction = form.padded :=
  List.take_append_drop _ _

theorem getD_power : form.numeral.power.getD 0 = form.exponent - form.point := by
  simp only [numeral, point]
  split <;> simp

/-- Zeros around the digits change the number only by the power of ten that the point pays for. -/
theorem magnitude_numeral : form.numeral.magnitude = form.magnitude := by
  have shift : form.exponent - form.rest.length =
      (form.point - form.rest.length + 1).toNat +
        (form.numeral.power.getD 0 - form.numeral.fraction.length) := by
    rw [form.getD_power, form.length_fraction]
    omega
  rw [magnitude, Numeral.magnitude, whole_append_fraction, shift, zpow_add₀ (by norm_num),
    zpow_natCast, padded, Scientific.zeros, Scientific.zeros]
  simp [Nat.ofDigitChars_append, Nat.ofDigitChars_replicate_zero]
  ring

/-- With a power, the point stands after the first digit. -/
theorem whole_fraction_of_exponent (outside : ¬(-3 ≤ form.exponent ∧ form.exponent < 7)) :
    form.numeral.whole = [form.lead] ∧
      form.numeral.fraction = if form.rest.isEmpty then ['0'] else form.rest := by
  have point : form.point = 0 := if_neg outside
  cases rest : form.rest <;> simp [numeral, padded, digits, point, rest, Scientific.zeros]

/-- The layout writes the digits of the numeral around the point. -/
theorem computerised_digits :
    Scientific.computerised { digits := form.digits, exponent := form.exponent } =
      form.numeral.whole ++ ['.'] ++ form.numeral.fraction ++
        form.numeral.power.elim [] fun power => 'E' :: (toString power).toList := by
  simp only [Scientific.computerised, trimmed_digits]
  by_cases plain : -3 ≤ form.exponent ∧ form.exponent < 7
  · have point : form.point = form.exponent := if_pos plain
    have power : form.numeral.power = none := if_pos plain
    rw [if_neg (by omega), power]
    simp only [numeral, padded, point]
    split
    next below =>
      obtain ⟨zeros, exponent⟩ := Int.eq_negSucc_of_lt_zero below
      have after : (Int.negSucc zeros - form.rest.length + 1).toNat = 0 := by omega
      simp [Scientific.belowOne, Scientific.zeros, exponent, after, List.replicate_succ]
    next above =>
      obtain ⟨units, exponent⟩ := Int.eq_ofNat_of_zero_le (not_lt.1 above)
      have before : Scientific.zeros (-(units : Int)) = [] := by simp [Scientific.zeros]
      have length : form.digits.length = form.rest.length + 1 := rfl
      simp only [exponent, before, Scientific.splitAtUnits?, length]
      by_cases short : units < form.rest.length
      · have after : ((units : Int) - form.rest.length + 1).toNat = 0 := by omega
        rw [if_pos (by omega)]
        simp [Scientific.zeros, after]
      · have units_sub : ((units : Int) + 1 - (form.rest.length + 1 : Nat)).toNat =
            units - form.rest.length := by omega
        have after : ((units : Int) - form.rest.length + 1).toNat =
            units - form.rest.length + 1 := by omega
        have filled :
            (form.digits ++ List.replicate (units - form.rest.length) '0').length = units + 1 := by
          simp [length]
          omega
        rw [if_neg (by omega), Scientific.wholeDigits, length, Scientific.zeros, units_sub,
          Scientific.zeros, after, List.replicate_succ', List.nil_append, ← List.append_assoc,
          Int.toNat_natCast, List.take_left' filled, List.drop_left' filled]
        simp
  · obtain ⟨whole, fraction⟩ := form.whole_fraction_of_exponent plain
    have power : form.numeral.power = some form.exponent := if_neg plain
    rw [if_pos (by omega), power, whole, fraction]
    simp [Scientific.exponential, digits]

theorem head?_whole_of_nonneg (nonneg : 0 ≤ form.point) :
    form.numeral.whole.head? = some form.lead := by
  have before : (-form.point).toNat = 0 := by omega
  simp [numeral, padded, digits, Scientific.zeros, before]

/-- More than one digit after the point are digits of the power form. -/
theorem getLast?_digits (long : form.numeral.fraction.length ≠ 1) :
    form.digits.getLast? = form.numeral.fraction.getLast? ∧ form.point < form.rest.length := by
  have length := form.length_fraction
  have after : (form.point - form.rest.length + 1).toNat = 0 := by omega
  have spelled := form.whole_append_fraction
  rw [padded, Scientific.zeros, Scientific.zeros, after, List.replicate_zero,
    List.append_nil] at spelled
  have digits_ne_nil : form.digits ≠ [] := List.cons_ne_nil _ _
  refine ⟨?_, by omega⟩
  rw [← List.getLast?_append_of_ne_nil _ form.numeral.fraction_ne_nil, spelled,
    List.getLast?_append_of_ne_nil _ digits_ne_nil]

/-- There is no zero in front of a number above one and none after a fraction. -/
theorem canonical_numeral (nonzero : form.lead ≠ '0' ∨ form.exponent = 0) :
    form.numeral.Canonical := by
  have exponent : form.exponent = 0 → form.point = 0 := fun zero => by simp [point, zero]
  refine ⟨fun first => ?_, fun last => ?_⟩
  · have single : form.numeral.whole.length = 1 := by
      rw [length_whole]
      by_contra long
      have lead := (form.head?_whole_of_nonneg (by omega)).symm.trans first
      have := nonzero.resolve_left (not_not.2 (Option.some.inj lead))
      omega
    obtain ⟨digit, whole⟩ := List.length_eq_one_iff.1 single
    rw [whole] at first ⊢
    exact congrArg List.singleton (Option.some.inj first)
  · have single : form.numeral.fraction.length = 1 := by
      by_contra long
      obtain ⟨ends, point⟩ := form.getLast?_digits long
      obtain ⟨lead, rest⟩ := form.lead_eq_zero_of_getLast? (ends.trans last)
      have := nonzero.resolve_left (not_not.2 lead)
      rw [rest, List.length_nil] at point
      omega
    obtain ⟨digit, fraction⟩ := List.length_eq_one_iff.1 single
    rw [fraction] at last ⊢
    simpa using last

end PowerForm

/-- The computerised layout keeps the number.  It has digits on both sides of a point, a power
exactly outside the range from a thousandth to ten million, then after a single digit, and no
zeros but those between the digits and the point and the one that stands alone after it. -/
theorem computerisedText_text (form : PowerForm) :
    ∃ numeral : Numeral,
      computerisedText form.text = numeral.text ∧
      numeral.negative = form.negative ∧
      numeral.magnitude = form.magnitude ∧
      numeral.power =
        (if -3 ≤ form.exponent ∧ form.exponent < 7 then none else some form.exponent) ∧
      numeral.whole.length = form.point.toNat + 1 ∧
      numeral.whole ++ numeral.fraction =
        Scientific.zeros (-form.point) ++ form.digits ++
          Scientific.zeros (form.point - form.rest.length) ++
          (if form.rest.length ≤ form.point then ['0'] else []) ∧
      (numeral.power = none ∨ numeral.whole = [form.lead] ∧
        numeral.fraction = if form.rest.isEmpty then ['0'] else form.rest) ∧
      (form.lead = '0' ∧ form.exponent ≠ 0 ∨ numeral.Canonical) := by
  refine ⟨form.numeral, ?_, rfl, form.magnitude_numeral, rfl, form.length_whole, ?_, ?_, ?_⟩
  · rw [computerisedText, form.ofPowerForm_text]
    exact congrArg (signed form.negative) form.computerised_digits
  · simp only [form.whole_append_fraction, PowerForm.padded, Scientific.zeros_add_one,
      ← List.append_assoc, Int.sub_nonneg]
  · by_cases plain : -3 ≤ form.exponent ∧ form.exponent < 7
    · exact .inl (if_pos plain)
    · exact .inr (form.whole_fraction_of_exponent plain)
  · by_cases zero : form.lead = '0' ∧ form.exponent ≠ 0
    · exact .inl zero
    · exact .inr (form.canonical_numeral (by tauto))

example : computerisedText "-1.25e6" = "-1250000.0" := by decide

example : computerisedText "1.25e7" = "1.25E7" := by decide

end Decimal
end StackCode
