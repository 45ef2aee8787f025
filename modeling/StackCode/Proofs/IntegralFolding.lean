import Mathlib.Data.BitVec
import Mathlib.Data.Int.Bitwise
import Mathlib.Tactic.NormNum
import StackCode.Const.Fold
import StackCode.Emit.Expression

/-!
# Folding integers

An operator on integral constants folds to what it does to the numbers they stand
for, in two's complement.  The wider operand decides how many bits there are, but for
shifts, which keep the width of what is shifted.  The operation of the machine that is
emitted for the operator computes the same.
-/

namespace StackCode

/-! ## Integral constants -/

/-- The two widths in which integers are computed. -/
inductive Width where
  | int
  | long
  deriving DecidableEq, Repr, Inhabited

namespace Width

/-- The number of bits. -/
def bits : Width → Nat
  | int => 32
  | long => 64

/-- The kind of the values of a width. -/
def kind : Width → ValueKind
  | int => .int
  | long => .long

/-- The kind of arithmetic in a width. -/
def numeric : Width → NumericKind
  | int => .int
  | long => .long

/-- The wider one of two widths. -/
def join : Width → Width → Width
  | int, other => other
  | long, _ => long

/-- The constant of a width with the given bits. -/
def const : (width : Width) → BitVec width.bits → Const
  | int, bits => .int (.ofBitVec bits)
  | long, bits => .long (.ofBitVec bits)

/-- The constant of a width that stands for a number in two's complement. -/
def wrap (width : Width) (number : Int) : Const := width.const (.ofInt width.bits number)

theorem promote_numeric (left right : Width) :
    left.numeric.promote right.numeric = (left.join right).numeric := by
  cases left <;> cases right <;> rfl

end Width

/-- An integral constant. -/
inductive Integral where
  | byte (value : Int8)
  | short (value : Int16)
  | char (unit : UInt16)
  | int (value : Int32)
  | long (value : Int64)
  deriving DecidableEq, Repr, Inhabited

namespace Integral

/-- The integral constant as a constant. -/
def const : Integral → Const
  | byte value => .byte value
  | short value => .short value
  | char unit => .char unit
  | int value => .int value
  | long value => .long value

/-- The number for which an integral constant stands; that of a code unit is not negative. -/
def number : Integral → Int
  | byte value => value.toInt
  | short value => value.toInt
  | char unit => unit.toNat
  | int value => value.toInt
  | long value => value.toInt

/-- The width to which an integral constant is promoted. -/
def width : Integral → Width
  | long _ => .long
  | _ => .int

variable (constant : Integral)

theorem ofConst?_const :
    NumericKind.ofConst? constant.const = some constant.width.numeric := by
  cases constant <;> rfl

/-- An integral constant that is not long can be promoted to an integer. -/
theorem exists_switchKey? (narrow : constant.width = .int) :
    ∃ key, constant.const.switchKey? = some key ∧ key.toInt = constant.number := by
  cases constant with
  | byte value => exact ⟨_, rfl, value.toInt_toInt32⟩
  | short value => exact ⟨_, rfl, value.toInt_toInt32⟩
  | char unit =>
    have small : unit.toNat < 2 ^ 31 := unit.toNat_lt.trans (by norm_num)
    have key : unit.toUInt32.toInt32 = Int32.ofNat unit.toNat := by
      rw [← UInt32.toInt32_ofNat', ← UInt16.toNat_toUInt32, UInt32.ofNat_toNat]
    exact ⟨_, rfl, (congrArg Int32.toInt key).trans (Int32.toInt_ofNat_of_lt small)⟩
  | int value => exact ⟨_, rfl, rfl⟩
  | long value => cases narrow

/-- Every integral constant can be promoted to a long integer. -/
theorem exists_long? :
    ∃ long, constant.const.long? = some long ∧ long.toInt = constant.number := by
  cases own : constant.width with
  | int =>
    obtain ⟨key, isKey, number⟩ := constant.exists_switchKey? own
    refine ⟨key.toInt64, ?_, key.toInt_toInt64.trans number⟩
    cases constant <;> first | exact congrArg (Option.map Int32.toInt64) isKey | cases own
  | long =>
    cases constant with
    | long value => exact ⟨value, rfl, rfl⟩
    | _ => cases own

end Integral

/-! ## Operators on numbers -/

/-- The width in which an operator computes. -/
def BinaryOp.width (op : BinaryOp) (left right : Width) : Width :=
  if op.isShift then left else left.join right

/-- What a binary operator that computes in a width makes of two numbers. -/
def BinaryOp.evaluate? (op : BinaryOp) (width : Width) (first second : Int) : Option Const :=
  let distance := (second % width.bits).toNat
  match op with
  | .add => some (width.wrap (first + second))
  | .sub => some (width.wrap (first - second))
  | .mul => some (width.wrap (first * second))
  | .div => if second = 0 then none else some (width.wrap (first.tdiv second))
  | .rem => if second = 0 then none else some (width.wrap (first.tmod second))
  | .shl => some (width.wrap (first * 2 ^ distance))
  | .shr => some (width.wrap (first / 2 ^ distance))
  | .ushr => some (width.wrap (first % 2 ^ width.bits / 2 ^ distance))
  | .bitAnd => some (width.wrap (first.land second))
  | .bitOr => some (width.wrap (first.lor second))
  | .bitXor => some (width.wrap (first.xor second))
  | .eq => some (.boolean (first = second))
  | .ne => some (.boolean (first ≠ second))
  | .lt => some (.boolean (first < second))
  | .le => some (.boolean (first ≤ second))
  | .gt => some (.boolean (first > second))
  | .ge => some (.boolean (first ≥ second))
  | .and => none
  | .or => none

/-- What a unary operator makes of a number of a width. -/
def UnaryOp.evaluate? (op : UnaryOp) (width : Width) (number : Int) : Option Const :=
  match op with
  | .plus => some (width.wrap number)
  | .neg => some (width.wrap (-number))
  | .bitNot => some (width.wrap (-number - 1))
  | .not => none

section Words

variable {width : Nat} (first second : BitVec width)

/-- A bitwise operation on words is the one on their numbers. -/
theorem ofInt_eq_of_bitwise
    {first second result : BitVec width}
    {number : Int} (combine : Bool → Bool → Bool)
    (numbers : ∀ position, number.testBit position =
      combine (first.toInt.testBit position) (second.toInt.testBit position))
    (words : ∀ position, result.getLsbD position =
      combine (first.getLsbD position) (second.getLsbD position)) :
    BitVec.ofInt width number = result := by
  have bit (number : Int) {position : Nat} (inside : position < width) :
      (BitVec.ofInt width number).getLsbD position = number.testBit position := by
    cases number with
    | ofNat number =>
      rw [Int.ofNat_eq_natCast, BitVec.ofInt_natCast, BitVec.getLsbD_ofNat, decide_eq_true inside]
      rfl
    | negSucc number =>
      rw [BitVec.ofInt_negSucc_eq_not_ofNat, BitVec.getLsbD_not, BitVec.getLsbD_ofNat,
        decide_eq_true inside]
      rfl
  refine BitVec.eq_of_getLsbD_eq fun position inside => ?_
  rw [bit _ inside, numbers, words, ← bit _ inside, ← bit _ inside, BitVec.ofInt_toInt,
    BitVec.ofInt_toInt]

theorem ofInt_tdiv : BitVec.ofInt width (first.toInt.tdiv second.toInt) = first.sdiv second :=
  BitVec.eq_of_toInt_eq (by rw [BitVec.toInt_sdiv, BitVec.toInt_ofInt])

theorem ofInt_tmod : BitVec.ofInt width (first.toInt.tmod second.toInt) = first.srem second := by
  rw [← BitVec.toInt_srem, BitVec.ofInt_toInt]

theorem ofInt_mul_two_pow (distance : Nat) :
    BitVec.ofInt width (first.toInt * 2 ^ distance) = first <<< distance := by
  have power : BitVec.ofInt width (2 ^ distance) = BitVec.twoPow width distance := by
    apply BitVec.eq_of_toNat_eq
    rw [BitVec.toNat_ofInt, BitVec.toNat_twoPow]
    norm_cast
  rw [BitVec.shiftLeft_eq_mul_twoPow, BitVec.ofInt_mul, BitVec.ofInt_toInt, power]

theorem ofInt_div_two_pow (distance : Nat) :
    BitVec.ofInt width (first.toInt / 2 ^ distance) = first.sshiftRight distance := by
  have shifted : first.toInt / 2 ^ distance = (first.sshiftRight distance).toInt := by
    rw [BitVec.toInt_sshiftRight, Int.shiftRight_eq_div_pow]
    norm_cast
  rw [shifted, BitVec.ofInt_toInt]

/-- The low bits of a number are those of the word that spells it. -/
theorem toNat_ofInt_mod {modulus : Nat} (divides : modulus ∣ 2 ^ width) (number : Int) :
    ((BitVec.ofInt width number).toNat % modulus : Nat) = number % modulus := by
  have unsigned : ((BitVec.ofInt width number).toNat : Int) = number % (2 ^ width : Nat) := by
    rw [BitVec.toNat_ofInt]
    exact Int.toNat_of_nonneg (Int.emod_nonneg _ (by positivity))
  rw [Int.natCast_mod, unsigned, Int.emod_emod_of_dvd _ (by exact_mod_cast divides)]

/-- An unsigned shift divides the unsigned value. -/
theorem ofInt_mod_div_two_pow (distance : Nat) :
    BitVec.ofInt width (first.toInt % 2 ^ width / 2 ^ distance) = first >>> distance := by
  have unsigned : first.toInt % 2 ^ width = first.toNat := by
    have low := toNat_ofInt_mod (dvd_refl (2 ^ width)) first.toInt
    rw [BitVec.ofInt_toInt, Nat.mod_eq_of_lt first.isLt] at low
    exact_mod_cast low.symm
  apply BitVec.eq_of_toNat_eq
  rw [unsigned, BitVec.toNat_ushiftRight, Nat.shiftRight_eq_div_pow]
  norm_cast
  rw [BitVec.ofInt_natCast, BitVec.toNat_ofNat]
  exact Nat.mod_eq_of_lt ((Nat.div_le_self _ _).trans_lt first.isLt)

end Words

namespace Const

variable {op : BinaryOp} {width : Width}

/-- On words of a width, an operator other than a shift does what it does to their numbers. -/
theorem foldWords_eq (unshifted : op.isShift = false) (left right : BitVec width.bits) :
    foldWords width.const op left right = op.evaluate? width left.toInt right.toInt := by
  have isZero : right = 0 ↔ right.toInt = 0 := by
    rw [← BitVec.toInt_inj, BitVec.ofNat_eq_ofNat, BitVec.toInt_zero]
  simp only [foldWords, BinaryOp.evaluate?, Width.wrap]
  cases op with
  | add => simp [BitVec.ofInt_add]
  | sub => simp [Int.sub_eq_add_neg, BitVec.sub_eq_add_neg, BitVec.ofInt_add, BitVec.ofInt_neg]
  | mul => simp [BitVec.ofInt_mul]
  | div => simp only [isZero, ofInt_tdiv]
  | rem => simp only [isZero, ofInt_tmod]
  | bitAnd => simp [ofInt_eq_of_bitwise and (Int.testBit_land _ _) fun _ => BitVec.getLsbD_and]
  | bitOr => simp [ofInt_eq_of_bitwise or (Int.testBit_lor _ _) fun _ => BitVec.getLsbD_or]
  | bitXor => simp [ofInt_eq_of_bitwise xor (Int.testBit_lxor _ _) fun _ => BitVec.getLsbD_xor]
  | eq => simp [← BitVec.toInt_inj, beq_eq_decide]
  | ne => simp [← BitVec.toInt_inj, bne, beq_eq_decide]
  | lt | gt => simp [BitVec.slt_eq_decide]
  | le | ge => simp [BitVec.sle_eq_decide]
  | and | or => rfl
  | shl | shr | ushr => cases unshifted

/-- Shifting a word does to its number what the operator does to it. -/
theorem shiftWord_eq
    (shifts : op.isShift = true)
    (value : BitVec width.bits)
    (distance : Int64) :
    some (width.const (shiftWord op value distance)) =
      op.evaluate? width value.toInt distance.toInt := by
  have masked : (distance.toInt % width.bits).toNat = distance.toBitVec.toNat % width.bits := by
    have divides : width.bits ∣ 2 ^ 64 := by cases width <;> norm_num [Width.bits]
    rw [← toNat_ofInt_mod divides, Int.toNat_natCast, BitVec.ofInt_int64ToInt]
  simp only [shiftWord, BinaryOp.evaluate?, masked, Width.wrap]
  cases op with
  | shl => rw [ofInt_mul_two_pow]
  | shr => rw [ofInt_div_two_pow]
  | ushr => rw [ofInt_mod_div_two_pow]
  | _ => cases shifts

end Const

/-! ## The machine -/

/--
What an integral operation of the machine leaves for its operands.  Division by zero leaves
nothing, and a shift looks at the low bits of the distance only.
-/
def Opcode.compute? : Opcode → Const → Const → Option Const
  | .iadd, .int left, .int right => some (.int (left + right))
  | .isub, .int left, .int right => some (.int (left - right))
  | .imul, .int left, .int right => some (.int (left * right))
  | .idiv, .int left, .int right => if right = 0 then none else some (.int (left / right))
  | .irem, .int left, .int right => if right = 0 then none else some (.int (left % right))
  | .iand, .int left, .int right => some (.int (left &&& right))
  | .ior, .int left, .int right => some (.int (left ||| right))
  | .ixor, .int left, .int right => some (.int (left ^^^ right))
  | .ishl, .int left, .int right =>
    some (.int (.ofBitVec (left.toBitVec <<< (right.toBitVec.toNat % 32))))
  | .ishr, .int left, .int right =>
    some (.int (.ofBitVec (left.toBitVec.sshiftRight (right.toBitVec.toNat % 32))))
  | .iushr, .int left, .int right =>
    some (.int (.ofBitVec (left.toBitVec >>> (right.toBitVec.toNat % 32))))
  | .ladd, .long left, .long right => some (.long (left + right))
  | .lsub, .long left, .long right => some (.long (left - right))
  | .lmul, .long left, .long right => some (.long (left * right))
  | .ldiv, .long left, .long right => if right = 0 then none else some (.long (left / right))
  | .lrem, .long left, .long right => if right = 0 then none else some (.long (left % right))
  | .land, .long left, .long right => some (.long (left &&& right))
  | .lor, .long left, .long right => some (.long (left ||| right))
  | .lxor, .long left, .long right => some (.long (left ^^^ right))
  | .lshl, .long left, .int right =>
    some (.long (.ofBitVec (left.toBitVec <<< (right.toBitVec.toNat % 64))))
  | .lshr, .long left, .int right =>
    some (.long (.ofBitVec (left.toBitVec.sshiftRight (right.toBitVec.toNat % 64))))
  | .lushr, .long left, .int right =>
    some (.long (.ofBitVec (left.toBitVec >>> (right.toBitVec.toNat % 64))))
  | _, _, _ => none

/-- The width of the right operand of an operator; the distance of a shift is never long. -/
def BinaryOp.rightWidth (op : BinaryOp) (left right : Width) : Width :=
  if op.isShift then .int else left.join right

section Selection

variable {op : BinaryOp} {width : Width} {opcode : Opcode}

/-- There is an operation for every operator that is neither a comparison nor a logical one. -/
theorem exists_arithmetic? (arithmetic : ¬(op.isComparison ∨ op.isShortCircuit)) :
    ∃ opcode, Emit.arithmetic? op width.kind = some opcode := by
  obtain ⟨uncompared, strict⟩ := not_or.1 arithmetic
  cases op <;> first | cases uncompared rfl | cases strict rfl | cases width <;> exact ⟨_, rfl⟩

variable (selected : Emit.arithmetic? op width.kind = some opcode)

include selected

/-- The selected operation computes what the operator folds to. -/
theorem compute?_of_unshifted
    (unshifted : op.isShift = false)
    (left right : BitVec width.bits) :
    opcode.compute? (width.const left) (width.const right) =
      Const.foldWords width.const op left right := by
  cases op with
  | div | rem =>
    cases width with
    | int => cases selected; exact if_congr Int32.toBitVec_inj.symm rfl rfl
    | long => cases selected; exact if_congr Int64.toBitVec_inj.symm rfl rfl
  | _ => cases unshifted <;> cases width <;> cases selected <;> rfl

/-- The selected operation shifts as the operator does. -/
theorem compute?_of_isShift
    (shifts : op.isShift = true)
    (value : BitVec width.bits)
    (distance : Int64) :
    opcode.compute? (width.const value) (Width.int.wrap distance.toInt) =
      some (width.const (Const.shiftWord op value distance)) := by
  have low : distance.toBitVec.toNat % width.bits =
      (BitVec.ofInt 32 distance.toInt).toNat % width.bits := by
    have divides : width.bits ∣ 2 ^ 32 := by cases width <;> norm_num [Width.bits]
    have same := toNat_ofInt_mod divides distance.toInt
    rw [← toNat_ofInt_mod (divides.trans (by norm_num : 2 ^ 32 ∣ 2 ^ 64))] at same
    rw [← BitVec.ofInt_int64ToInt]
    exact_mod_cast same.symm
  simp only [Const.shiftWord, low]
  cases op with
  | shl | shr | ushr => cases width <;> cases selected <;> rfl
  | _ => cases shifts

end Selection

namespace Integral

variable (op : BinaryOp) {left right : Integral} {width : Width}

/-- Arithmetic on integral constants is arithmetic on words with the same numbers. -/
theorem exists_foldWords (joined : left.width.join right.width = width) :
    ∃ first second : BitVec width.bits,
      first.toInt = left.number ∧ second.toInt = right.number ∧
      Const.foldNumeric op left.const right.const =
        Const.foldWords width.const op first second := by
  have kind := joined ▸ left.width.promote_numeric right.width
  cases width with
  | int =>
    have ⟨leftWidth, rightWidth⟩ : left.width = .int ∧ right.width = .int := by
      cases left <;> cases right <;> first | exact ⟨rfl, rfl⟩ | cases joined
    obtain ⟨first, isFirst, leftNumber⟩ := left.exists_switchKey? leftWidth
    obtain ⟨second, isSecond, rightNumber⟩ := right.exists_switchKey? rightWidth
    refine ⟨first.toBitVec, second.toBitVec, leftNumber, rightNumber, ?_⟩
    simp only [Const.foldNumeric, ofConst?_const, isFirst, isSecond, Option.bind_some,
      Option.bind_eq_bind, kind]
    rfl
  | long =>
    obtain ⟨first, isFirst, leftNumber⟩ := left.exists_long?
    obtain ⟨second, isSecond, rightNumber⟩ := right.exists_long?
    refine ⟨first.toBitVec, second.toBitVec, leftNumber, rightNumber, ?_⟩
    simp only [Const.foldNumeric, ofConst?_const, isFirst, isSecond, Option.bind_some,
      Option.bind_eq_bind, kind]
    rfl

/-- Shifting an integral constant shifts a word with the same number. -/
theorem exists_shiftWord (own : left.width = width) (right : Integral) :
    ∃ (value : BitVec width.bits) (distance : Int64),
      value.toInt = left.number ∧ distance.toInt = right.number ∧
      Const.foldShift op left.const right.const =
        some (width.const (Const.shiftWord op value distance)) := by
  obtain ⟨distance, isDistance, rightNumber⟩ := right.exists_long?
  have kind := own ▸ left.ofConst?_const
  cases width with
  | int =>
    obtain ⟨value, isValue, leftNumber⟩ := left.exists_switchKey? own
    refine ⟨value.toBitVec, distance, leftNumber, rightNumber, ?_⟩
    rw [Const.foldShift, isDistance, kind, isValue]
    rfl
  | long =>
    obtain ⟨value, isValue, leftNumber⟩ := left.exists_long?
    refine ⟨value.toBitVec, distance, leftNumber, rightNumber, ?_⟩
    rw [Const.foldShift, isDistance, kind, isValue]
    rfl

/-- A unary operator on an integral constant is applied to a word with the same number. -/
theorem exists_foldUnary (constant : Integral) (own : constant.width = width) :
    ∃ word : BitVec width.bits,
      word.toInt = constant.number ∧
      Const.foldUnary .plus constant.const = some (width.const word) ∧
      Const.foldUnary .neg constant.const = some (width.const (-word)) ∧
      Const.foldUnary .bitNot constant.const = some (width.const (~~~word)) := by
  have kind := own ▸ constant.ofConst?_const
  cases width with
  | int =>
    obtain ⟨value, isValue, number⟩ := constant.exists_switchKey? own
    refine ⟨value.toBitVec, number, ?_⟩
    rw [Const.foldUnary, Const.foldUnary, Const.foldUnary, kind, isValue]
    exact ⟨rfl, rfl, rfl⟩
  | long =>
    cases constant with
    | long value => exact ⟨value.toBitVec, rfl, rfl, rfl, rfl⟩
    | _ => cases own

/-- Folding a unary operator on an integral constant. -/
theorem foldUnary_eq (op : UnaryOp) (constant : Integral) :
    Const.foldUnary op constant.const = op.evaluate? constant.width constant.number := by
  obtain ⟨word, number, plus, neg, bitNot⟩ := constant.exists_foldUnary rfl
  simp only [UnaryOp.evaluate?, ← number, Width.wrap]
  cases op with
  | plus => rw [plus, BitVec.ofInt_toInt]
  | neg => rw [neg, BitVec.ofInt_neg, BitVec.ofInt_toInt]
  | not => cases constant <;> rfl
  | bitNot =>
    rw [bitNot, Int.sub_eq_add_neg, BitVec.ofInt_add, BitVec.ofInt_neg, BitVec.ofInt_neg,
      BitVec.ofInt_toInt, BitVec.neg_eq_not_add]
    simp

/-- Folding a binary operator, as arithmetic on numbers and as an operation of the machine. -/
theorem foldBinary_eq
    (op : BinaryOp) (left right : Integral)
    (own : op.width left.width right.width = width) :
    Const.foldBinary op left.const right.const =
        op.evaluate? width left.number right.number ∧
      ∀ opcode, Emit.arithmetic? op width.kind = some opcode →
        opcode.compute? (width.wrap left.number)
            ((op.rightWidth left.width right.width).wrap right.number) =
          Const.foldBinary op left.const right.const := by
  have folds : Const.foldBinary op left.const right.const =
      if op.isShift then Const.foldShift op left.const right.const
      else Const.foldNumeric op left.const right.const := by
    cases left <;> cases right <;> simp [Const.foldBinary, const, Const.string?, Const.bool?]
  rw [folds, BinaryOp.rightWidth]
  rw [BinaryOp.width] at own
  cases shifts : op.isShift with
  | true =>
    rw [shifts, if_pos rfl] at own
    obtain ⟨value, distance, leftNumber, rightNumber, folded⟩ := exists_shiftWord op own right
    rw [if_pos rfl, if_pos rfl, folded, ← leftNumber, ← rightNumber, Const.shiftWord_eq shifts]
    refine ⟨rfl, fun opcode selected => ?_⟩
    rw [← Const.shiftWord_eq shifts, Width.wrap, BitVec.ofInt_toInt,
      compute?_of_isShift selected shifts]
  | false =>
    rw [shifts, if_neg Bool.false_ne_true] at own
    obtain ⟨first, second, leftNumber, rightNumber, folded⟩ := exists_foldWords op own
    rw [if_neg Bool.false_ne_true, if_neg Bool.false_ne_true, folded, own, ← leftNumber,
      ← rightNumber]
    refine ⟨Const.foldWords_eq shifts first second, fun opcode selected => ?_⟩
    rw [Width.wrap, Width.wrap, BitVec.ofInt_toInt, BitVec.ofInt_toInt,
      compute?_of_unshifted selected shifts]

/--
Folding integers is arithmetic in two's complement, in the width of the operator; only
division by zero and the logical operators do not fold.  The operation of the machine for an
arithmetic operator computes what it folds to.
-/
theorem fold_wraps (left right : Integral) :
    (∀ op, Const.foldBinary op left.const right.const =
      op.evaluate? (op.width left.width right.width) left.number right.number) ∧
    (∀ op, Const.foldBinary op left.const right.const = none ↔
      (op = .div ∨ op = .rem) ∧ right.number = 0 ∨ op = .and ∨ op = .or) ∧
    (∀ op, (op.isComparison ∨ op.isShortCircuit) ∨
      ∃ opcode, Emit.arithmetic? op (op.width left.width right.width).kind = some opcode ∧
        opcode.compute? ((op.width left.width right.width).wrap left.number)
            ((op.rightWidth left.width right.width).wrap right.number) =
          Const.foldBinary op left.const right.const) ∧
    ∀ op, Const.foldUnary op left.const = op.evaluate? left.width left.number := by
  refine ⟨fun op => (foldBinary_eq op left right rfl).1, fun op => ?_,
    fun op => Classical.or_iff_not_imp_left.2 fun arithmetic => ?_, fun op => foldUnary_eq op left⟩
  · rw [(foldBinary_eq op left right rfl).1]
    cases op <;> simp [BinaryOp.evaluate?]
  · obtain ⟨opcode, selected⟩ := exists_arithmetic? arithmetic
    exact ⟨opcode, selected, (foldBinary_eq op left right rfl).2 opcode selected⟩

example : Const.foldBinary .div (.int (-2147483648)) (.int (-1)) = some (.int (-2147483648)) := rfl

end Integral

end StackCode
