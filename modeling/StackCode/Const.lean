import StackCode.Ty
import StackCode.Decimal.Layout
import StackCode.Text.Quoted

/-!
# Compile-time constants

The constants that the tree may attach to an expression, their type and run-time
kind, and the text under which listings show them.  Integers have the widths of
the machine; a `char` is one sixteen-bit code unit and need not be a character.
-/

namespace StackCode

/-- A compile-time constant. -/
inductive Const where
  | boolean (value : Bool)
  | char (unit : UInt16)
  | byte (value : Int8)
  | short (value : Int16)
  | int (value : Int32)
  | long (value : Int64)
  | float (value : Float32)
  | double (value : Float)
  | string (value : String)
  | null
  deriving Inhabited

namespace Const

/-- The truth value of a boolean constant. -/
def bool? : Const → Option Bool
  | boolean value => some value
  | _ => none

/-- The number of a constant that can select a switch section. -/
def switchKey? : Const → Option Int32
  | byte value => some value.toInt32
  | short value => some value.toInt32
  | char unit => some unit.toUInt32.toInt32
  | int value => some value
  | _ => none

/-- The text of a string constant. -/
def string? : Const → Option String
  | string value => some value
  | _ => none

/-- The constant is the null reference. -/
def isNull : Const → Bool
  | null => true
  | _ => false

/-- The kind of the value that pushing the constant leaves. -/
def kind : Const → ValueKind
  | long _ => .long
  | float _ => .float
  | double _ => .double
  | string _ => .reference
  | null => .reference
  | _ => .int

/-- The type of a literal; the null reference is typed as the root class. -/
def type : Const → Ty
  | boolean _ => .boolean
  | char _ => .prim .char
  | byte _ => .prim .byte
  | short _ => .prim .short
  | int _ => .int
  | long _ => .prim .long
  | float _ => .prim .float
  | double _ => .prim .double
  | string _ => .string
  | null => .object

/-- The character of a code unit, unless the unit is half of a surrogate pair. -/
def unitChar? (unit : UInt16) : Option Char :=
  if h : unit.toUInt32.toNat.isValidChar then some ⟨unit.toUInt32, h⟩ else none

/-- Listings name the infinities by their short name. -/
def listingNames : Decimal.SpecialNames := { nan := "NaN", infinity := "inf" }

/-- The text of a code unit in a listing; half of a surrogate pair is shown by its number. -/
def unitText (unit : UInt16) : String :=
  match unitChar? unit with
  | some character => String.ofList ['\x27', character, '\x27']
  | none => String.ofList (['\x27', '\\', 'u'] ++ Text.hexFour unit.toNat ++ ['\x27'])

/-- The text of a truth value. -/
def boolText : Bool → String
  | true => "true"
  | false => "false"

/-- The text of a constant in a listing. -/
def text : Const → String
  | boolean value => boolText value
  | char unit => unitText unit
  | byte value => toString value.toInt
  | short value => toString value.toInt
  | int value => toString value.toInt
  | long value => toString value.toInt ++ "L"
  | float value =>
    (Decimal.Shape.ofSingle value).write listingNames Decimal.positionalText ++ "f"
  | double value =>
    (Decimal.Shape.ofDouble value).write listingNames Decimal.positionalText ++ "d"
  | string value => Text.quoted value
  | null => "null"

end Const

/-- What a case of a switch is selected by. -/
inductive CaseKey where
  | int (value : Int32)
  | string (value : String)
  | default
  deriving DecidableEq, Inhabited

namespace CaseKey

/-- The key that a constant case label stands for. -/
def ofConst? : Const → Option CaseKey
  | .string value => some (.string value)
  | other => other.switchKey?.map .int

/-- The text of a key in error messages. -/
def text : CaseKey → String
  | int value => toString value.toInt
  | string value => Text.quoted value
  | default => "default"

end CaseKey

end StackCode
