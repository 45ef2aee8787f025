import StackCode.Text.Unseen

/-!
# Quoted text

Between quotes, the quote and the backslash are preceded by a backslash, the
common control characters are written by a letter after a backslash, and every
other unseen character is written by its code point.
-/

namespace StackCode
namespace Text

/-- The lower-case hexadecimal digits of a number, without leading zeros. -/
def hexDigits (number : Nat) : List Char := Nat.toDigits 16 number

/-- The hexadecimal digits of a number, filled up with zeros to four places. -/
def hexFour (number : Nat) : List Char :=
  let digits := hexDigits number
  List.replicate (4 - digits.length) '0' ++ digits

/-- How one character stands inside a quoted text. -/
def quoteChar (char : Char) : List Char :=
  match char with
  | '\x00' => ['\\', '0']
  | '\t' => ['\\', 't']
  | '\r' => ['\\', 'r']
  | '\n' => ['\\', 'n']
  | '\\' => ['\\', '\\']
  | '\x22' => ['\\', '\x22']
  | _ =>
    if isUnseen char then ['\\', 'u', '\x7b'] ++ hexDigits char.toNat ++ ['\x7d']
    else [char]

/-- A text between quotes. -/
def quoted (text : String) : String :=
  String.ofList ('\x22' :: text.toList.flatMap quoteChar ++ ['\x22'])

end Text
end StackCode
