/-
# Conversions of literals

How a literal becomes a number or a truth value, and how a text is read as a number.
-/
import ValueSchema.Literal.Basic
import ValueSchema.Literal.Integer
import ValueSchema.Text.Blank

namespace ValueSchema.Literal

/-- Reads the digits after `0x`, `0o` or `0b`.  The value is gathered digit by digit in doubles,
so a long number is rounded at every step. -/
def numberOfDigits (base : Nat) (digits : List Char) : Float :=
  if digits ≠ [] ∧ digits.all fun c => Integer.digitValue c < base then
    digits.foldl (fun x c => x * Number.ofInteger base + Number.ofInteger (Integer.digitValue c)) 0
  else Number.nan

/-- Whether a character can stand in a decimal number. -/
def isDecimalChar (c : Char) : Bool :=
  c.isDigit || c == '.' || c == 'e' || c == 'E' || c == '+' || c == '-'

/-- Reads a text without blanks around it as a number. -/
def numberOfTrimmed : List Char → Float
  | [] => 0
  | '0' :: 'x' :: digits => numberOfDigits 16 digits
  | '0' :: 'X' :: digits => numberOfDigits 16 digits
  | '0' :: 'o' :: digits => numberOfDigits 8 digits
  | '0' :: 'O' :: digits => numberOfDigits 8 digits
  | '0' :: 'b' :: digits => numberOfDigits 2 digits
  | '0' :: 'B' :: digits => numberOfDigits 2 digits
  | text =>
    if text = "Infinity".toList ∨ text = "+Infinity".toList then Number.infinity
    else if text = "-Infinity".toList then -Number.infinity
    else if text.all isDecimalChar then (Number.readFloat? text).getD Number.nan
    else Number.nan

/-- Reads a text as a number.  Blanks around it do not count, and nothing but blanks is zero. -/
def numberOfText (text : String) : Float := numberOfTrimmed (Text.trimBlanks text.toList)

/-- A literal converted to a number.  A big integer cannot be converted. -/
def toNumber? : Literal → Option Float
  | string s => some (numberOfText s)
  | number x => some x
  | bigint _ => none
  | boolean true => some 1
  | boolean false => some 0
  | null => some 0
  | undefined => some Number.nan

/-- Whether a literal counts as true.  A big integer that cannot be read does. -/
def isTruthy : Literal → Bool
  | string s => s != ""
  | number x => x != 0 && !x.isNaN
  | bigint digits => Integer.read? digits != some 0
  | boolean b => b
  | null | undefined => false

end ValueSchema.Literal
