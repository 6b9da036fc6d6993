/-
# Texts of big integers

A big integer is written in decimal or after `0x`, `0o` or `0b`; underscores may separate digits,
and one `n` may follow.  Reading it gives an integer of at most 128 bits, and every such integer
has one canonical text: its decimal digits.
-/
import ValueSchema.Number.Wide
import ValueSchema.Number.Decimal

namespace ValueSchema.Integer

/-- The value of a digit in bases up to sixteen, in either case. -/
def digitValue (c : Char) : Nat :=
  if c.isDigit then c.toNat - '0'.toNat
  else if 'a' ≤ c ∧ c ≤ 'f' then c.toNat - 'a'.toNat + 10
  else if 'A' ≤ c ∧ c ≤ 'F' then c.toNat - 'A'.toNat + 10
  else 16

/-- Reads digits in a base; every character must be a digit of the base. -/
def readDigits? (base : Nat) (digits : List Char) : Option Nat :=
  if digits.all fun c => digitValue c < base then
    some (digits.foldl (fun n c => base * n + digitValue c) 0)
  else none

/-- Reads an optional sign and at least one digit, as an integer of 128 bits. -/
def readSigned? (base : Nat) (text : List Char) : Option Int :=
  let (negative, digits) := Number.splitSign text
  if digits = [] then none
  else (readDigits? base digits).bind fun n => Number.wide? (if negative then -(n : Int) else n)

/-- Reads digits after an optional mark of the base. -/
def readBased? : List Char → Option Int
  | '0' :: 'x' :: digits => readSigned? 16 digits
  | '0' :: 'X' :: digits => readSigned? 16 digits
  | '0' :: 'o' :: digits => readSigned? 8 digits
  | '0' :: 'O' :: digits => readSigned? 8 digits
  | '0' :: 'b' :: digits => readSigned? 2 digits
  | '0' :: 'B' :: digits => readSigned? 2 digits
  | digits => readSigned? 10 digits

/-- A text without one `n` at its end. -/
def dropSuffix (text : List Char) : List Char :=
  if text.getLast? = some 'n' then text.dropLast else text

/-- Reads the text of a big integer.  Any number of minus signs in front makes it negative.  What
stands behind them may be the least integer, with a sign of its own behind the mark of a base, as in
`-0x-80000000000000000000000000000000`; then the negative overflows and is the least integer again.
A build that checks for overflows stops at these texts instead. -/
def read? (text : String) : Option Int :=
  let cleaned := (dropSuffix text.toList).filter (· ≠ '_')
  let value := readBased? (cleaned.dropWhile (· = '-'))
  if cleaned.head? = some '-' then value.map Number.negate else value

/-- The decimal text of an integer. -/
def write (n : Int) : String :=
  Number.signed (n < 0) (Number.digitsOf n.natAbs)

/-- The canonical text of a big integer, or the text itself without its `n` if it cannot be read. -/
def normalize (text : String) : String :=
  match read? text with
  | some n => write n
  | none => String.ofList (dropSuffix text.toList)

end ValueSchema.Integer
