/-
# Reading JSON

A reader of JSON texts.  Each part of the grammar takes a list of characters and gives a value with
the characters that follow it.  Values nest, so the readers of values carry fuel, which the length
of the text bounds, because every value takes at least one character.

An escape may name half of a character, a surrogate.  The readers take a `lone : Option Char`, which
says what a surrogate stands for that its other half does not follow: a character, or nothing, and
then it is refused.  A text whose value does not matter is read with a character there.

A number without fraction and exponent is an integer if it fits into 64 bits, signed or unsigned; it
is a double otherwise, and so is `-0`.  A double is computed from its leading digits and a power of
ten in double arithmetic, so a long number may miss the nearest double by a little.
-/
import ValueSchema.Json.Basic
import ValueSchema.Number.Decimal

namespace ValueSchema.Json

/-- Skips blanks between tokens. -/
def skipBlanks (cs : List Char) : List Char :=
  cs.dropWhile fun c => c == ' ' || c == '\n' || c == '\t' || c == '\r'

/-- The value of a hexadecimal digit. -/
def hexValue? (c : Char) : Option Nat :=
  if '0' ≤ c ∧ c ≤ '9' then some (c.toNat - '0'.toNat)
  else if 'a' ≤ c ∧ c ≤ 'f' then some (c.toNat - 'a'.toNat + 10)
  else if 'A' ≤ c ∧ c ≤ 'F' then some (c.toNat - 'A'.toNat + 10)
  else none

/-- Reads four hexadecimal digits. -/
def hexUnit? : List Char → Option (Nat × List Char)
  | a :: b :: c :: d :: rest => do
    let n := 4096 * (← hexValue? a) + 256 * (← hexValue? b) + 16 * (← hexValue? c) + (← hexValue? d)
    return (n, rest)
  | _ => none

/-- Whether a unit is the first half of a character. -/
def isHighSurrogate (unit : Nat) : Bool := 0xd800 ≤ unit && unit < 0xdc00

/-- Whether a unit is the second half of a character. -/
def isLowSurrogate (unit : Nat) : Bool := 0xdc00 ≤ unit && unit < 0xe000

/-- Reads an escaped second half of a character. -/
def lowSurrogate? : List Char → Option (Nat × List Char)
  | '\\' :: 'u' :: rest => (hexUnit? rest).filter fun r => isLowSurrogate r.1
  | _ => none

/-- Reads the part of an escape after `\u`.  Two surrogates that belong together are one character;
a surrogate alone stands for `lone`. -/
def unicodeEscape? (lone : Option Char) (cs : List Char) : Option (Char × List Char) := do
  let (unit, rest) ← hexUnit? cs
  if isHighSurrogate unit then
    match lowSurrogate? rest with
    | some (low, rest) =>
      return (Char.ofNat (0x10000 + (unit - 0xd800) * 0x400 + (low - 0xdc00)), rest)
    | none => return (← lone, rest)
  else if isLowSurrogate unit then return (← lone, rest)
  else return (Char.ofNat unit, rest)

/-- The character that a one-letter escape stands for. -/
def simpleEscape? (c : Char) : Option Char :=
  match c with
  | '"' => some '"'
  | '\\' => some '\\'
  | '/' => some '/'
  | 'b' => some '\x08'
  | 'f' => some '\x0c'
  | 'n' => some '\n'
  | 'r' => some '\r'
  | 't' => some '\t'
  | _ => none

/-- Reads a string after its opening quote.  Control characters must be escaped. -/
def stringBody? (lone : Option Char) (fuel : Nat) (cs read : List Char) :
    Option (String × List Char) :=
  match fuel with
  | 0 => none
  | fuel + 1 =>
    match cs with
    | '"' :: rest => some (String.ofList read.reverse, rest)
    | '\\' :: 'u' :: rest => do
      let (c, rest) ← unicodeEscape? lone rest
      stringBody? lone fuel rest (c :: read)
    | '\\' :: e :: rest => do stringBody? lone fuel rest ((← simpleEscape? e) :: read)
    | c :: rest => if c.toNat < 0x20 then none else stringBody? lone fuel rest (c :: read)
    | [] => none

/-- Reads the fraction of a number, if there is one: the digits after the point. -/
def fraction? : List Char → Option (List Char × List Char)
  | '.' :: rest =>
    let digits := rest.takeWhile Char.isDigit
    if digits = [] then none else some (digits, rest.dropWhile Char.isDigit)
  | cs => some ([], cs)

/-- Reads the exponent of a number, if there is one. -/
def exponent? : List Char → Option (Option Int × List Char)
  | [] => some (none, [])
  | c :: rest =>
    if c = 'e' ∨ c = 'E' then
      let (negative, rest) := Number.splitSign rest
      let digits := rest.takeWhile Char.isDigit
      if digits = [] then none
      else
        let n : Int := Number.valueOf digits
        some (some (if negative then -n else n), rest.dropWhile Char.isDigit)
    else some (none, c :: rest)

/-- Appends digits to a significand as long as it fits into 64 bits, and counts them. -/
def appendDigits (significand : Nat) : List Char → Nat × Nat
  | [] => (significand, 0)
  | c :: rest =>
    let next := 10 * significand + (c.toNat - '0'.toNat)
    if next < Nat.pow 2 64 then
      let (all, count) := appendDigits next rest
      (all, count + 1)
    else (significand, 0)

/-- A power of ten as a double. -/
def powerOfTen (n : Nat) : Float := (Number.Decimal.mk 1 n).toFloat

/-- A significand times a power of ten, in double arithmetic.  A double holds powers of ten up to
`10 ^ 308`; two of them take any significand to zero. -/
def scaled (significand : Nat) (exponent : Int) : Float :=
  let x := Number.ofInteger significand
  if significand = 0 then x
  else if 0 ≤ exponent then x * powerOfTen exponent.toNat
  else if -308 ≤ exponent then x / powerOfTen (-exponent).toNat
  else if -616 ≤ exponent then x / powerOfTen 308 / powerOfTen (-exponent - 308).toNat
  else 0

/-- A number that is not an integer of 64 bits, from its digits before and after the point and its
exponent.  Of the digits only those count that fit into 64 bits. -/
def double (whole fraction : List Char) (exponent : Int) : Float :=
  let (significand, count) := appendDigits 0 whole
  let (significand, places) := appendDigits significand fraction
  scaled significand (exponent + (whole.length - count : Nat) - places)

/-- The value of a number without fraction and exponent. -/
def ofDigits (negative : Bool) (whole : List Char) : Json :=
  let n := Number.valueOf whole
  if negative then
    if n ≠ 0 ∧ n ≤ Nat.pow 2 63 then int (-(n : Int)) else float (-(double whole [] 0))
  else if n < Nat.pow 2 64 then int n
  else float (double whole [] 0)

/-- Reads a number.  A digit zero in front stands alone. -/
def number? (cs : List Char) : Option (Json × List Char) := do
  let (negative, cs) := match cs with
    | '-' :: rest => (true, rest)
    | _ => (false, cs)
  let whole := cs.takeWhile Char.isDigit
  if whole = [] ∨ (whole.head? = some '0' ∧ whole.length ≠ 1) then none
  else
    let (fraction, rest) ← fraction? (cs.dropWhile Char.isDigit)
    let (exponent, rest) ← exponent? rest
    if fraction = [] ∧ exponent = none then return (ofDigits negative whole, rest)
    else
      let x := double whole fraction (exponent.getD 0)
      return (float (if negative then -x else x), rest)

/-- Expects a fixed word. -/
def word? (word : String) (value : Json) (cs : List Char) : Option (Json × List Char) :=
  if word.toList.isPrefixOf cs then some (value, cs.drop word.length) else none

mutual

/-- Reads a value; blanks in front of it are skipped. -/
def value? (lone : Option Char) (fuel : Nat) (cs : List Char) : Option (Json × List Char) :=
  match fuel with
  | 0 => none
  | fuel + 1 =>
    match skipBlanks cs with
    | 'n' :: rest => word? "null" null ('n' :: rest)
    | 't' :: rest => word? "true" (bool true) ('t' :: rest)
    | 'f' :: rest => word? "false" (bool false) ('f' :: rest)
    | '"' :: rest => do
      let (s, rest) ← stringBody? lone fuel rest []
      return (str s, rest)
    | '[' :: rest =>
      match skipBlanks rest with
      | ']' :: rest => some (arr [], rest)
      | _ => do
        let (items, rest) ← items? lone fuel rest []
        return (arr items, rest)
    | '\x7b' :: rest => do
      let (entries, rest) ← objectBody? lone (fun _ => lone) fuel rest
      return (obj entries, rest)
    | cs => number? cs
  termination_by structural fuel

/-- Reads the items of an array up to its closing bracket. -/
def items? (lone : Option Char) (fuel : Nat) (cs : List Char) (read : List Json) :
    Option (List Json × List Char) :=
  match fuel with
  | 0 => none
  | fuel + 1 =>
    match value? lone fuel cs with
    | none => none
    | some (item, rest) =>
      match skipBlanks rest with
      | ',' :: rest => items? lone fuel rest (item :: read)
      | ']' :: rest => some ((item :: read).reverse, rest)
      | _ => none
  termination_by structural fuel

/-- Reads an object after its opening brace. -/
def objectBody? (lone : Option Char) (under : String → Option Char) (fuel : Nat) (cs : List Char) :
    Option (List (String × Json) × List Char) :=
  match fuel with
  | 0 => none
  | fuel + 1 =>
    match skipBlanks cs with
    | '\x7d' :: rest => some ([], rest)
    | _ => entries? lone under fuel cs []
  termination_by structural fuel

/-- Reads the entries of an object up to its closing brace.  A surrogate alone in a key stands for
`lone`, and one in the value under a key for `under key`. -/
def entries? (lone : Option Char) (under : String → Option Char) (fuel : Nat) (cs : List Char)
    (read : List (String × Json)) : Option (List (String × Json) × List Char) :=
  match fuel with
  | 0 => none
  | fuel + 1 =>
    match skipBlanks cs with
    | '"' :: rest =>
      match stringBody? lone fuel rest [] with
      | none => none
      | some (key, rest) =>
        match skipBlanks rest with
        | ':' :: rest =>
          match value? (under key) fuel rest with
          | none => none
          | some (item, rest) =>
            match skipBlanks rest with
            | ',' :: rest => entries? lone under fuel rest ((key, item) :: read)
            | '\x7d' :: rest => some (((key, item) :: read).reverse, rest)
            | _ => none
        | _ => none
    | _ => none
  termination_by structural fuel

end

/-- Enough fuel for a text: at most three readers are entered for each character. -/
def fuelFor (cs : List Char) : Nat := 3 * cs.length + 3

/-- What a reader gives for a whole text; only blanks may follow. -/
def whole? {α : Type} (reader : Nat → List Char → Option (α × List Char)) (text : String) :
    Option α := do
  let (a, rest) ← reader (fuelFor text.toList) text.toList
  if skipBlanks rest = [] then return a else none

/-- Reads a whole text as one value. -/
def parse? (text : String) : Option Json := whole? (value? none) text

/-- Reads a value; if it is an object, only its entries under some keys matter, and in the values of
the others a surrogate may stand alone. -/
def valueFor? (keys : List String) (fuel : Nat) (cs : List Char) : Option (Json × List Char) :=
  match skipBlanks cs with
  | '\x7b' :: rest => do
    let under (key : String) : Option Char := if keys.contains key then none else some '\ufffd'
    let (entries, rest) ← objectBody? none under fuel rest
    return (obj entries, rest)
  | cs => value? none fuel cs

/-- Reads a whole text as one value; if it is an object, only its entries under some keys matter. -/
def parseFor? (keys : List String) (text : String) : Option Json := whole? (valueFor? keys) text

end ValueSchema.Json
