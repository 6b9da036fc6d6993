/-
# Decimal texts of doubles

A double is written with the fewest decimal digits that read back as the same double; among
decimals of that length the nearest one is taken, and the larger of two that are equally near.
This file finds those digits in exact integer arithmetic, lays them out, and reads decimals back.

A layout is chosen by the caller: `toText` is the form of a number converted to a string, which
switches to an exponent for very large and very small numbers; `toPlain` never does.
-/
import ValueSchema.Number.Binary

namespace ValueSchema.Number

/-- The decimal `digits · 10 ^ exponent`. -/
structure Decimal where
  /-- All digits, as one natural number. -/
  digits : Nat
  /-- The power of ten of the last digit. -/
  exponent : Int
deriving DecidableEq, Repr

/-- The decimal digits of a number. -/
def digitsOf (n : Nat) : List Char := Nat.toDigits 10 n

/-- The largest `e` with `10 ^ e ≤ num / den`, for positive numbers. -/
def log10 (num den : Nat) : Int :=
  if den ≤ num then (digitsOf (num / den)).length - 1
  else
    let k := (digitsOf (den / num)).length
    if num * Nat.pow 10 (k - 1) = den then -((k - 1 : Nat) : Int) else -(k : Int)

/-- The numbers that round to one double, as fractions over a common denominator. -/
structure Interval where
  /-- The lower end. -/
  low : Nat
  /-- The double itself. -/
  value : Nat
  /-- The upper end. -/
  high : Nat
  /-- The denominator of all three. -/
  den : Nat
  /-- Whether the ends themselves belong to it. -/
  closed : Bool

/-- The interval around `m · 2 ^ q`.  Its lower half is only half as long below a power of two,
where the doubles lie twice as dense.  A number halfway between two doubles goes to the one with the
even significand. -/
def interval (m : Nat) (q : Int) : Interval :=
  let below := if m = Nat.pow 2 52 ∧ leastExponent < q then 1 else 2
  let up := Nat.pow 2 (q - 2).toNat
  { low := (4 * m - below) * up
    value := 4 * m * up
    high := (4 * m + 2) * up
    den := Nat.pow 2 (2 - q).toNat
    closed := m % 2 == 0 }

/-- The point of the grid of multiples of `10 ^ e` to write an interval by, if the interval holds
one of the two neighbours of its value on that grid. -/
def Interval.onGrid? (i : Interval) (e : Int) : Option Nat :=
  let scale := Nat.pow 10 (-e).toNat
  let den := i.den * Nat.pow 10 e.toNat
  let down := i.value * scale / den
  let rest := i.value * scale % den
  let above (n : Nat) := i.low * scale < n * den || (i.closed && i.low * scale == n * den)
  let below (n : Nat) := n * den < i.high * scale || (i.closed && n * den == i.high * scale)
  match down ≠ 0 && above down, below (down + 1) with
  | true, true => if den ≤ 2 * rest then some (down + 1) else some down
  | true, false => some down
  | false, true => some (down + 1)
  | false, false => none

/-- Removes the zeros at the end of the digits. -/
def Decimal.strip (fuel : Nat) (d : Decimal) : Decimal :=
  match fuel with
  | 0 => d
  | fuel + 1 =>
    if d.digits % 10 = 0 then Decimal.strip fuel ⟨d.digits / 10, d.exponent + 1⟩ else d

/-- The shortest decimal of the positive double `m · 2 ^ q`: the coarsest grid that hits its
interval, of at most seventeen digits. -/
def shortest (m : Nat) (q : Int) : Decimal :=
  let i := interval m q
  let top := log10 i.value i.den
  let grids := (List.range 17).map fun (k : Nat) => top - (k : Int)
  match grids.findSome? fun e => (i.onGrid? e).map fun n => (⟨n, e⟩ : Decimal) with
  | some d => d.strip 17
  | none => ⟨m, q⟩

/-- `n` zeros. -/
def zeros (n : Nat) : List Char := List.replicate n '0'

/-- Digits with a decimal point and without an exponent. -/
def Decimal.plain (d : Decimal) : List Char :=
  let digits := digitsOf d.digits
  let point : Int := digits.length + d.exponent
  if 0 ≤ d.exponent then digits ++ zeros d.exponent.toNat
  else if 0 < point then digits.take point.toNat ++ '.' :: digits.drop point.toNat
  else '0' :: '.' :: zeros (-point).toNat ++ digits

/-- Digits with an exponent: one digit before the point, and the sign of the exponent written. -/
def Decimal.scientific (d : Decimal) : List Char :=
  let digits := digitsOf d.digits
  let e : Int := digits.length + d.exponent - 1
  let mark := 'e' :: (if e < 0 then '-' else '+') :: digitsOf e.natAbs
  match digits with
  | [] => mark
  | [c] => c :: mark
  | c :: rest => c :: '.' :: rest ++ mark

/-- The layout of a number converted to a string: positional when the point falls from six places
before the digits to the twenty-first place. -/
def Decimal.text (d : Decimal) : List Char :=
  let point : Int := (digitsOf d.digits).length + d.exponent
  if -6 < point ∧ point ≤ 21 then d.plain else d.scientific

/-- A sign in front of the layout of a positive number. -/
def signed (negative : Bool) (text : List Char) : String :=
  String.ofList (if negative then '-' :: text else text)

/-- A number converted to a string.  Both zeros are `0`. -/
def toText (x : Float) : String :=
  match view x with
  | .nan => "NaN"
  | .infinite negative => signed negative "Infinity".toList
  | .finite negative m q => if m = 0 then "0" else signed negative (shortest m q).text

/-- A number without an exponent, whatever its size.  The negative zero keeps its sign. -/
def toPlain (x : Float) : String :=
  match view x with
  | .nan => "NaN"
  | .infinite negative => signed negative "inf".toList
  | .finite negative m q => signed negative (if m = 0 then ['0'] else (shortest m q).plain)

/-! ## Reading -/

/-- The value of a list of decimal digits. -/
def valueOf (digits : List Char) : Nat :=
  digits.foldl (fun n c => 10 * n + (c.toNat - '0'.toNat)) 0

/-- The double nearest to `digits · 10 ^ exponent`.  Exponents far out of the range of doubles are
settled by the number of digits alone. -/
def Decimal.toFloat (d : Decimal) : Float :=
  if d.digits = 0 then 0
  else
    let top := (digitsOf d.digits).length + d.exponent
    if 400 < top then infinity
    else if top < -400 then 0
    else Float.ofScientific d.digits (d.exponent < 0) d.exponent.natAbs

/-- Splits an optional sign off a text; `true` for a minus. -/
def splitSign : List Char → Bool × List Char
  | '-' :: rest => (true, rest)
  | '+' :: rest => (false, rest)
  | text => (false, text)

/-- Reads the part of a decimal after its digits: nothing, or an exponent. -/
def readExponent? : List Char → Option Int
  | [] => some 0
  | c :: rest =>
    if c = 'e' ∨ c = 'E' then
      let (negative, digits) := splitSign rest
      if digits ≠ [] ∧ digits.all Char.isDigit then
        let n : Int := valueOf digits
        some (if negative then -n else n)
      else none
    else none

/-- Reads an unsigned decimal: digits with at most one point among or around them, at least one
digit, and an optional exponent. -/
def readDecimal? (text : List Char) : Option Decimal :=
  let whole := text.takeWhile Char.isDigit
  let rest := text.dropWhile Char.isDigit
  let (fraction, rest) := match rest with
    | '.' :: more => (more.takeWhile Char.isDigit, more.dropWhile Char.isDigit)
    | _ => ([], rest)
  if whole = [] ∧ fraction = [] then none
  else (readExponent? rest).map fun e => ⟨valueOf (whole ++ fraction), e - fraction.length⟩

/-- Reads a decimal with an optional sign. -/
def readFloat? (text : List Char) : Option Float :=
  let (negative, digits) := splitSign text
  (readDecimal? digits).map fun d => if negative then -d.toFloat else d.toFloat

end ValueSchema.Number
