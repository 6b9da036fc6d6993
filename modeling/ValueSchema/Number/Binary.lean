/-
# Doubles as scaled integers

A finite double is `± m · 2 ^ q` for a natural number `m < 2 ^ 53`.  This file takes a double apart
into that form, puts it together again, and builds on it the operations that are exact on integers:
truncation to a thirty-two bit word and the remainder of a division.
-/

namespace ValueSchema.Number

/-- What a double stands for. -/
inductive View where
  /-- Not a number. -/
  | nan
  /-- One of the two infinities. -/
  | infinite (negative : Bool)
  /-- The number `significand · 2 ^ exponent`, negated if `negative`; zero keeps its sign. -/
  | finite (negative : Bool) (significand : Nat) (exponent : Int)
deriving DecidableEq, Repr

/-- The exponent of the least positive double. -/
def leastExponent : Int := -1074

/-- Takes a double apart. -/
def view (x : Float) : View :=
  let bits := x.toBits.toNat
  let negative := bits / Nat.pow 2 63 % 2 == 1
  let biased : Nat := bits / Nat.pow 2 52 % Nat.pow 2 11
  let fraction := bits % Nat.pow 2 52
  if biased = 2047 then
    if fraction = 0 then .infinite negative else .nan
  else if biased = 0 then .finite negative fraction leastExponent
  else .finite negative (Nat.pow 2 52 + fraction) ((biased : Int) - 1075)

/-- Whether a double is a number other than the infinities. -/
def isFinite (x : Float) : Bool :=
  match view x with
  | .finite .. => true
  | _ => false

/-- The double `± m · 2 ^ q`, for `m < 2 ^ 53` and `q` at least the least exponent. -/
def ofScaled (negative : Bool) (m : Nat) (q : Int) : Float :=
  let sign := if negative then Nat.pow 2 63 else 0
  if m = 0 then .ofBits (UInt64.ofNat sign)
  else
    -- Shift the significand up to fifty-three bits, as far as the least exponent allows.
    let shift := min (52 - Nat.log2 m) (q - leastExponent).toNat
    let m := m * Nat.pow 2 shift
    let biased := if m < Nat.pow 2 52 then 0 else (q - shift + 1075).toNat
    .ofBits (UInt64.ofNat (sign + biased * Nat.pow 2 52 + m % Nat.pow 2 52))

/-- The integer part of `m · 2 ^ q`. -/
def floorScaled (m : Nat) (q : Int) : Nat :=
  if 0 ≤ q then m * Nat.pow 2 q.toNat else m / Nat.pow 2 (-q).toNat

/-- A double cut off toward zero, modulo `2 ^ 32`; what is not a finite number gives zero. -/
def toWord (x : Float) : UInt32 :=
  match view x with
  | .finite negative m q =>
    let n : Int := floorScaled m q
    UInt32.ofNat ((if negative then -n else n) % Int.pow 2 32).toNat
  | _ => 0

/-- The same word, read as a signed number. -/
def toSignedWord (x : Float) : Int32 := (toWord x).toInt32

/-- The canonical value that is not a number. -/
def nan : Float := .ofBits 0x7ff8000000000000

/-- Positive infinity. -/
def infinity : Float := .ofBits 0x7ff0000000000000

/-- What is left of `x` after taking away whole multiples of `y`; exact, with the sign of `x`. -/
def remainder (x y : Float) : Float :=
  match view x, view y with
  | .finite negative m q, .finite _ n r =>
    if n = 0 then nan
    else
      let low := min q r
      ofScaled negative ((m * Nat.pow 2 (q - low).toNat) % (n * Nat.pow 2 (r - low).toNat)) low
  | .finite .., .infinite _ => x
  | _, _ => nan

/-- The nearest double to an integer, ties to the even significand. -/
def ofInteger (n : Int) : Float :=
  let size : Float := Float.ofScientific n.natAbs false 0
  if n < 0 then -size else size

/-- `x` to the power `y`.  A power that is not a number gives none, and neither does an infinite
power of `1` or `-1`. -/
def power (x y : Float) : Float :=
  if y.isNaN || (x.abs == 1 && y.isInf) then nan else x.pow y

end ValueSchema.Number
