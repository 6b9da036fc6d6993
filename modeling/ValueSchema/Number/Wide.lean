/-
# Integers of 128 bits

Integers are computed exactly and kept only if they fit into 128 signed bits.  An operation whose
exact result does not fit has no result.  The one operation that does not look whether its result
fits is `negate`.
-/

namespace ValueSchema.Number

/-- Whether an integer fits into 128 signed bits. -/
def fitsWide (n : Int) : Bool := -Int.pow 2 127 ≤ n && n < Int.pow 2 127

/-- The integer itself, if it fits. -/
def wide? (n : Int) : Option Int := if fitsWide n then some n else none

theorem wide?_eq_some {n m : Int} : wide? n = some m ↔ fitsWide n = true ∧ n = m := by
  simp only [wide?]
  split <;> simp_all

theorem wide?_eq_none {n : Int} : wide? n = none ↔ fitsWide n = false := by
  simp only [wide?]
  split <;> simp_all

/-- Division toward zero. -/
def divide? (a b : Int) : Option Int := if b = 0 then none else wide? (a.tdiv b)

/-- The remainder of a division toward zero, with the sign of the dividend.  It exists where the
quotient does. -/
def modulo? (a b : Int) : Option Int := (divide? a b).map fun _ => a.tmod b

/-- A power with an exponent of at most thirty-two bits. -/
def power? (a b : Int) : Option Int :=
  if b < 0 ∨ Int.pow 2 32 ≤ b then none
  else if a.natAbs ≤ 1 then some (if b = 0 then 1 else if b % 2 = 0 then a * a else a)
  else if 127 < b then none
  else wide? (a.pow b.toNat)

/-- A bitwise operation on two's complement numbers of 128 bits. -/
def bitwise (f : BitVec 128 → BitVec 128 → BitVec 128) (a b : Int) : Int :=
  (f (.ofInt 128 a) (.ofInt 128 b)).toInt

/-- The negative as a two's complement number of 128 bits.  The least integer is its own negative. -/
def negate (n : Int) : Int := (-BitVec.ofInt 128 n).toInt

/-- `a` times `2 ^ count`.  Shifting everything out is possible for zero only. -/
def shiftUp? (a : Int) (count : Nat) : Option Int :=
  if 128 ≤ count then (if a = 0 then some 0 else none) else wide? (a * Int.pow 2 count)

/-- `a` divided by `2 ^ count`, toward minus infinity. -/
def shiftDown (a : Int) (count : Nat) : Int := a.fdiv (Int.pow 2 (min count 127))

/-- Shifts to the left; a negative count shifts to the right. -/
def shiftLeft? (a b : Int) : Option Int :=
  if 0 ≤ b then shiftUp? a b.toNat
  else (wide? (-b)).map fun count => shiftDown a count.toNat

/-- Shifts to the right; a negative count shifts to the left. -/
def shiftRight? (a b : Int) : Option Int :=
  if 0 ≤ b then some (shiftDown a b.toNat)
  else (wide? (-b)).bind fun count => shiftUp? a count.toNat

end ValueSchema.Number
