/-
# Operators on big integers are exact

The value of an arithmetic operator on two big integers is the exact one (`Integer.exactValue?`), on
integers without a bound, and it is written in decimal.  There is none if the operation fails when
run, or if the exact value does not fit into 128 bits: `Literal.foldBinary_bigint`.  For a few
operands a value that would fit is not computed either.  These are the remainder and the shifts by
the least integer, since the quotient and the negative of the count do not fit, and powers with an
exponent of more than 32 bits.
-/
import ValueSchema.Literal.Fold
import ValueSchema.Proofs.Number.Wide

namespace ValueSchema

namespace Integer

open BinaryOperator in
/-- The operators that have a value for big integers. -/
def operators : List BinaryOperator :=
  [add, subtract, multiply, divide, remainder, exponent, bitwiseAnd, bitwiseOr, bitwiseXor,
    leftShift, rightShift]

/-- The exact value of an operator on integers without a bound.  Division is toward zero, and the
remainder has the sign of the dividend.  The bits of a negative integer are those of its two's
complement, with ones before them without an end.  A shift to the left multiplies by a power of two,
rounding down if its exponent is negative, and a shift to the right is one by the negative count.
There is no value for a division by zero and for a negative exponent. -/
def exactValue? (op : BinaryOperator) (a b : ℤ) : Option ℤ :=
  match op with
  | .add => some (a + b)
  | .subtract => some (a - b)
  | .multiply => some (a * b)
  | .divide => if b = 0 then none else some (a.tdiv b)
  | .remainder => if b = 0 then none else some (a.tmod b)
  | .exponent => if b < 0 then none else some (a ^ b.toNat)
  | .bitwiseAnd => some (a.land b)
  | .bitwiseOr => some (a.lor b)
  | .bitwiseXor => some (a.xor b)
  | .leftShift => some (Number.shift a b)
  | .rightShift => some (Number.shift a (-b))
  | _ => none

variable {text : String} {a b n : ℤ} {op : BinaryOperator}

lemma fitsWide_of_readSigned? {base : ℕ} {digits : List Char}
    (h : readSigned? base digits = some n) : Number.fitsWide n = true := by
  rcases hsplit : Number.splitSign digits with ⟨negative, magnitude⟩
  rw [readSigned?, hsplit] at h
  dsimp only at h
  split at h
  · cases h
  · obtain ⟨m, -, hm⟩ := Option.bind_eq_some_iff.1 h
    exact Number.fitsWide_of_wide? hm

/-- A text that can be read stands for an integer of 128 bits. -/
lemma fitsWide_of_read? (h : read? text = some n) : Number.fitsWide n = true := by
  rw [read?] at h
  split at h
  · obtain ⟨m, -, rfl⟩ := Option.map_eq_some_iff.1 h
    exact Number.fitsWide_negate m
  · rw [readBased?.eq_def] at h
    split at h <;> exact fitsWide_of_readSigned? h

/-- The canonical text of an integer is its decimal form. -/
lemma write_eq_toString (n : ℤ) : write n = toString n := by
  cases n with
  | ofNat m => rfl
  | negSucc m =>
    have hsigned : write (.negSucc m) = String.ofList ('-' :: Nat.toDigits 10 (m + 1)) := by
      simp [write, Number.signed, Number.digitsOf]
    have hrepr : toString (Int.negSucc m) = "-" ++ String.ofList (Nat.toDigits 10 (m + 1)) := rfl
    rw [hsigned, hrepr, String.ofList_cons]
    rfl

end Integer

namespace Literal

variable {x y : String} {a b n : ℤ} {op : BinaryOperator}

/-- Operators other than the remainder and the power have their exact value whenever it fits, except
for shifts by the least integer. -/
lemma foldIntegers_eq (ha : Number.fitsWide a = true) (hb : Number.fitsWide b = true)
    (hop : op ∈ Integer.operators) (hremainder : op ≠ .remainder) (hexponent : op ≠ .exponent)
    (hshift : op = .leftShift ∨ op = .rightShift → b ≠ -2 ^ 127) :
    foldIntegers op a b = (Integer.exactValue? op a b).bind Number.wide? := by
  have hbits : ∀ {g : Bool → Bool → Bool} {m : ℤ},
      (∀ i, m.testBit i = g (a.testBit i) (b.testBit i)) → some m = Number.wide? m :=
    fun hm => (Number.wide?_eq_some.2 ⟨Number.fitsWide_of_testBit hm ha hb, rfl⟩).symm
  cases op with
  | add | subtract | multiply => rfl
  | divide =>
    rw [foldIntegers, Integer.exactValue?, Number.divide?]
    split <;> rfl
  | bitwiseAnd =>
    rw [foldIntegers, Number.bitwise_and ha hb]
    exact hbits (Int.testBit_land a b)
  | bitwiseOr =>
    rw [foldIntegers, Number.bitwise_or ha hb]
    exact hbits (Int.testBit_lor a b)
  | bitwiseXor =>
    rw [foldIntegers, Number.bitwise_xor ha hb]
    exact hbits (Int.testBit_lxor a b)
  | leftShift =>
    rw [foldIntegers, Number.shiftLeft?_eq ha hb, if_neg (hshift (Or.inl rfl))]
    rfl
  | rightShift =>
    rw [foldIntegers, Number.shiftRight?_eq ha hb, if_neg (hshift (Or.inr rfl))]
    rfl
  | remainder => exact absurd rfl hremainder
  | exponent => exact absurd rfl hexponent
  | _ => exact absurd hop (by decide)

/-- A value that is computed is the exact one. -/
lemma exactValue?_of_foldIntegers (ha : Number.fitsWide a = true) (hb : Number.fitsWide b = true)
    (hop : op ∈ Integer.operators) (h : foldIntegers op a b = some n) :
    Integer.exactValue? op a b = some n := by
  by_cases hremainder : op = .remainder
  · subst hremainder
    rw [foldIntegers, Number.modulo?, Number.divide?] at h
    obtain ⟨quotient, hquotient, rfl⟩ := Option.map_eq_some_iff.1 h
    split at hquotient
    · cases hquotient
    · rename_i hzero
      exact if_neg hzero
  · by_cases hexponent : op = .exponent
    · subst hexponent
      obtain ⟨hpos, rfl⟩ := Number.power?_eq_some h
      exact if_neg (by omega)
    · by_cases hshift : op = .leftShift ∨ op = .rightShift → b ≠ -2 ^ 127
      · rw [foldIntegers_eq ha hb hop hremainder hexponent hshift] at h
        obtain ⟨m, hm, hwide⟩ := Option.bind_eq_some_iff.1 h
        obtain ⟨-, rfl⟩ := Number.wide?_eq_some.1 hwide
        exact hm
      · -- a shift by the least integer has no value
        obtain ⟨rfl | rfl, hleast⟩ := Classical.not_imp.1 hshift
        · rw [foldIntegers, Number.shiftLeft?_eq ha hb, if_pos (not_not.1 hleast)] at h
          cases h
        · rw [foldIntegers, Number.shiftRight?_eq ha hb, if_pos (not_not.1 hleast)] at h
          cases h

lemma foldBinary_bigint_eq (hx : Integer.read? x = some a) (hy : Integer.read? y = some b)
    (hop : op ∈ Integer.operators) :
    foldBinary op (bigint x) (bigint y) =
      (foldIntegers op a b).map fun n => bigint (toString n) := by
  have harithmetic : foldBinary op (bigint x) (bigint y) =
      foldArithmetic op (bigint x) (bigint y) := by
    cases op with
    | add => rfl
    | _ => first | rfl | exact absurd hop (by decide)
  rw [harithmetic, foldArithmetic, hx, hy]
  simp only [Integer.write_eq_toString, Option.bind_eq_bind, Option.bind_some]
  cases h : foldIntegers op a b <;> rfl

/-- A value of an arithmetic operator on big integers that can be read is the decimal form of the
exact one.  If there is none, then this is a division by zero, or the exact value does not fit into
128 bits; but a remainder, a power, and a shift by the least integer may have no value either. -/
theorem foldBinary_bigint (hx : Integer.read? x = some a) (hy : Integer.read? y = some b)
    (hop : op ∈ Integer.operators) :
    (∀ value, foldBinary op (bigint x) (bigint y) = some value →
      ∃ n, Integer.exactValue? op a b = some n ∧ value = bigint (toString n)) ∧
    (op ≠ .remainder → op ≠ .exponent →
      (op = .leftShift ∨ op = .rightShift → b ≠ -2 ^ 127) →
      (foldBinary op (bigint x) (bigint y) = none ↔ (op = .divide ∧ b = 0) ∨
        ∃ n, Integer.exactValue? op a b = some n ∧ ¬(-2 ^ 127 ≤ n ∧ n < 2 ^ 127))) := by
  have ha := Integer.fitsWide_of_read? hx
  have hb := Integer.fitsWide_of_read? hy
  rw [foldBinary_bigint_eq hx hy hop]
  refine ⟨fun value hvalue => ?_, fun hremainder hexponent hshift => ?_⟩
  · obtain ⟨n, hn, rfl⟩ := Option.map_eq_some_iff.1 hvalue
    exact ⟨n, exactValue?_of_foldIntegers ha hb hop hn, rfl⟩
  · rw [Option.map_eq_none_iff, foldIntegers_eq ha hb hop hremainder hexponent hshift,
      Option.bind_eq_none_iff]
    have htotal : Integer.exactValue? op a b = none ↔ op = .divide ∧ b = 0 := by
      cases op with
      | divide => simp [Integer.exactValue?]
      | remainder => exact absurd rfl hremainder
      | exponent => exact absurd rfl hexponent
      | _ => first | exact absurd hop (by decide) | simp [Integer.exactValue?]
    constructor
    · intro hnone
      rcases hexact : Integer.exactValue? op a b with _ | n
      · exact Or.inl (htotal.1 hexact)
      · exact Or.inr ⟨n, rfl, Number.wide?_eq_none_iff.1 (hnone n hexact)⟩
    · rintro (hzero | ⟨n, hexact, hrange⟩) m hm
      · rw [htotal.2 hzero] at hm
        cases hm
      · obtain rfl := Option.some.inj (hexact.symm.trans hm)
        exact Number.wide?_eq_none_iff.2 hrange

/-- Minus one shifted up to the sign is the least integer, and the least integer divided by minus
one does not fit any more. -/
theorem foldBinary_bigint_leastInteger :
    foldBinary .leftShift (bigint "-0x1n") (bigint "127") =
        some (bigint "-170141183460469231731687303715884105728") ∧
      foldBinary .divide (bigint "0x-80000000000000000000000000000000") (bigint "-0x1n") =
        none := by
  have hone : Integer.read? "-0x1n" = some (-1) := by decide +kernel
  have hcount : Integer.read? "127" = some 127 := by decide +kernel
  have hleast : Integer.read? "0x-80000000000000000000000000000000" = some (-2 ^ 127) := by
    decide +kernel
  have hshift : Integer.exactValue? .leftShift (-1) 127 = some (-2 ^ 127) :=
    congrArg some (Number.shift_natCast (-1) 127)
  constructor
  · obtain ⟨hvalue, hnone⟩ := foldBinary_bigint hone hcount
      (show BinaryOperator.leftShift ∈ Integer.operators by decide)
    have hsome := mt (hnone (by decide) (by decide) fun _ => by decide).1 (by
      rintro (⟨hdivide, -⟩ | ⟨n, hn, hrange⟩)
      · cases hdivide
      · obtain rfl := Option.some.inj (hshift.symm.trans hn)
        exact hrange (by decide))
    obtain ⟨value, hfold⟩ := Option.ne_none_iff_exists'.1 hsome
    obtain ⟨n, hn, rfl⟩ := hvalue value hfold
    obtain rfl := Option.some.inj (hshift.symm.trans hn)
    rw [hfold]
    rfl
  · obtain ⟨-, hnone⟩ := foldBinary_bigint hleast hone
      (show BinaryOperator.divide ∈ Integer.operators by decide)
    refine (hnone (by decide) (by decide) fun h => ?_).2 (Or.inr ⟨2 ^ 127, by decide, by decide⟩)
    rcases h with h | h <;> cases h

end Literal

end ValueSchema
