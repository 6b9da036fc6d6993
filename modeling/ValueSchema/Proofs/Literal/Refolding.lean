/-
# Operators on their own results

What an operator on big integers computes is written in decimal, and so it can be read again as an
operand of the next one: `Literal.readable_fold_iff`.  There is one exception, the least integer of
128 bits.  It can be computed, but its text is refused, since the digits behind a minus sign are
read first and do not fit on their own.
-/
import ValueSchema.Proofs.Literal.Integer
import ValueSchema.Proofs.Literal.Numeral

namespace ValueSchema

namespace Integer

variable {n : ℤ} {text : String}

/-- The decimal text of an integer of 128 bits can be read if it is not that of the least one. -/
lemma isSome_read?_write_iff (h : Number.fitsWide n = true) :
    (read? (write n)).isSome = true ↔ write n ≠ write (-2 ^ 127) := by
  have hleast : read? (write (-2 ^ 127)) = none := by
    rw [read?_write (Number.fitsWide_iff.2 (by omega)), if_pos rfl]
  by_cases hn : n = -2 ^ 127
  · rw [hn, hleast]
    simp
  · have hread : read? (write n) = some n := by rw [read?_write h, if_neg hn]
    refine iff_of_true (by rw [hread]; rfl) fun heq => ?_
    rw [heq, hleast] at hread
    cases hread

/-- A text that can be read is not the decimal text of the least integer. -/
lemma isSome_iff_of_isSome (h : (read? text).isSome = true) :
    (read? text).isSome = true ↔ text ≠ write (-2 ^ 127) := by
  refine iff_of_true h ?_
  rintro rfl
  exact (isSome_read?_write_iff (Number.fitsWide_iff.2 (by omega))).1 h rfl

end Integer

namespace Literal

variable {x y text : String} {a b n : ℤ} {op : BinaryOperator}

/-- A value that is computed fits into 128 bits. -/
lemma fitsWide_of_foldIntegers (ha : Number.fitsWide a = true) (hb : Number.fitsWide b = true)
    (h : foldIntegers op a b = some n) : Number.fitsWide n = true := by
  cases op with
  | add | subtract | multiply => exact Number.fitsWide_of_wide? h
  | divide =>
    rw [foldIntegers, Number.divide?] at h
    split at h
    · cases h
    · exact Number.fitsWide_of_wide? h
  | remainder => exact Number.fitsWide_of_modulo? hb h
  | exponent => exact Number.fitsWide_of_power? h
  | bitwiseAnd | bitwiseOr | bitwiseXor =>
    obtain rfl := Option.some.inj h
    exact Number.fitsWide_bitwise ..
  | leftShift =>
    rw [foldIntegers, Number.shiftLeft?_eq ha hb] at h
    split at h
    · cases h
    · exact Number.fitsWide_of_wide? h
  | rightShift =>
    rw [foldIntegers, Number.shiftRight?_eq ha hb] at h
    split at h
    · cases h
    · exact Number.fitsWide_of_wide? h
  | _ => cases h

lemma fitsWide_of_foldUnaryInteger {op : UnaryOperator} {fixity : Fixity}
    (ha : Number.fitsWide a = true) (h : foldUnaryInteger op fixity a = some n) :
    Number.fitsWide n = true := by
  rw [foldUnaryInteger.eq_def] at h
  split at h
  · exact Number.fitsWide_of_wide? h
  · obtain rfl := Option.some.inj h
    rw [Number.fitsWide_iff] at ha ⊢
    omega
  · exact Number.fitsWide_of_wide? h
  · exact Number.fitsWide_of_wide? h
  · exact Option.some.inj h ▸ ha
  · exact Option.some.inj h ▸ ha
  · cases h

/-- A big integer that comes out of a binary operator is an operand, or it is written in decimal and
fits into 128 bits. -/
lemma exists_write_of_foldBinary (h : foldBinary op (bigint x) (bigint y) = some (bigint text)) :
    text = x ∨ text = y ∨ ∃ n, Number.fitsWide n = true ∧ text = Integer.write n := by
  have harithmetic : foldArithmetic op (bigint x) (bigint y) = some (bigint text) →
      ∃ n, Number.fitsWide n = true ∧ text = Integer.write n := by
    intro h
    obtain ⟨a, ha, h⟩ := Option.bind_eq_some_iff.1 h
    obtain ⟨b, hb, h⟩ := Option.bind_eq_some_iff.1 h
    obtain ⟨n, hn, h⟩ := Option.bind_eq_some_iff.1 h
    cases h
    exact ⟨n, fitsWide_of_foldIntegers (Integer.fitsWide_of_read? ha) (Integer.fitsWide_of_read? hb)
      hn, rfl⟩
  cases op with
  | logicalAnd =>
    rw [foldBinary] at h
    split at h <;> cases h
    · exact Or.inr (Or.inl rfl)
    · exact Or.inl rfl
  | logicalOr =>
    rw [foldBinary] at h
    split at h <;> cases h
    · exact Or.inl rfl
    · exact Or.inr (Or.inl rfl)
  | nullishCoalescing =>
    cases h
    exact Or.inl rfl
  | comma =>
    cases h
    exact Or.inr (Or.inl rfl)
  | add | subtract | multiply | divide | remainder | exponent | bitwiseAnd | bitwiseOr | bitwiseXor
  | leftShift | rightShift | unsignedRightShift => exact Or.inr (Or.inr (harithmetic h))
  | lessThan | greaterThan | lessThanEquals | greaterThanEquals =>
    rw [foldBinary, foldOrder] at h
    obtain ⟨_, -, h⟩ := Option.map_eq_some_iff.1 h
    cases h
  | _ => cases h

/-- A big integer that comes out of a unary operator is written in decimal and fits into 128
bits. -/
lemma exists_write_of_foldUnary {op : UnaryOperator} {fixity : Fixity}
    (h : foldUnary op fixity (bigint x) = some (bigint text)) :
    ∃ n, Number.fitsWide n = true ∧ text = Integer.write n := by
  obtain ⟨a, ha, h⟩ := Option.bind_eq_some_iff.1 h
  have hinteger : (foldUnaryInteger op fixity a).map (fun m => bigint (Integer.write m)) =
      some (bigint text) → ∃ n, Number.fitsWide n = true ∧ text = Integer.write n := by
    intro h
    obtain ⟨n, hn, h⟩ := Option.map_eq_some_iff.1 h
    cases h
    exact ⟨n, fitsWide_of_foldUnaryInteger (Integer.fitsWide_of_read? ha) hn, rfl⟩
  cases op with
  | exclamation | typeOf | void => cases h
  | _ => exact hinteger h

/-- An integer of 128 bits is read back from its decimal text, which is canonical, unless it is the
least one, whose text cannot be read.  So a big integer that comes out of an operator can be an
operand of the next one if it is not the least integer. -/
theorem readable_fold_iff (hlow : -2 ^ 127 ≤ n) (hhigh : n < 2 ^ 127) :
    Integer.read? (toString n) = (if n = -2 ^ 127 then none else some n) ∧
      Integer.normalize (toString n) = toString n ∧
      (∀ op x y text, (Integer.read? x).isSome = true → (Integer.read? y).isSome = true →
        foldBinary op (bigint x) (bigint y) = some (bigint text) →
        ((Integer.read? text).isSome = true ↔ text ≠ toString (-2 ^ 127 : ℤ))) ∧
      ∀ op fixity x text, foldUnary op fixity (bigint x) = some (bigint text) →
        ((Integer.read? text).isSome = true ↔ text ≠ toString (-2 ^ 127 : ℤ)) := by
  have hfits := Number.fitsWide_iff.2 ⟨hlow, hhigh⟩
  simp only [← Integer.write_eq_toString]
  refine ⟨Integer.read?_write hfits, Integer.normalize_write hfits,
    fun op x y text hx hy h => ?_, fun op fixity x text h => ?_⟩
  · obtain rfl | rfl | ⟨m, hm, rfl⟩ := exists_write_of_foldBinary h
    · exact Integer.isSome_iff_of_isSome hx
    · exact Integer.isSome_iff_of_isSome hy
    · exact Integer.isSome_read?_write_iff hm
  · obtain ⟨m, hm, rfl⟩ := exists_write_of_foldUnary h
    exact Integer.isSome_read?_write_iff hm

/-- `-1n << 127n` is the least integer, and nothing can be computed from it; `~5n` is minus six,
which can be an operand again. -/
theorem readable_fold_iff_leastInteger :
    foldBinary .leftShift (bigint "-1") (bigint "127") =
        some (bigint "-170141183460469231731687303715884105728") ∧
      Integer.read? "-170141183460469231731687303715884105728" = none ∧
      foldUnary .tilde .before (bigint "5") = some (bigint "-6") ∧
      (Integer.read? "-6").isSome = true := by
  obtain ⟨hnone, -, -, hunary⟩ := readable_fold_iff (Int.le_refl (-2 ^ 127)) (by decide)
  have hone : Integer.read? "-1" = some (-1) := by decide +kernel
  have hcount : Integer.read? "127" = some 127 := by decide +kernel
  have hfive : Integer.read? "5" = some 5 := by decide +kernel
  have hvalue : foldIntegers .leftShift (-1) 127 = some (-2 ^ 127) := by decide +kernel
  have hshift : foldBinary .leftShift (bigint "-1") (bigint "127") =
      some (bigint "-170141183460469231731687303715884105728") := by
    rw [foldBinary_bigint_eq hone hcount (by decide), hvalue]
    rfl
  have htilde : foldUnary .tilde .before (bigint "5") = some (bigint "-6") := by
    rw [foldUnary.eq_def]
    dsimp only
    rw [hfive]
    rfl
  rw [if_pos rfl] at hnone
  exact ⟨hshift, hnone, htilde, (hunary _ _ _ _ htilde).2 (by decide)⟩

end Literal

end ValueSchema
