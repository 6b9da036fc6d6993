/-
# Integers of 128 bits are computed exactly

An integer fits into 128 signed bits if its bits do not change any more from the last one on, which
is the sign.  So the bitwise operations of words of 128 bits are those of the integers without a
bound, and their results always fit.

A shift to the left is a multiplication by a power of two, and a shift to the right is a division,
rounded down.  In the rational numbers both are the same with a positive or a negative exponent
(`shift`), which also says what a negative count means.
-/
import Mathlib
import ValueSchema.Number.Wide

namespace ValueSchema.Number

variable {a b n : ℤ} {count : ℕ}

/-! ## The range -/

lemma fitsWide_iff : fitsWide n = true ↔ -2 ^ 127 ≤ n ∧ n < 2 ^ 127 := by
  rw [fitsWide, Bool.and_eq_true, decide_eq_true_iff, decide_eq_true_iff]
  exact Iff.rfl

lemma fitsWide_of_wide? {m : ℤ} (h : wide? n = some m) : fitsWide m = true := by
  obtain ⟨hfits, rfl⟩ := wide?_eq_some.1 h
  exact hfits

lemma wide?_eq_none_iff : wide? n = none ↔ ¬(-2 ^ 127 ≤ n ∧ n < 2 ^ 127) := by
  rw [wide?_eq_none, ← fitsWide_iff, Bool.not_eq_true]

/-- Only the least integer has no negative that fits. -/
lemma wide?_neg (h : fitsWide b = true) (hleast : b ≠ -2 ^ 127) : wide? (-b) = some (-b) := by
  rw [fitsWide_iff] at h
  exact wide?_eq_some.2 ⟨fitsWide_iff.2 (by omega), rfl⟩

/-! ## Bits -/

lemma lt_two_pow_iff_testBit {m k : ℕ} :
    m < 2 ^ k ↔ ∀ i, k ≤ i → m.testBit i = m.testBit k := by
  constructor
  · intro h i hi
    rw [Nat.testBit_lt_two_pow h,
      Nat.testBit_lt_two_pow (h.trans_le (Nat.pow_le_pow_right (by omega) hi))]
  · intro h
    -- far enough out all bits are zeros
    have hlast : m.testBit k = false := by
      rw [← h (max k m) (le_max_left ..)]
      refine Nat.testBit_lt_two_pow (Nat.lt_two_pow_self.trans_le ?_)
      exact Nat.pow_le_pow_right (by omega) (le_max_right ..)
    exact Nat.lt_pow_two_of_testBit m fun i hi => (h i hi).trans hlast

/-- An integer fits if all bits from the last one on are the sign. -/
lemma fitsWide_iff_testBit :
    fitsWide n = true ↔ ∀ i, 127 ≤ i → n.testBit i = n.testBit 127 := by
  rw [fitsWide_iff]
  cases n with
  | ofNat m =>
    have hbound : (-2 ^ 127 ≤ Int.ofNat m ∧ Int.ofNat m < 2 ^ 127) ↔ m < 2 ^ 127 := by
      rw [Int.ofNat_eq_natCast]
      omega
    exact hbound.trans lt_two_pow_iff_testBit
  | negSucc m =>
    have hbound : (-2 ^ 127 ≤ Int.negSucc m ∧ Int.negSucc m < 2 ^ 127) ↔ m < 2 ^ 127 := by
      rw [Int.negSucc_eq]
      omega
    rw [hbound, lt_two_pow_iff_testBit]
    simp only [Int.testBit, Bool.not_inj_iff]

lemma getLsbD_ofInt (n : ℤ) (i : ℕ) :
    (BitVec.ofInt 128 n).getLsbD i = (decide (i < 128) && n.testBit i) := by
  cases n with
  | ofNat m =>
    rw [Int.ofNat_eq_natCast, BitVec.ofInt_natCast, BitVec.getLsbD_ofNat]
    rfl
  | negSucc m =>
    rw [BitVec.ofInt_negSucc_eq_not_ofNat, BitVec.getLsbD_not, BitVec.getLsbD_ofNat]
    by_cases hi : i < 128 <;> simp [hi, Int.testBit]

lemma fitsWide_of_testBit {g : Bool → Bool → Bool}
    (hn : ∀ i, n.testBit i = g (a.testBit i) (b.testBit i)) (ha : fitsWide a = true)
    (hb : fitsWide b = true) : fitsWide n = true := by
  rw [fitsWide_iff_testBit] at ha hb ⊢
  intro i hi
  rw [hn, hn, ha i hi, hb i hi]

/-- An operation that goes by the bits of words goes by the bits of the integers. -/
lemma bitwise_eq {f : BitVec 128 → BitVec 128 → BitVec 128} {g : Bool → Bool → Bool}
    (hf : ∀ x y, ∀ i < 128, (f x y).getLsbD i = g (x.getLsbD i) (y.getLsbD i))
    (hn : ∀ i, n.testBit i = g (a.testBit i) (b.testBit i)) (ha : fitsWide a = true)
    (hb : fitsWide b = true) : bitwise f a b = n := by
  have hfits := fitsWide_iff.1 (fitsWide_of_testBit hn ha hb)
  have hword : f (.ofInt 128 a) (.ofInt 128 b) = .ofInt 128 n := by
    refine BitVec.eq_of_getLsbD_eq fun i hi => ?_
    rw [hf _ _ i hi, getLsbD_ofInt, getLsbD_ofInt, getLsbD_ofInt, hn, decide_eq_true hi]
    rfl
  rw [bitwise, hword, BitVec.toInt_ofInt]
  exact Int.bmod_eq_of_le (by norm_num; omega) (by norm_num; omega)

lemma bitwise_and (ha : fitsWide a = true) (hb : fitsWide b = true) :
    bitwise (· &&& ·) a b = a.land b :=
  bitwise_eq (fun _ _ _ _ => BitVec.getLsbD_and) (Int.testBit_land a b) ha hb

lemma bitwise_or (ha : fitsWide a = true) (hb : fitsWide b = true) :
    bitwise (· ||| ·) a b = a.lor b :=
  bitwise_eq (fun _ _ _ _ => BitVec.getLsbD_or) (Int.testBit_lor a b) ha hb

lemma bitwise_xor (ha : fitsWide a = true) (hb : fitsWide b = true) :
    bitwise (· ^^^ ·) a b = a.xor b :=
  bitwise_eq (fun _ _ _ _ => BitVec.getLsbD_xor) (Int.testBit_lxor a b) ha hb

/-- A word of 128 bits fits, whatever operation it comes from. -/
lemma fitsWide_bitwise (f : BitVec 128 → BitVec 128 → BitVec 128) (a b : ℤ) :
    fitsWide (bitwise f a b) = true :=
  fitsWide_iff.2 ⟨BitVec.le_toInt _, BitVec.toInt_lt⟩

/-! ## Negatives -/

/-- The negative is the exact one but for the least integer, whose negative does not fit. -/
lemma negate_eq (h : fitsWide n = true) : negate n = if n = -2 ^ 127 then n else -n := by
  have hrange := fitsWide_iff.1 h
  have hword : (BitVec.ofInt 128 n).toInt = n := by
    rw [BitVec.toInt_ofInt]
    exact Int.bmod_eq_of_le (by norm_num; omega) (by norm_num; omega)
  rw [negate, BitVec.toInt_neg, hword]
  split
  · subst n
    decide
  · exact Int.bmod_eq_of_le (by norm_num; omega) (by norm_num; omega)

lemma fitsWide_negate (n : ℤ) : fitsWide (negate n) = true :=
  fitsWide_iff.2 ⟨BitVec.le_toInt _, BitVec.toInt_lt⟩

/-! ## Shifts -/

/-- `a` times two to the power of `count`, rounded down; the count may be negative. -/
def shift (a count : ℤ) : ℤ := ⌊(a : ℚ) * 2 ^ count⌋

lemma shift_natCast (a : ℤ) (count : ℕ) : shift a count = a * 2 ^ count := by
  have hcast : (a : ℚ) * 2 ^ (count : ℤ) = ((a * 2 ^ count : ℤ) : ℚ) := by
    rw [zpow_natCast]
    norm_cast
  rw [shift, hcast, Int.floor_intCast]

lemma shift_neg_natCast (a : ℤ) (count : ℕ) : shift a (-count) = a / 2 ^ count := by
  have hcast : (a : ℚ) * 2 ^ (-count : ℤ) = (a : ℚ) / ((2 ^ count : ℕ) : ℚ) := by
    rw [zpow_neg, zpow_natCast, div_eq_mul_inv]
    norm_cast
  rw [shift, hcast, Rat.floor_intCast_div_natCast]
  norm_cast

/-- Counts from the last bit on leave the sign only. -/
lemma shiftDown_eq (ha : fitsWide a = true) (count : ℕ) :
    shiftDown a count = shift a (-count) := by
  have hdown : ∀ k : ℕ, a.fdiv (Int.pow 2 k) = a / 2 ^ k := fun k =>
    Int.fdiv_eq_ediv_of_nonneg a (by positivity : (0 : ℤ) ≤ 2 ^ k)
  rw [shiftDown, shift_neg_natCast, hdown]
  by_cases hcount : count ≤ 127
  · rw [min_eq_left hcount]
  · rw [min_eq_right (by omega)]
    rw [fitsWide_iff] at ha
    have hpow : (2 : ℤ) ^ 127 ≤ 2 ^ count := pow_le_pow_right₀ (by norm_num) (by omega)
    rcases lt_or_ge a 0 with hneg | hpos
    · rw [Int.ediv_eq_neg_one_of_neg_of_le hneg (by omega),
        Int.ediv_eq_neg_one_of_neg_of_le hneg (by omega)]
    · rw [Int.ediv_eq_zero_of_lt hpos (by omega), Int.ediv_eq_zero_of_lt hpos (by omega)]

lemma shiftUp?_eq (a : ℤ) (count : ℕ) : shiftUp? a count = wide? (shift a count) := by
  rw [shift_natCast, shiftUp?]
  split
  · rename_i hcount
    split
    · rename_i hzero
      rw [hzero, zero_mul]
      rfl
    · rename_i hzero
      have hpow : (2 : ℤ) ^ 128 ≤ 2 ^ count := pow_le_pow_right₀ (by norm_num) hcount
      rw [eq_comm, wide?_eq_none_iff]
      rintro ⟨hlow, hhigh⟩
      rcases lt_or_gt_of_ne hzero with hneg | hpos
      · nlinarith
      · nlinarith
  · rfl

lemma fitsWide_shiftDown (ha : fitsWide a = true) (count : ℕ) :
    fitsWide (shift a (-count)) = true := by
  rw [fitsWide_iff] at ha ⊢
  have hpow : (0 : ℤ) < 2 ^ count := by positivity
  rw [shift_neg_natCast]
  constructor
  · rw [Int.le_ediv_iff_mul_le hpow]
    nlinarith
  · rw [Int.ediv_lt_iff_lt_mul hpow]
    nlinarith

/-- A shift to the left is exact; there is no negative of the least integer to shift back by. -/
lemma shiftLeft?_eq (ha : fitsWide a = true) (hb : fitsWide b = true) :
    shiftLeft? a b = if b = -2 ^ 127 then none else wide? (shift a b) := by
  rw [shiftLeft?]
  split
  · rename_i hpos
    rw [if_neg (by omega), shiftUp?_eq, Int.toNat_of_nonneg hpos]
  · rename_i hneg
    split
    · rename_i hleast
      rw [hleast]
      rfl
    · rename_i hleast
      have hcount : -((-b).toNat : ℤ) = b := by omega
      rw [wide?_neg hb hleast, Option.map_some, shiftDown_eq ha, hcount, eq_comm, wide?_eq_some]
      exact ⟨hcount ▸ fitsWide_shiftDown ha _, rfl⟩

/-- A shift to the right is one to the left by the negative count. -/
lemma shiftRight?_eq (ha : fitsWide a = true) (hb : fitsWide b = true) :
    shiftRight? a b = if b = -2 ^ 127 then none else wide? (shift a (-b)) := by
  rw [shiftRight?]
  split
  · rename_i hpos
    have hcount : (b.toNat : ℤ) = b := Int.toNat_of_nonneg hpos
    rw [if_neg (by omega), shiftDown_eq ha, eq_comm, wide?_eq_some, hcount]
    exact ⟨hcount ▸ fitsWide_shiftDown ha _, rfl⟩
  · rename_i hneg
    split
    · rename_i hleast
      rw [hleast]
      rfl
    · rename_i hleast
      rw [wide?_neg hb hleast, Option.bind_some, shiftUp?_eq, Int.toNat_of_nonneg (by omega)]

/-! ## Remainders and powers -/

/-- A remainder is smaller than the divisor. -/
lemma fitsWide_of_modulo? (hb : fitsWide b = true) (h : modulo? a b = some n) :
    fitsWide n = true := by
  obtain ⟨quotient, hquotient, rfl⟩ := Option.map_eq_some_iff.1 h
  rw [divide?] at hquotient
  split at hquotient
  · cases hquotient
  · rename_i hzero
    rw [fitsWide_iff] at hb ⊢
    have hlt : (a.tmod b).natAbs < b.natAbs := by
      rw [Int.natAbs_tmod]
      exact Nat.mod_lt _ (Int.natAbs_pos.2 hzero)
    omega

/-- The powers of zero, one and minus one go by the parity of the exponent. -/
lemma pow_of_natAbs_le_one (ha : a.natAbs ≤ 1) (k : ℕ) :
    a ^ k = if k = 0 then 1 else if k % 2 = 0 then a * a else a := by
  rcases Nat.eq_zero_or_pos k with rfl | hpos
  · rw [pow_zero, if_pos rfl]
  · rw [if_neg (by omega)]
    obtain rfl | rfl | rfl : a = 0 ∨ a = 1 ∨ a = -1 := by omega
    · rw [zero_pow (by omega), zero_mul, ite_self]
    · rw [one_pow, one_mul, ite_self]
    · split
      · rename_i heven
        exact (Nat.even_iff.2 heven).neg_one_pow
      · rename_i hodd
        exact (Nat.odd_iff.2 (by omega)).neg_one_pow

/-- A power is exact if there is one. -/
lemma power?_eq_some (h : power? a b = some n) : 0 ≤ b ∧ n = a ^ b.toNat := by
  rw [power?] at h
  split at h
  · cases h
  · rename_i hrange
    have hpos : 0 ≤ b := by omega
    refine ⟨hpos, ?_⟩
    split at h
    · rename_i hsmall
      obtain rfl := Option.some.inj h
      obtain ⟨k, rfl⟩ := Int.eq_ofNat_of_zero_le hpos
      rw [Int.toNat_natCast, pow_of_natAbs_le_one hsmall]
      norm_cast
    · split at h
      · cases h
      · exact (wide?_eq_some.1 h).2.symm

lemma fitsWide_of_power? (h : power? a b = some n) : fitsWide n = true := by
  rw [power?] at h
  split at h
  · cases h
  · split at h
    · rename_i hsmall
      obtain rfl := Option.some.inj h
      rw [fitsWide_iff]
      obtain rfl | rfl | rfl : a = 0 ∨ a = 1 ∨ a = -1 := by omega
      all_goals split_ifs <;> omega
    · split at h
      · cases h
      · exact fitsWide_of_wide? h

end ValueSchema.Number
