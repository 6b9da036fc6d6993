/-
# Integers as doubles

A double has room for fifty-three binary digits.  An integer with more of them becomes the nearest
number that has no more, and of two that are equally near the one with the even significand:
`rounded`.  So two integers are equal as doubles if they are the same after rounding
(`ofInteger_beq_iff`), and an integer of at most fifty-three digits is equal to itself only.
-/
import ValueSchema.Number.Binary
import ValueSchema.Proofs.Number.Exact

namespace ValueSchema.Number

open Float.Model (Format UnpackedFloat totalExponent)
open Float.Model.UnpackedFloat

/-- What is left of a number without its last `k` binary digits: the nearest, and of two that are
equally near the even one. -/
def halfEven (n k : ℕ) : ℕ :=
  let quotient := n / 2 ^ k
  let rest := n % 2 ^ k
  if 2 * rest < 2 ^ k ∨ 2 * rest = 2 ^ k ∧ quotient % 2 = 0 then quotient else quotient + 1

/-- The nearest number that has at most fifty-three binary digits, up to zeros at its end. -/
def nearest (n : ℕ) : ℕ := halfEven n (n.log2 - 52) * 2 ^ (n.log2 - 52)

/-- The nearest integer that has at most fifty-three binary digits, up to zeros at its end. -/
def rounded (v : ℤ) : ℤ := v.sign * nearest v.natAbs

variable {n k : ℕ} {v w : ℤ}

/-! ## Rounding -/

@[simp] lemma halfEven_zero (n : ℕ) : halfEven n 0 = n := by
  simp [halfEven, Nat.mod_one]

lemma halfEven_bounds (n k : ℕ) : n / 2 ^ k ≤ halfEven n k ∧ halfEven n k ≤ n / 2 ^ k + 1 := by
  rw [halfEven]
  split <;> omega

/-- Zeros at the end may be dropped before rounding. -/
lemma halfEven_mul_two_pow (n k i : ℕ) : halfEven (n * 2 ^ i) (k + i) = halfEven n k := by
  have hpow : 0 < 2 ^ i := Nat.two_pow_pos i
  have hquotient : n * 2 ^ i / 2 ^ (k + i) = n / 2 ^ k := by
    rw [Nat.pow_add, Nat.mul_div_mul_right _ _ hpow]
  have hrest : n * 2 ^ i % 2 ^ (k + i) = n % 2 ^ k * 2 ^ i := by
    rw [Nat.pow_add, Nat.mul_mod_mul_right]
  rw [halfEven, halfEven, hquotient, hrest, ← Nat.mul_assoc, Nat.pow_add]
  simp only [Nat.mul_lt_mul_right hpow, Nat.mul_left_inj hpow.ne']

/-- A number keeps fifty-three digits, or becomes the next power of two. -/
lemma le_halfEven_of_log2 (hn : 0 < n) (h : n.log2 = 52 + k) :
    2 ^ 52 ≤ halfEven n k ∧ halfEven n k ≤ 2 ^ 53 := by
  have hpow : 0 < 2 ^ k := Nat.two_pow_pos k
  have hle : 2 ^ 52 ≤ n / 2 ^ k := by
    rw [Nat.le_div_iff_mul_le hpow, ← Nat.pow_add, ← h]
    exact Nat.log2_self_le hn.ne'
  have hlt : n / 2 ^ k < 2 ^ 53 := by
    rw [Nat.div_lt_iff_lt_mul hpow, ← Nat.pow_add, show 53 + k = n.log2 + 1 by omega]
    exact Nat.lt_log2_self
  obtain ⟨hlow, hhigh⟩ := halfEven_bounds n k
  omega

lemma nearest_of_lt (h : n < 2 ^ 53) : nearest n = n := by
  have hlog : n.log2 - 52 = 0 := by
    by_cases hn : n = 0
    · rw [hn]
      rfl
    · have := (Nat.log2_lt hn).2 h
      omega
  rw [nearest, hlog, halfEven_zero, Nat.pow_zero, Nat.mul_one]

/-- A number with more than fifty-three digits does not become one with fewer. -/
lemma le_nearest (h : 2 ^ 53 ≤ n) : 2 ^ 53 ≤ nearest n := by
  have hpos : 0 < n := Nat.lt_of_lt_of_le (by decide) h
  have hlog : 53 ≤ n.log2 := (Nat.le_log2 hpos.ne').2 h
  obtain ⟨hlow, -⟩ := le_halfEven_of_log2 hpos (show n.log2 = 52 + (n.log2 - 52) by omega)
  have hpow : 2 ^ 1 ≤ 2 ^ (n.log2 - 52) := Nat.pow_le_pow_right (by decide) (by omega)
  calc 2 ^ 53 = 2 ^ 52 * 2 ^ 1 := rfl
    _ ≤ nearest n := Nat.mul_le_mul hlow hpow

lemma nearest_pos (hn : 0 < n) : 0 < nearest n := by
  by_cases h : n < 2 ^ 53
  · rwa [nearest_of_lt h]
  · exact Nat.lt_of_lt_of_le (by decide) (le_nearest (Nat.le_of_not_lt h))

lemma rounded_of_natAbs_lt (h : v.natAbs < 2 ^ 53) : rounded v = v := by
  rw [rounded, nearest_of_lt h, Int.sign_mul_natAbs]

lemma natAbs_rounded (hv : v ≠ 0) : (rounded v).natAbs = nearest v.natAbs := by
  rw [rounded, Int.natAbs_mul, Int.natAbs_sign_of_ne_zero hv, Int.natAbs_natCast, Nat.one_mul]

/-- Rounding keeps the sign. -/
lemma rounded_eq_rounded_iff (hv : v ≠ 0) (hw : w ≠ 0) :
    rounded v = rounded w ↔ (v < 0 ↔ w < 0) ∧ nearest v.natAbs = nearest w.natAbs := by
  have hsign : ∀ {v : ℤ}, v ≠ 0 →
      rounded v = if v < 0 then -(nearest v.natAbs : ℤ) else nearest v.natAbs := by
    intro v hv
    rw [rounded]
    split
    · rename_i hlt
      rw [Int.sign_eq_neg_one_of_neg hlt, Int.neg_one_mul]
    · rw [Int.sign_eq_one_of_pos (by omega), Int.one_mul]
  have hposv := nearest_pos (Int.natAbs_pos.2 hv)
  have hposw := nearest_pos (Int.natAbs_pos.2 hw)
  rw [hsign hv, hsign hw]
  split <;> split <;> omega

/-- An integer with at most fifty-three digits is the only one that is rounded to it. -/
lemma rounded_eq_rounded_iff_of_natAbs_lt (h : w.natAbs < 2 ^ 53) :
    rounded v = rounded w ↔ v = w := by
  constructor
  · intro heq
    rw [rounded_of_natAbs_lt h] at heq
    by_cases hv : v.natAbs < 2 ^ 53
    · rwa [rounded_of_natAbs_lt hv] at heq
    · have hne : v ≠ 0 := by
        rintro rfl
        exact hv (by decide)
      have hle := le_nearest (Nat.le_of_not_lt hv)
      rw [← natAbs_rounded hne, heq] at hle
      omega
  · rintro rfl
    rfl

/-! ## Shifting -/

/-- One more digit is dropped: the rest grows by it, and is compared with twice as much. -/
lemma accuracy_shiftRightOne {em : ExtendedMantissa} {rest whole : ℕ} (hlt : rest < whole)
    (h : em.accuracy = accuracyOfFraction rest whole) :
    em.shiftRightOne.accuracy =
      accuracyOfFraction (rest + whole * (em.mantissa % 2)) (2 * whole) := by
  obtain ⟨m, roundBit, stickyBit⟩ := em
  have hsticky : (roundBit || stickyBit) = decide (rest ≠ 0) := by
    rw [accuracyOfFraction] at h
    by_cases hrest : rest = 0
    · rw [if_pos hrest] at h
      cases roundBit <;> cases stickyBit <;> simp_all [ExtendedMantissa.accuracy]
    · rw [if_neg hrest] at h
      cases roundBit <;> cases stickyBit <;> simp_all [ExtendedMantissa.accuracy]
  rw [ExtendedMantissa.shiftRightOne]
  dsimp only
  rw [hsticky]
  rcases Nat.mod_two_eq_zero_or_one m with hm | hm
  · rw [hm, Nat.mul_zero, Nat.add_zero, accuracyOfFraction]
    by_cases hrest : rest = 0
    · simp [hrest, ExtendedMantissa.accuracy]
    · have hcompare : compare (2 * rest) (2 * whole) = .lt := Nat.compare_eq_lt.2 (by omega)
      simp [hrest, hcompare, ExtendedMantissa.accuracy]
  · rw [hm, Nat.mul_one, accuracyOfFraction, if_neg (by omega)]
    by_cases hrest : rest = 0
    · simp [hrest, ExtendedMantissa.accuracy]
    · have hcompare : compare (2 * (rest + whole)) (2 * whole) = .gt :=
        Nat.compare_eq_gt.2 (by omega)
      simp [hrest, hcompare, ExtendedMantissa.accuracy]

/-- What was shifted out of a number is its rest, compared with the whole. -/
lemma shiftRight_exact (n k : ℕ) :
    ((⟨n, false, false⟩ : ExtendedMantissa) >>> k).mantissa = n / 2 ^ k ∧
      ((⟨n, false, false⟩ : ExtendedMantissa) >>> k).accuracy =
        accuracyOfFraction (n % 2 ^ k) (2 ^ k) := by
  change (k.repeat ExtendedMantissa.shiftRightOne _).mantissa = _ ∧
    (k.repeat ExtendedMantissa.shiftRightOne _).accuracy = _
  induction k with
  | zero =>
    rw [Nat.pow_zero, Nat.div_one, Nat.mod_one]
    exact ⟨rfl, rfl⟩
  | succ k ih =>
    obtain ⟨hmantissa, haccuracy⟩ := ih
    rw [Nat.repeat]
    constructor
    · rw [ExtendedMantissa.shiftRightOne, hmantissa, Nat.div_div_eq_div_mul, ← Nat.pow_succ]
    · have hlt : n % 2 ^ k < 2 ^ k := Nat.mod_lt _ (Nat.two_pow_pos k)
      rw [accuracy_shiftRightOne hlt haccuracy, hmantissa, Nat.pow_succ', Nat.mul_comm 2 (2 ^ k),
        Nat.mod_mul]

lemma roundedMantissa_shiftRight (n k : ℕ) :
    ((⟨n, false, false⟩ : ExtendedMantissa) >>> k).roundedMantissa = halfEven n k := by
  obtain ⟨hmantissa, haccuracy⟩ := shiftRight_exact n k
  have hpow : 0 < 2 ^ k := Nat.two_pow_pos k
  rw [ExtendedMantissa.roundedMantissa, hmantissa, haccuracy, accuracyOfFraction, halfEven]
  by_cases hrest : n % 2 ^ k = 0
  · rw [if_pos hrest, if_pos (by omega)]
    rfl
  · rw [if_neg hrest]
    rcases Nat.lt_trichotomy (2 * (n % 2 ^ k)) (2 ^ k) with hlt | heq | hgt
    · rw [Nat.compare_eq_lt.2 hlt, if_pos (Or.inl hlt)]
      rfl
    · rw [Nat.compare_eq_eq.2 heq, Accuracy.roundToNearestEven]
      split <;> omega
    · rw [Nat.compare_eq_gt.2 hgt, if_neg (by omega)]
      rfl

/-! ## Doubles -/

/-- A number determines its first fifty-three digits and the power of two behind them. -/
lemma eq_of_mul_two_pow_eq {p q i j : ℕ} (hp : p.log2 = 52) (hq : q.log2 = 52)
    (h : p * 2 ^ i = q * 2 ^ j) : p = q ∧ i = j := by
  have hpos : ∀ {m : ℕ}, m.log2 = 52 → 0 < m := by
    rintro (_ | m) hm
    · cases hm
    · exact Nat.succ_pos m
  have hlog := congrArg Nat.log2 h
  rw [log2_mul_two_pow (hpos hp), log2_mul_two_pow (hpos hq), hp, hq] at hlog
  obtain rfl : i = j := by omega
  exact ⟨Nat.eq_of_mul_eq_mul_right (Nat.two_pow_pos i) h, rfl⟩

/-- A significand of fifty-three digits is packed without the first one. -/
lemma pack_normal (s : Sign) {q e : ℕ} (hpos : 0 < q) (hlog : q.log2 = 52) (he : e < 1024) :
    UnpackedFloat.pack .binary64 (.finite s q (e - 52) hpos) =
      packComponents .binary64 s (BitVec.ofNat 11 (e + 1023)) (BitVec.ofNat 52 q) := by
  have hexponent : ((e : ℤ) - 52 + Format.binary64.exponentBias +
      Format.binary64.mantissaBitsWithoutImplicit).toNat = e + 1023 := by
    have hbias : Format.binary64.exponentBias = 1023 := rfl
    have hbits : Format.binary64.mantissaBitsWithoutImplicit = 52 := rfl
    rw [hbias, hbits]
    omega
  have hrange : ¬ 2 ^ Format.binary64.exponentBits ≤ e + 1023 + 1 := by
    have hbits : Format.binary64.exponentBits = 11 := rfl
    rw [hbits]
    omega
  have hbits : 52 + 1 = Format.binary64.mantissaBits := rfl
  rw [UnpackedFloat.pack]
  dsimp only
  rw [hexponent, hlog, if_neg hrange, if_pos hbits]

lemma unpack_normal (s : Sign) {q e : ℕ} (hpos : 0 < q) (hlog : q.log2 = 52) (he : e < 1024) :
    UnpackedFloat.unpack .binary64
      (packComponents .binary64 s (BitVec.ofNat 11 (e + 1023)) (BitVec.ofNat 52 q)) =
        .finite s q (e - 52) hpos := by
  have hexponent : (BitVec.ofNat 11 (e + 1023)).toNat = e + 1023 := by
    rw [BitVec.toNat_ofNat, Nat.mod_eq_of_lt (by omega)]
  have hinfinite : BitVec.ofNat 11 (e + 1023) ≠ -1#11 := by
    intro h
    have htop : e + 1023 = 2047 := hexponent.symm.trans (congrArg BitVec.toNat h)
    omega
  have hsmall : BitVec.ofNat 11 (e + 1023) ≠ 0#11 := by
    intro h
    have hbottom : e + 1023 = 0 := hexponent.symm.trans (congrArg BitVec.toNat h)
    omega
  have hsignificand : (1#1 ++ BitVec.ofNat 52 q).toNat = q := by
    obtain ⟨hlow, hhigh⟩ := (Nat.log2_eq_iff hpos.ne').1 hlog
    have hlt : (BitVec.ofNat 52 q).toNat < 2 ^ 52 := BitVec.isLt _
    rw [BitVec.toNat_append, ← Nat.shiftLeft_add_eq_or_of_lt hlt, BitVec.toNat_ofNat,
      BitVec.toNat_ofNat, Nat.shiftLeft_eq]
    omega
  have hbias : (Format.binary64.exponentBias : ℤ) = 1023 := rfl
  have hbits : (Format.binary64.mantissaBitsWithoutImplicit : ℤ) = 52 := rfl
  have hshift : ((e + 1023 : ℕ) : ℤ) - (1023 + 52) = e - 52 := by omega
  simp only [UnpackedFloat.unpack, unpackExponent_packComponents, unpackMantissa_packComponents,
    unpackSign_packComponents, Sign.ofBitVec_toBitVec, hbias, hbits]
  rw [if_neg hinfinite, if_neg hsmall]
  simp only [hexponent, hshift, hsignificand]

/-- A double whose significand has fifty-three digits, and whose exponent is in range, is made of
them. -/
lemma parts_ofParts_normal (s : Sign) {q e : ℕ} (hpos : 0 < q) (hlog : q.log2 = 52)
    (he : e < 1024) : parts (ofParts (.finite s q (e - 52) hpos)) = .finite s q (e - 52) hpos := by
  show UnpackedFloat.unpack .binary64 (UnpackedFloat.pack .binary64 _) = _
  rw [pack_normal s hpos hlog he, unpack_normal s hpos hlog he]

lemma targetExponent_eq {m : ℕ} {t : ℤ} (h : -1022 ≤ m.log2 + t) :
    Format.binary64.targetExponent (totalExponent m t) = m.log2 + t - 52 := by
  show max ((m.log2 : ℤ) + 1 + t - 53) (-1074) = _
  omega

/-- A number is shifted until it has fifty-three digits. -/
lemma shiftToTargetExponent_eq {m i : ℕ} {t : ℤ} (hlog : m.log2 = 52 + i) (ht : -1074 ≤ t) :
    shiftToTargetExponent .binary64 m t .exact =
      ((⟨m, false, false⟩ : ExtendedMantissa) >>> i, t + i) := by
  have hshift : (((52 + i : ℕ) : ℤ) + t - 52 - t).toNat = i := by omega
  rw [shiftToTargetExponent, targetExponent_eq (by omega), hlog, shiftToExponent, hshift]
  rfl

/-- What is left of a number behind which zeros were put is what it is rounded to. -/
lemma halfEven_mul_two_pow_mul (hn : 0 < n) {i j : ℕ} (hi : n.log2 + j = 52 + i) :
    halfEven (n * 2 ^ j) i * 2 ^ n.log2 = nearest n * 2 ^ 52 := by
  by_cases hlarge : 52 ≤ n.log2
  · obtain ⟨k, hk⟩ : ∃ k, n.log2 = 52 + k := ⟨n.log2 - 52, by omega⟩
    obtain rfl : i = k + j := by omega
    rw [halfEven_mul_two_pow, nearest, hk, Nat.add_sub_cancel_left, Nat.pow_add, Nat.mul_assoc,
      Nat.mul_comm (2 ^ k)]
  · obtain ⟨k, hk⟩ : ∃ k, k + n.log2 = 52 := ⟨52 - n.log2, by omega⟩
    obtain rfl : j = k + i := by omega
    have hexact : halfEven (n * 2 ^ (k + i)) i = n * 2 ^ k := by
      have hdrop := halfEven_mul_two_pow (n * 2 ^ k) 0 i
      rwa [halfEven_zero, Nat.zero_add, Nat.mul_assoc, ← Nat.pow_add] at hdrop
    rw [hexact, nearest_of_lt ((Nat.log2_lt hn.ne').1 (by omega)), Nat.mul_assoc, ← Nat.pow_add,
      hk]

/-- Rounding a number keeps its first fifty-three digits, whatever zeros were put behind it. -/
lemma roundWithAccuracy_eq_nearest (hn : 0 < n) {j : ℕ} (hj : 52 ≤ n.log2 + j) (hj' : j ≤ 1074) :
    ∃ q e : ℕ, ∃ hpos : 0 < q, roundWithAccuracy .binary64 .positive (n * 2 ^ j) (-j) .exact =
        .finite .positive q (e - 52) hpos ∧
      q.log2 = 52 ∧ e ≤ n.log2 + 1 ∧ q * 2 ^ e = nearest n * 2 ^ 52 := by
  obtain ⟨i, hi⟩ : ∃ i, n.log2 + j = 52 + i := ⟨n.log2 + j - 52, by omega⟩
  have hlog : (n * 2 ^ j).log2 = 52 + i := by rw [log2_mul_two_pow hn, hi]
  obtain ⟨hlow, hhigh⟩ := le_halfEven_of_log2 (Nat.mul_pos hn (Nat.two_pow_pos j)) hlog
  -- the digits that are kept may have become a power of two with one more digit
  obtain ⟨q, k, hq, hk, hkept⟩ :
      ∃ q k, q.log2 = 52 ∧ k ≤ 1 ∧ halfEven (n * 2 ^ j) i = q * 2 ^ k := by
    by_cases hlt : halfEven (n * 2 ^ j) i < 2 ^ 53
    · exact ⟨_, 0, (Nat.log2_eq_iff (by omega)).2 ⟨hlow, hlt⟩, by decide, (Nat.mul_one _).symm⟩
    · exact ⟨2 ^ 52, 1, Nat.log2_two_pow, by decide, by omega⟩
  have hpos : 0 < q := by
    by_contra hzero
    rw [Nat.eq_zero_of_not_pos hzero] at hq
    cases hq
  have hlogq : (q * 2 ^ k).log2 = 52 + k := by rw [log2_mul_two_pow hpos, hq]
  have hexponent : -(j : ℤ) + i + k = ((n.log2 + k : ℕ) : ℤ) - 52 := by omega
  refine ⟨q, n.log2 + k, hpos, ?_, hq, by omega, ?_⟩
  · rw [roundWithAccuracy, shiftToTargetExponent_eq hlog (by omega)]
    dsimp only
    rw [roundedMantissa_shiftRight, hkept, shiftToTargetExponent_eq hlogq (by omega),
      shiftRight_mul_two_pow, hexponent]
    exact dif_neg hpos.ne'
  · rw [← halfEven_mul_two_pow_mul hn hi, hkept, Nat.pow_add, Nat.mul_assoc,
      Nat.mul_comm (2 ^ n.log2)]

/-- A number that fits into a word becomes a double by moving its digits up until there are
fifty-three. -/
lemma toFloat_toUInt64 (hn : 0 < n) (h : n < 2 ^ 53) :
    n.toUInt64.toFloat =
      ofParts (roundWithAccuracy .binary64 .positive (n * 2 ^ (52 - n.log2))
        (-((52 - n.log2 : ℕ) : ℤ)) .exact) := by
  have hword : n.toUInt64.toNat = n := Nat.mod_eq_of_lt (by omega)
  have hlog : n.log2 < 53 := (Nat.log2_lt hn.ne').2 h
  have hsign : compare (n : ℤ) 0 = .gt := Int.compare_eq_gt.2 (by omega)
  have hshift : (0 - ((n.log2 : ℤ) + 0 - 52)).toNat = 52 - n.log2 := by omega
  show ofParts (UnpackedFloat.ofNat .binary64 n.toUInt64.toNat) = _
  rw [hword, UnpackedFloat.ofNat, UnpackedFloat.ofInt, UnpackedFloat.normalize, hsign]
  dsimp only
  rw [Int.toNat_natCast, UnpackedFloat.round, targetExponent_eq (by omega), decreaseExponent,
    hshift, Nat.shiftLeft_eq]
  dsimp only
  rw [Int.zero_sub]

/-- The size of an integer as a double. -/
lemma ofScientific_eq (hn : 0 < n) :
    ∃ j : ℕ, 52 ≤ n.log2 + j ∧ j ≤ 53 ∧ Float.ofScientific n false 0 =
      ofParts (roundWithAccuracy .binary64 .positive (n * 2 ^ j) (-j) .exact) := by
  have hone : Float.exactlyRepresentablePowersOfTen[0] = 1 := by rfl
  rw [Float.ofScientific]
  split
  · rename_i h
    refine ⟨52 - n.log2, by omega, by omega, ?_⟩
    show n.toUInt64.toFloat * Float.exactlyRepresentablePowersOfTen[0] = _
    rw [hone, Number.mul_one, toFloat_toUInt64 hn h.1]
  · rename_i h
    have hle : 53 ≤ n.log2 := (Nat.le_log2 hn.ne').2 (by omega)
    refine ⟨53, by omega, Nat.le_refl 53, ?_⟩
    show ofParts (UnpackedFloat.ofScientific .binary64 n 0) = _
    have hrange : (0 : ℤ) ≤ 2 ^ Format.binary64.exponentBits := Int.le_of_lt (by decide)
    rw [UnpackedFloat.ofScientific, dif_neg hn.ne', if_neg (Int.not_lt.2 hrange),
      if_neg (by omega), if_pos (Int.le_refl 0)]
    show ofParts (roundWithAccuracy .binary64 .positive (n <<< 53 * 1) (-53 + 0) .exact) = _
    rw [Nat.shiftLeft_eq, Nat.mul_one, Int.add_zero]
    rfl

/-- An integer as a double has its sign, and the digits of what it is rounded to. -/
lemma parts_ofInteger (hv : v ≠ 0) (hlog : v.natAbs.log2 < 1023) :
    ∃ q e : ℕ, ∃ hpos : 0 < q, parts (ofInteger v) =
        .finite (if v < 0 then .negative else .positive) q (e - 52) hpos ∧
      q.log2 = 52 ∧ q * 2 ^ e = nearest v.natAbs * 2 ^ 52 := by
  have hn : 0 < v.natAbs := Int.natAbs_pos.2 hv
  obtain ⟨j, hj, hj', hsize⟩ := ofScientific_eq hn
  obtain ⟨q, e, hpos, hround, hq, he, hvalue⟩ := roundWithAccuracy_eq_nearest hn hj (by omega)
  have hparts : parts (Float.ofScientific v.natAbs false 0) =
      .finite .positive q (e - 52) hpos := by
    rw [hsize, hround, parts_ofParts_normal _ hpos hq (by omega)]
  refine ⟨q, e, hpos, ?_, hq, hvalue⟩
  rw [ofInteger]
  split
  · rw [parts_neg, hparts]
    rfl
  · exact hparts

lemma parts_ofInteger_zero : parts (ofInteger 0) = .zero .positive := by rfl

/-- Doubles are made of their parts. -/
lemma parts_eq_iff {x y : Float} : parts x = parts y ↔ x = y := by
  constructor
  · intro h
    rw [← ofParts_parts x, h, ofParts_parts]
  · rintro rfl
    rfl

/-- What an integer becomes as a double is a number, and never the negative zero. -/
lemma ofInteger_beq_iff_eq (hv : v.natAbs.log2 < 1023) (hw : w.natAbs.log2 < 1023) :
    (ofInteger v == ofInteger w) = true ↔ ofInteger v = ofInteger w := by
  have hproper : ∀ {v : ℤ}, v.natAbs.log2 < 1023 → ofInteger v ≠ nan ∧ ofInteger v ≠ -0 := by
    intro v hlog
    have hnan : parts nan = .notANumber := by rfl
    have hzero : parts (-0) = .zero .negative := by rfl
    rw [ne_eq, ne_eq, ← parts_eq_iff, ← parts_eq_iff, hnan, hzero]
    by_cases hv : v = 0
    · rw [hv, parts_ofInteger_zero]
      exact ⟨nofun, nofun⟩
    · obtain ⟨q, e, hpos, hparts, -⟩ := parts_ofInteger hv hlog
      rw [hparts]
      exact ⟨nofun, nofun⟩
  rw [Float.beq_iff_ne_nan_and_eq]
  constructor
  · rintro ⟨-, -, heq | ⟨-, hzero⟩ | ⟨hzero, -⟩⟩
    · exact heq
    · exact absurd hzero (hproper hw).2
    · exact absurd hzero (hproper hv).2
  · exact fun heq => ⟨(hproper hv).1, (hproper hw).1, Or.inl heq⟩

/-- Two integers of at most 1023 binary digits are equal as doubles if they are the same after
rounding. -/
theorem ofInteger_beq_iff (hv : v.natAbs.log2 < 1023) (hw : w.natAbs.log2 < 1023) :
    (ofInteger v == ofInteger w) = true ↔ rounded v = rounded w := by
  rw [ofInteger_beq_iff_eq hv hw, ← parts_eq_iff]
  have hzero : ∀ {w : ℤ}, w ≠ 0 → rounded w ≠ 0 := by
    intro w hw h
    have hpos := nearest_pos (Int.natAbs_pos.2 hw)
    rw [← natAbs_rounded hw, h] at hpos
    exact Nat.lt_irrefl 0 hpos
  by_cases hv0 : v = 0
  · subst hv0
    by_cases hw0 : w = 0
    · simp [hw0]
    · obtain ⟨q, e, hpos, hparts, -⟩ := parts_ofInteger hw0 hw
      rw [hparts, parts_ofInteger_zero]
      exact iff_of_false nofun fun h => hzero hw0 h.symm
  by_cases hw0 : w = 0
  · subst hw0
    obtain ⟨q, e, hpos, hparts, -⟩ := parts_ofInteger hv0 hv
    rw [hparts, parts_ofInteger_zero]
    exact iff_of_false nofun (hzero hv0)
  obtain ⟨q, e, hpos, hparts, hq, hvalue⟩ := parts_ofInteger hv0 hv
  obtain ⟨q', e', hpos', hparts', hq', hvalue'⟩ := parts_ofInteger hw0 hw
  rw [hparts, hparts', rounded_eq_rounded_iff hv0 hw0]
  constructor
  · intro h
    obtain ⟨hsign, rfl, he⟩ := UnpackedFloat.finite.inj h
    obtain rfl : e = e' := by omega
    refine ⟨?_, Nat.eq_of_mul_eq_mul_right (by decide) (hvalue.symm.trans hvalue')⟩
    split at hsign <;> split at hsign <;> first | omega | cases hsign
  · rintro ⟨hsign, hnearest⟩
    rw [hnearest, ← hvalue'] at hvalue
    obtain ⟨rfl, rfl⟩ := eq_of_mul_two_pow_eq hq hq' hvalue
    simp only [hsign]

end ValueSchema.Number
