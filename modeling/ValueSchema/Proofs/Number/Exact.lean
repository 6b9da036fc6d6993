/-
# Arithmetic without rounding

Doubles are computed with by taking them apart, computing with the parts, and rounding what comes
out.  Some results are not changed by the rounding.  To subtract is to add the negated number
(`sub_eq_add_neg`).  What is left of zero after subtracting a number is the negated number, but for
the sign of a zero (`same_zero_sub`).  A number times one is the number (`mul_one`): its significand
is moved up by fifty-two bits and down again, and the bits that are dropped are zeros.
-/
import ValueSchema.Proofs.Literal.Sameness

namespace ValueSchema.Number

open Float.Model (Format UnpackedFloat totalExponent)
open Float.Model.UnpackedFloat

/-- The parts of a double. -/
def parts (x : Float) : UnpackedFloat := x.toModel.unpack

/-- The double with given parts. -/
def ofParts (u : UnpackedFloat) : Float := .ofModel (Float.Model.pack u)

@[simp] lemma ofParts_parts (x : Float) : ofParts (parts x) = x :=
  Float.toBits_inj.1 (UInt64.toBitVec_inj.1 (pack_unpack_of_valid x.toModel.valid))

/-! ## Signs -/

/-- The bits of a double with the other sign. -/
def flipSign (spec : Format) (b : BitVec spec.numBits) : BitVec spec.numBits :=
  packComponents spec (-Sign.ofBitVec (unpackSign b)) (unpackExponent b) (unpackMantissa b)

lemma unpack_flipSign {spec : Format} (b : BitVec spec.numBits) :
    unpack spec (flipSign spec b) = (unpack spec b).neg := by
  simp only [unpack, flipSign, unpackExponent_packComponents, unpackMantissa_packComponents,
    unpackSign_packComponents, Sign.ofBitVec_toBitVec]
  split_ifs <;> rfl

/-- To pack bits that were taken apart changes at most what is not a number. -/
lemma unpack_pack_unpack {spec : Format} (b : BitVec spec.numBits)
    (h : 2 ≤ spec.exponentBits) : unpack spec ((unpack spec b).pack spec) = unpack spec b := by
  rw [pack_unpack b h]
  split
  · rename_i hnan
    have hbits : unpackExponent b = -1#_ ∧ unpackMantissa b ≠ 0#_ := by
      simpa [isNaNBits] using hnan
    rw [unpack_packedNaN, unpack]
    simp only [hbits, if_true, if_false]
  · rfl

@[simp] lemma parts_neg (x : Float) : parts (-x) = (parts x).neg := by
  have hneg : parts (-x) = unpack .binary64 ((parts x).neg.pack .binary64) := rfl
  rw [hneg, parts, Float.Model.unpack, ← unpack_flipSign, unpack_pack_unpack _ (by decide)]

lemma sub_eq_add_of_parts (spec : Format) (u v : UnpackedFloat) :
    UnpackedFloat.sub spec u v = UnpackedFloat.add spec u v.neg := by
  have happly : ∀ (s : Sign) (n : Int), (-s).apply n = -s.apply n := by
    rintro (_ | _) n
    · exact (Int.neg_neg n).symm
    · rfl
  cases u <;> cases v <;>
    simp only [UnpackedFloat.sub, UnpackedFloat.add, UnpackedFloat.neg, happly, Int.sub_eq_add_neg]

/-- To subtract is to add the negated number. -/
protected theorem sub_eq_add_neg (x y : Float) : x - y = x + -y := by
  have hsub : x - y = ofParts (UnpackedFloat.sub .binary64 (parts x) (parts y)) := rfl
  have hadd : x + -y = ofParts (UnpackedFloat.add .binary64 (parts x) (parts (-y))) := rfl
  rw [hsub, hadd, parts_neg, sub_eq_add_of_parts]

lemma parts_zero : parts 0 = .zero .positive := by rfl

/-- What is left of zero after subtracting a number is the negated number, or both are zeros. -/
theorem same_zero_sub (x : Float) :
    (Literal.number (0 - x)).same (.number (-x)) = true := by
  have hsub : 0 - x = ofParts (UnpackedFloat.sub .binary64 (parts 0) (parts x)) := rfl
  have hneg : -x = ofParts (parts x).neg := rfl
  rw [hsub, hneg, parts_zero]
  rcases parts x with s | _ | s | ⟨s, m, e, hm⟩
  · exact Literal.same_self _
  · exact Literal.same_self _
  · cases s <;> rfl
  · exact Literal.same_self _

/-! ## The product with one -/

lemma log2_mul_two_pow {m : Nat} (hm : 0 < m) (k : Nat) : (m * 2 ^ k).log2 = m.log2 + k := by
  have hpow : 0 < 2 ^ k := Nat.two_pow_pos k
  rw [Nat.log2_eq_iff (by positivity), Nat.pow_add, show m.log2 + k + 1 = m.log2 + 1 + k by omega,
    Nat.pow_add]
  exact ⟨Nat.mul_le_mul_right _ (Nat.log2_self_le hm.ne'),
    Nat.mul_lt_mul_of_pos_right Nat.lt_log2_self hpow⟩

/-- Zeros that are shifted out leave no trace. -/
lemma shiftRight_mul_two_pow (m k : Nat) :
    (⟨m * 2 ^ k, false, false⟩ : ExtendedMantissa) >>> k = ⟨m, false, false⟩ := by
  change k.repeat ExtendedMantissa.shiftRightOne _ = _
  induction k generalizing m with
  | zero => simp [Nat.repeat]
  | succ k ih =>
    rw [Nat.pow_succ', ← Nat.mul_assoc, Nat.repeat, ih]
    simp [ExtendedMantissa.shiftRightOne]

/-- A significand at its proper exponent is not changed by moving it up and rounding it. -/
lemma roundWithAccuracy_mul_two_pow {spec : Format} (s : Sign) {m : Nat} (hm : 0 < m) {e : Int}
    (he : spec.targetExponent (totalExponent m e) = e) (k : Nat) :
    roundWithAccuracy spec s (m * 2 ^ k) (e - k) .exact = .finite s m e hm := by
  have htotal : totalExponent (m * 2 ^ k) (e - k) = totalExponent m e := by
    rw [totalExponent, totalExponent, log2_mul_two_pow hm]
    omega
  have hfirst : shiftToTargetExponent spec (m * 2 ^ k) (e - k) .exact = (⟨m, false, false⟩, e) := by
    rw [shiftToTargetExponent, htotal, he, shiftToExponent]
    have hshift : (e - (e - k)).toNat = k := by omega
    rw [hshift, ExtendedMantissa.ofMantissaAndAccuracy, shiftRight_mul_two_pow, Int.sub_add_cancel]
  have hsecond : shiftToTargetExponent spec m e .exact = (⟨m, false, false⟩, e) := by
    rw [shiftToTargetExponent, he, shiftToExponent, Int.sub_self]
    exact Prod.ext rfl (Int.add_zero e)
  have hrounded : (⟨m, false, false⟩ : ExtendedMantissa).roundedMantissa = m := rfl
  rw [roundWithAccuracy, hfirst]
  dsimp only
  rw [hrounded, hsecond]
  exact dif_neg hm.ne'

lemma log2_append_one {n : Nat} (v : BitVec n) : (1#1 ++ v).toNat.log2 = n := by
  have hlt := v.isLt
  rw [BitVec.toNat_append, BitVec.toNat_ofNat, ← Nat.shiftLeft_add_eq_or_of_lt hlt,
    Nat.shiftLeft_eq, Nat.one_mod_two_pow Nat.one_pos, Nat.one_mul, Nat.log2_eq_iff (by omega)]
  omega

/-- A double that is taken apart has its proper exponent. -/
lemma targetExponent_of_parts {x : Float} {s : Sign} {m : Nat} {e : Int} {hm : 0 < m}
    (h : parts x = .finite s m e hm) :
    Format.binary64.targetExponent (totalExponent m e) = e := by
  have hbias : Format.binary64.exponentBias = 1023 := rfl
  have hbits : Format.binary64.mantissaBitsWithoutImplicit = 52 := rfl
  have htarget : ∀ t, Format.binary64.targetExponent t = max (t - 53) (-1074) := fun _ => rfl
  rw [htarget, totalExponent]
  rw [parts, Float.Model.unpack, unpack] at h
  dsimp only at h
  split_ifs at h with hspecial hinfinite hsmall hzero
  · -- below the normal numbers, the exponent is the least one
    obtain ⟨-, rfl, rfl⟩ := UnpackedFloat.finite.inj h
    have hlog := (Nat.log2_lt hm.ne').2 (BitVec.isLt _)
    rw [hsmall, hbias]
    simp only [BitVec.toNat_ofNat, Nat.zero_mod] at hlog ⊢
    omega
  · obtain ⟨-, rfl, rfl⟩ := UnpackedFloat.finite.inj h
    -- a normal number has its leading bit, and its exponent is above the least one
    have hpos := (BitVec.toNat_pos _).2 ((BitVec.pos_iff_ne_zero _).2 hsmall)
    rw [log2_append_one, hbias]
    omega

lemma parts_one : parts 1 = .finite .positive (2 ^ 52) (-52) (by decide) := by rfl

/-- A number times one is the number. -/
protected theorem mul_one (x : Float) : x * 1 = x := by
  have hmul : x * 1 = ofParts (UnpackedFloat.mul .binary64 (parts x) (parts 1)) := rfl
  have hsign : ∀ s : Sign, s * .positive = s := by rintro (_ | _) <;> rfl
  rw [hmul, parts_one]
  conv_rhs => rw [← ofParts_parts x]
  congr 1
  rcases h : parts x with s | _ | s | ⟨s, m, e, hm⟩ <;> simp only [UnpackedFloat.mul, hsign]
  exact roundWithAccuracy_mul_two_pow s hm (targetExponent_of_parts h) 52

end ValueSchema.Number
