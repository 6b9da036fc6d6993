/-
# Literals that are the same

Literals are the same if they are identical, or if both are zeros: `Literal.same_iff`.  A double that
is not a number is the same as itself, although it does not compare as equal to itself.  So sameness
is an equivalence relation, and away from the negative zero it is equality.
-/
import Mathlib
import ValueSchema.Literal.Basic

namespace ValueSchema.Literal

/-- A literal is one of the two zeros. -/
def IsZero (value : Literal) : Prop := value = number 0 ∨ value = number (-0)

/-- The same literals are identical, or both are zeros. -/
theorem same_iff {value other : Literal} :
    value.same other = true ↔ value = other ∨ (value.IsZero ∧ other.IsZero) := by
  constructor
  · intro h
    cases value with
    | number x =>
      cases other with
      | number y =>
        rw [same, Bool.or_eq_true, Bool.and_eq_true, Float.isNaN_eq_decide_eq_nan,
          Float.isNaN_eq_decide_eq_nan, decide_eq_true_iff, decide_eq_true_iff,
          Float.beq_iff_ne_nan_and_eq] at h
        rcases h with ⟨rfl, rfl⟩ | ⟨-, -, rfl | ⟨rfl, rfl⟩ | ⟨rfl, rfl⟩⟩
        · exact Or.inl rfl
        · exact Or.inl rfl
        · exact Or.inr ⟨Or.inl rfl, Or.inr rfl⟩
        · exact Or.inr ⟨Or.inr rfl, Or.inl rfl⟩
      | _ => cases h
    | _ => cases other <;> simp_all [same]
  · rintro (rfl | ⟨rfl | rfl, rfl | rfl⟩)
    · cases value with
      | number x =>
        rw [same, Bool.and_self, Bool.or_eq_true, Float.isNaN_eq_decide_eq_nan, decide_eq_true_iff,
          Float.beq_self_iff]
        exact em (x = Float.nan)
      | _ => simp [same]
    all_goals decide +kernel

lemma same_self (value : Literal) : value.same value = true := same_iff.2 (Or.inl rfl)

lemma same_symm {value other : Literal} (h : value.same other = true) : other.same value = true :=
  same_iff.2 ((same_iff.1 h).imp Eq.symm And.symm)

lemma same_trans {value other third : Literal} (h : value.same other = true)
    (h' : other.same third = true) : value.same third = true := by
  rcases same_iff.1 h with rfl | ⟨hvalue, hother⟩
  · exact h'
  · rcases same_iff.1 h' with rfl | ⟨-, hthird⟩
    · exact h
    · exact same_iff.2 (Or.inr ⟨hvalue, hthird⟩)

/-- Only a negative zero is the same as another literal. -/
lemma eq_of_same {value other : Literal} (h : value.same other = true)
    (hvalue : value ≠ number (-0)) (hother : other ≠ number (-0)) : value = other := by
  rcases same_iff.1 h with rfl | ⟨rfl | rfl, rfl | rfl⟩
  · rfl
  · rfl
  · exact absurd rfl hother
  · exact absurd rfl hvalue
  · exact absurd rfl hvalue

end ValueSchema.Literal
