/-
# Big integers and texts

`==` compares a big integer with a text as doubles, and it reads the text by the rules for the texts
of big integers in a source.  So the texts that it takes for an integer are those that spell it or
one that is rounded to the same double: `looseEquals_integer_text_iff`.  Among numerals, and below
`2 ^ 53`, these are the numerals of the integer, but for the blank text, which is never taken for
zero.
-/
import ValueSchema.Literal.Fold
import ValueSchema.Proofs.Literal.Numeral
import ValueSchema.Proofs.Number.Nearest

namespace ValueSchema

lemma Number.log2_natAbs_lt_of_fitsWide {n : ℤ} (h : Number.fitsWide n = true) :
    n.natAbs.log2 < 1023 := by
  rw [Number.fitsWide_iff] at h
  by_cases hn : n.natAbs = 0
  · rw [hn]
    decide
  · have hlog : n.natAbs.log2 < 128 := (Nat.log2_lt hn).2 (by omega)
    omega

/-- The empty text spells no integer. -/
lemma Integer.not_spells_nil {v : ℤ} : ¬ Integer.Spells [] v := by
  rw [← Integer.read?_eq_some_iff]
  have hnone : Integer.read? (String.ofList []) = none := by decide
  rw [hnone]
  exact nofun

namespace Literal

variable {x : String} {a : ℤ}

/-- A big integer that can be read is equal to a text that spells an integer with the same double. -/
lemma looseEquals_integer_text (hx : Integer.read? x = some a) (s : String) :
    looseEquals (bigint x) (string s) = some true ↔
      ∃ v, Integer.Spells (Text.trimBlanks s.toList) v ∧ Number.rounded v = Number.rounded a := by
  show integerEquals x (string s) = some true ↔ _
  rw [integerEquals, hx]
  show some (Option.any _ _) = some true ↔ _
  rw [Option.some_inj, Option.any_eq_true]
  have hbound : ∀ {text n}, Integer.read? text = some n → n.natAbs.log2 < 1023 := fun h =>
    Number.log2_natAbs_lt_of_fitsWide (Integer.fitsWide_of_read? h)
  constructor
  · rintro ⟨v, hv, hequal⟩
    exact ⟨v, Integer.read?_eq_some_iff.1 hv,
      (Number.ofInteger_beq_iff (hbound hv) (hbound hx)).1 hequal⟩
  · rintro ⟨v, hv, hrounded⟩
    rw [← Integer.read?_eq_some_iff] at hv
    exact ⟨v, hv, (Number.ofInteger_beq_iff (hbound hv) (hbound hx)).2 hrounded⟩

/-- Between a big integer that can be read and a text, `==` always has an answer, and the same one in
either order.  They are equal if the text, without the blanks around it, spells an integer as the
text of a big integer would, and if this is rounded to the same double.  So a numeral is equal to the
big integer if it is not blank, what it stands for is within 128 bits and not the least such integer,
and the two are rounded to the same double.  If the big integer is below `2 ^ 53`, this means that
the numeral is not blank and stands for the big integer. -/
theorem looseEquals_integer_text_iff (hx : Integer.read? x = some a) (s : String) :
    looseEquals (string s) (bigint x) = looseEquals (bigint x) (string s) ∧
    (∃ answer, looseEquals (bigint x) (string s) = some answer) ∧
    (looseEquals (bigint x) (string s) = some true ↔
      ∃ v, Integer.Spells (Text.trimBlanks s.toList) v ∧ Number.rounded v = Number.rounded a) ∧
    ∀ v, Integer.Numeral (Text.trimBlanks s.toList) v →
      (looseEquals (bigint x) (string s) = some true ↔
        Text.trimBlanks s.toList ≠ [] ∧ -2 ^ 127 < v ∧ v < 2 ^ 127 ∧
          Number.rounded v = Number.rounded a) ∧
      (a.natAbs < 2 ^ 53 → (looseEquals (bigint x) (string s) = some true ↔
        Text.trimBlanks s.toList ≠ [] ∧ v = a)) := by
  have hequal := looseEquals_integer_text hx s
  have hnumeral : ∀ v, Integer.Numeral (Text.trimBlanks s.toList) v →
      (looseEquals (bigint x) (string s) = some true ↔
        Text.trimBlanks s.toList ≠ [] ∧ -2 ^ 127 < v ∧ v < 2 ^ 127 ∧
          Number.rounded v = Number.rounded a) := by
    intro v hv
    rw [hequal]
    by_cases hblank : Text.trimBlanks s.toList = []
    · rw [hblank]
      exact iff_of_false (fun ⟨_, hspells, _⟩ => Integer.not_spells_nil hspells) fun h => h.1 rfl
    · simp only [Integer.spells_iff_of_numeral hv hblank]
      constructor
      · rintro ⟨_, ⟨rfl, hlow, hhigh⟩, hrounded⟩
        exact ⟨hblank, hlow, hhigh, hrounded⟩
      · rintro ⟨-, hlow, hhigh, hrounded⟩
        exact ⟨v, ⟨rfl, hlow, hhigh⟩, hrounded⟩
  refine ⟨rfl, ?_, hequal, fun v hv => ⟨hnumeral v hv, fun hsmall => ?_⟩⟩
  · show ∃ answer, integerEquals x (string s) = some answer
    rw [integerEquals, hx]
    exact ⟨_, rfl⟩
  · rw [hnumeral v hv, Number.rounded_eq_rounded_iff_of_natAbs_lt hsmall]
    constructor
    · rintro ⟨hblank, -, -, hvalue⟩
      exact ⟨hblank, hvalue⟩
    · rintro ⟨hblank, rfl⟩
      exact ⟨hblank, by omega, by omega, rfl⟩

/-- `9007199254740993n == "9007199254740992"` and `1n == "1n"` hold, and `0n == ""` does not. -/
theorem looseEquals_integer_text_iff_neighbour :
    looseEquals (bigint "9007199254740993") (string "9007199254740992") = some true ∧
      looseEquals (bigint "1") (string "1n") = some true ∧
      looseEquals (bigint "0") (string "") ≠ some true := by
  have hlarge : Integer.read? "9007199254740993" = some 9007199254740993 := by decide +kernel
  have hone : Integer.read? "1" = some 1 := by decide +kernel
  have hzero : Integer.read? "0" = some 0 := by decide +kernel
  obtain ⟨-, -, hrounds, -⟩ := looseEquals_integer_text_iff hlarge "9007199254740992"
  obtain ⟨-, -, hsuffix, -⟩ := looseEquals_integer_text_iff hone "1n"
  obtain ⟨-, -, -, hblank⟩ := looseEquals_integer_text_iff hzero ""
  refine ⟨hrounds.2 ⟨9007199254740992, Integer.read?_eq_some_iff.1 ?_, ?_⟩,
    hsuffix.2 ⟨1, Integer.read?_eq_some_iff.1 ?_, rfl⟩, fun h => ?_⟩
  · decide +kernel
  · decide +kernel
  · decide +kernel
  · exact ((hblank 0 .blank).1.1 h).1 rfl

end Literal

end ValueSchema
