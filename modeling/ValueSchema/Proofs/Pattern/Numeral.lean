/-
# The texts of numbers match

The text of a finite double is laid out in one of four ways: digits, digits with zeros behind them,
digits around a point, or a digit and a fraction with an exponent.  Its first digit is zero only
where a point follows, and so all of them match the pattern of numbers.  The decimal text of an
integer matches the pattern of integers.
-/
import ValueSchema.Literal.Integer
import ValueSchema.Number.Decimal
import ValueSchema.Proofs.Literal.Numeral
import ValueSchema.Proofs.Pattern.Notation

namespace ValueSchema

namespace Text

lemma utf16_append (text text' : List Char) : utf16 (text ++ text') = utf16 text ++ utf16 text' :=
  List.flatMap_append

/-- Digits are single units. -/
lemma utf16_of_isDigit {digits : List Char} (h : ∀ c ∈ digits, c.isDigit = true) :
    utf16 digits = digits.map Char.toNat := by
  induction digits with
  | nil => rfl
  | cons c rest ih =>
    obtain ⟨hc, hrest⟩ := List.forall_mem_cons.1 h
    have hbasic : c.toNat < 0x10000 := (Char.isDigit_iff_toNat.1 hc).2.trans_lt (by decide)
    rw [utf16, List.flatMap_cons, units, if_pos hbasic, List.map_cons, ← ih hrest]
    rfl

end Text

namespace Number

/-! ## Digits without a leading zero -/

lemma isDigit_of_mem_digitsOf {n : Nat} {c : Char} (hc : c ∈ digitsOf n) : c.isDigit = true :=
  Nat.isDigit_of_mem_toDigits (by decide) (by decide) hc

/-- The digits of a positive number do not start with zero. -/
lemma exists_digitsOf_eq_cons {n : Nat} (hn : 0 < n) : ∃ c rest, digitsOf n = c :: rest ∧
    '1'.toNat ≤ c.toNat ∧ c.toNat ≤ '9'.toNat := by
  have hsingle : ∀ n < 10, 0 < n →
      '1'.toNat ≤ n.digitChar.toNat ∧ n.digitChar.toNat ≤ '9'.toNat := by decide
  induction n using Nat.strongRecOn with
  | ind n ih =>
    rcases Nat.lt_or_ge n 10 with hlt | hge
    · exact ⟨n.digitChar, [], Nat.toDigits_of_lt_base hlt, hsingle n hlt hn⟩
    · obtain ⟨c, rest, hdigits, hbounds⟩ := ih (n / 10) (by omega) (by omega)
      refine ⟨c, rest ++ [(n % 10).digitChar], ?_, hbounds⟩
      rw [digitsOf, Nat.toDigits_of_base_le (by decide) hge]
      exact congrArg (· ++ _) hdigits

lemma strip_digits_ne_zero {d : Decimal} (h : d.digits ≠ 0) (fuel : Nat) :
    (d.strip fuel).digits ≠ 0 := by
  induction fuel generalizing d with
  | zero => exact h
  | succ fuel ih =>
    rw [Decimal.strip]
    split
    · exact ih (by dsimp only; omega)
    · exact h

lemma onGrid?_ne_zero {i : Interval} {e : Int} {n : Nat} (h : i.onGrid? e = some n) : n ≠ 0 := by
  simp only [Interval.onGrid?] at h
  split at h
  · rename_i hdown _
    rw [Bool.and_eq_true, decide_eq_true_iff] at hdown
    split at h <;> cases h
    · exact Nat.succ_ne_zero _
    · exact hdown.1
  · rename_i hdown _
    rw [Bool.and_eq_true, decide_eq_true_iff] at hdown
    cases h
    exact hdown.1
  · cases h
    exact Nat.succ_ne_zero _
  · cases h

/-- The shortest decimal of a positive double is not zero. -/
lemma shortest_digits_ne_zero {m : Nat} (hm : m ≠ 0) (q : Int) : (shortest m q).digits ≠ 0 := by
  simp only [shortest]
  split
  · rename_i d hd
    obtain ⟨e, -, he⟩ := List.exists_of_findSome?_eq_some hd
    obtain ⟨n, hn, rfl⟩ := Option.map_eq_some_iff.1 he
    exact strip_digits_ne_zero (onGrid?_ne_zero hn) 17
  · exact hm

end Number

namespace Pattern

open Regex

/-! ## The parts of a number -/

lemma spans_parts {first second third : Regex} {a b c : List Char}
    (ha : Spans [first] (Text.utf16 a)) (hb : Spans [second] (Text.utf16 b))
    (hc : Spans [third] (Text.utf16 c)) :
    Spans [first, second, third] (Text.utf16 (a ++ b ++ c)) := by
  rw [Text.utf16_append, Text.utf16_append]
  exact (ha.append hb).append hc

section

variable {digits : List Char} (hdigits : ∀ c ∈ digits, c.isDigit = true)

include hdigits

lemma spans_digit_of_mem : ∀ u ∈ digits.map Char.toNat, Spans [digit] [u] :=
  List.forall_mem_map.2 fun c hc =>
    .oneOf (List.mem_singleton_self _) (Char.isDigit_iff_toNat.1 (hdigits c hc))

lemma spans_plus_digit (hne : digits ≠ []) : Spans [.plus digit] (Text.utf16 digits) := by
  rw [Text.utf16_of_isDigit hdigits]
  exact .plus (mt List.map_eq_nil_iff.1 hne) (spans_digit_of_mem hdigits)

lemma spans_wholePart {c : Char} (hc : '1'.toNat ≤ c.toNat ∧ c.toNat ≤ '9'.toNat) :
    Spans [wholePart] (Text.utf16 (c :: digits)) := by
  have hdigit : c.isDigit = true :=
    Char.isDigit_iff_toNat.2 ⟨Nat.le_trans (by decide) hc.1, hc.2⟩
  rw [Text.utf16_of_isDigit (List.forall_mem_cons.2 ⟨hdigit, hdigits⟩)]
  have hleading : Spans [leadingDigit] [c.toNat] := .oneOf (List.mem_singleton_self _) hc
  exact .group (List.mem_cons_of_mem _ (List.mem_singleton_self _))
    (hleading.append (.star (spans_digit_of_mem hdigits)))

lemma spans_fraction (hne : digits ≠ []) : Spans [fraction] (Text.utf16 ('.' :: digits)) := by
  have hpoint : Spans (literalTerms ['.']) (Text.utf16 ['.']) := .unit _
  exact .optional (.group (List.mem_singleton_self _)
    (hpoint.append (spans_plus_digit hdigits hne)))

lemma spans_exponent (negative : Bool) (hne : digits ≠ []) :
    Spans [exponent] (Text.utf16 ('e' :: (if negative then '-' else '+') :: digits)) := by
  have hmark : Spans [.oneOf [('e'.toNat, 'e'.toNat), ('E'.toNat, 'E'.toNat)]]
      (Text.utf16 ['e']) := .oneOf (.head _) (by decide)
  have hsign : Spans [.optional (.oneOf [('+'.toNat, '+'.toNat), ('-'.toNat, '-'.toNat)])]
      (Text.utf16 [if negative then '-' else '+']) := by
    cases negative with
    | false => exact .optional (.oneOf (.head _) (by decide))
    | true => exact .optional (.oneOf (.tail _ (.head _)) (by decide))
  exact .optional (.group (List.mem_singleton_self _)
    (spans_parts hmark hsign (spans_plus_digit hdigits hne)))

end

lemma spans_sign (negative : Bool) :
    Spans [sign] (Text.utf16 (if negative then ['-'] else [])) := by
  cases negative with
  | false => exact .optional_nil
  | true => exact .optional (.unit _)

lemma spans_zero : Spans [wholePart] (Text.utf16 ['0']) := .group (.head _) (.unit _)

lemma spans_no_fraction : Spans [fraction] (Text.utf16 []) := .optional_nil

lemma spans_no_exponent : Spans [exponent] (Text.utf16 []) := .optional_nil

/-! ## Numbers -/

variable {d : Number.Decimal}

lemma spans_plain (h : d.digits ≠ 0) :
    Spans [wholePart, fraction, exponent] (Text.utf16 d.plain) := by
  obtain ⟨c, rest, hcons, hc⟩ := Number.exists_digitsOf_eq_cons (Nat.pos_of_ne_zero h)
  have hrest : ∀ c ∈ rest, c.isDigit = true := fun c hc =>
    Number.isDigit_of_mem_digitsOf (hcons ▸ List.mem_cons_of_mem _ hc)
  have hzeros : ∀ n, ∀ c ∈ Number.zeros n, c.isDigit = true := by
    intro n c hc
    rw [List.eq_of_mem_replicate hc]
    decide
  simp only [Number.Decimal.plain]
  split
  · -- zeros behind the digits
    have hwhole : Spans [wholePart]
        (Text.utf16 (Number.digitsOf d.digits ++ Number.zeros d.exponent.toNat)) := by
      rw [hcons]
      exact spans_wholePart (List.forall_mem_append.2 ⟨hrest, hzeros _⟩) hc
    have hall := spans_parts hwhole spans_no_fraction spans_no_exponent
    rwa [List.append_nil, List.append_nil] at hall
  · rename_i hexponent
    split
    · -- a point among the digits, with one digit at least on each side
      rename_i hpoint
      obtain ⟨k, hk⟩ : ∃ k, ((Number.digitsOf d.digits).length + d.exponent).toNat = k + 1 :=
        ⟨_, (Nat.succ_pred_eq_of_pos (by omega)).symm⟩
      have hlt : k < rest.length := by
        rw [hcons, List.length_cons] at hk
        omega
      rw [hk, hcons, List.take_succ_cons, List.drop_succ_cons]
      have hwhole : Spans [wholePart] (Text.utf16 (c :: rest.take k)) :=
        spans_wholePart (fun c hc => hrest c (List.mem_of_mem_take hc)) hc
      have hfraction : Spans [fraction] (Text.utf16 ('.' :: rest.drop k)) :=
        spans_fraction (fun c hc => hrest c (List.mem_of_mem_drop hc))
          (List.drop_eq_nil_iff.not.2 (Nat.not_le.2 hlt))
      have hall := spans_parts hwhole hfraction spans_no_exponent
      rwa [List.append_nil] at hall
    · -- zeros between the point and the digits
      have hfraction : ∀ n, Spans [fraction]
          (Text.utf16 ('.' :: (Number.zeros n ++ Number.digitsOf d.digits))) := fun n =>
        spans_fraction (List.forall_mem_append.2
            ⟨hzeros n, fun c hc => Number.isDigit_of_mem_digitsOf hc⟩)
          (List.append_ne_nil_of_right_ne_nil _ Nat.toDigits_ne_nil)
      have hall := fun n => spans_parts spans_zero (hfraction n) spans_no_exponent
      simp only [List.append_nil] at hall
      exact hall _

lemma spans_scientific (h : d.digits ≠ 0) :
    Spans [wholePart, fraction, exponent] (Text.utf16 d.scientific) := by
  obtain ⟨c, rest, hcons, hc⟩ := Number.exists_digitsOf_eq_cons (Nat.pos_of_ne_zero h)
  have hrest : ∀ c ∈ rest, c.isDigit = true := fun c hc =>
    Number.isDigit_of_mem_digitsOf (hcons ▸ List.mem_cons_of_mem _ hc)
  have hexponent : ∀ e : Int, Spans [exponent]
      (Text.utf16 ('e' :: (if e < 0 then '-' else '+') :: Number.digitsOf e.natAbs)) := by
    intro e
    have hspans := spans_exponent (fun _ => Number.isDigit_of_mem_digitsOf (n := e.natAbs))
      (decide (e < 0)) Nat.toDigits_ne_nil
    simpa only [decide_eq_true_eq] using hspans
  have hwhole : Spans [wholePart] (Text.utf16 [c]) := spans_wholePart (List.forall_mem_nil _) hc
  simp only [Number.Decimal.scientific, hcons]
  cases rest with
  | nil => exact spans_parts hwhole spans_no_fraction (hexponent _)
  | cons b rest =>
    exact spans_parts hwhole (spans_fraction hrest (List.cons_ne_nil b rest)) (hexponent _)

lemma spans_signed (negative : Bool) {terms : List Regex} {text : List Char}
    (h : Spans terms (Text.utf16 text)) :
    Spans (sign :: terms) (Text.utf16 (Number.signed negative text).toList) := by
  have hsigned : (Number.signed negative text).toList =
      (if negative then ['-'] else []) ++ text := by
    rw [Number.signed, String.toList_ofList]
    cases negative <;> rfl
  rw [hsigned, Text.utf16_append]
  exact (spans_sign negative).append h

/-- The text of a finite number matches the pattern of numbers. -/
lemma spans_number {x : Float} (hx : Number.isFinite x = true) :
    Spans number.terms (Text.utf16 (Number.toText x).toList) := by
  have htext : ∀ {m : Nat} {q : Int}, m ≠ 0 →
      Spans [wholePart, fraction, exponent] (Text.utf16 (Number.shortest m q).text) := by
    intro m q hm
    rw [Number.Decimal.text]
    split
    · exact spans_plain (Number.shortest_digits_ne_zero hm q)
    · exact spans_scientific (Number.shortest_digits_ne_zero hm q)
  cases hview : Number.view x with
  | finite negative m q =>
    rw [Number.toText, hview]
    dsimp only
    split
    · exact (spans_sign false).append
        (spans_parts spans_zero spans_no_fraction spans_no_exponent)
    · rename_i hm
      exact spans_signed negative (htext hm)
  | _ => simp [Number.isFinite, hview] at hx

/-- The text of an integer matches the pattern of integers. -/
lemma spans_integer (n : ℤ) : Spans integer.terms (Text.utf16 (Integer.write n).toList) :=
  spans_signed _ (spans_plus_digit (fun _ => Number.isDigit_of_mem_digitsOf) Nat.toDigits_ne_nil)

end Pattern

end ValueSchema
