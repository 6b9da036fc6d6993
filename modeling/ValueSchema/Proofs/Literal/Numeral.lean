/-
# Numerals

A numeral is an integer as a text states it when it is compared with one: decimal digits with an
optional sign, or the digits of another base behind its mark, without a sign; and nothing at all
stands for zero.

The texts of big integers are read by rules of their own.  An `n` at the end and underscores do not
count, there may be minus signs in any number, and a sign may also stand behind the mark of a base.
So more texts can be read than there are numerals, and exactly those that spell an integer in this
way: `read?_eq_some_iff`.  A numeral that is not blank is read as what it stands for, as far as that
fits into 128 bits.  But of the least such integer the digits are read before the sign, and they do
not fit: `read?_of_numeral`.

With a sign of its own behind the mark of a base, the least integer can be read.  Minus signs in
front of it then do not change it, since its negative overflows.
-/
import ValueSchema.Proofs.Literal.Integer

namespace ValueSchema.Integer

variable {base n : ℕ} {mark : Char} {digits text body : List Char} {v w : ℤ}

/-! ## Digits -/

/-- Digits in a base, one at least, and the number that they stand for. -/
def Digits (base : ℕ) (digits : List Char) (n : ℕ) : Prop :=
  digits ≠ [] ∧ (∀ c ∈ digits, digitValue c < base) ∧
    n = Nat.ofDigits base (digits.reverse.map digitValue)

lemma foldl_digitValue (base : ℕ) (digits : List Char) :
    digits.foldl (fun n c => base * n + digitValue c) 0 =
      Nat.ofDigits base (digits.reverse.map digitValue) := by
  induction digits using List.reverseRecOn with
  | nil => rfl
  | append_singleton digits c ih =>
    rw [List.foldl_append, ih, List.reverse_append, List.reverse_singleton, List.singleton_append,
      List.map_cons, Nat.ofDigits_cons, List.foldl_cons, List.foldl_nil, Nat.add_comm]

lemma readDigits?_eq_some_iff (hne : digits ≠ []) :
    readDigits? base digits = some n ↔ Digits base digits n := by
  rw [readDigits?, foldl_digitValue]
  simp only [Digits, hne, List.all_eq_true, decide_eq_true_eq, ne_eq, not_false_eq_true, true_and]
  split
  · rename_i hall
    exact ⟨fun h => ⟨hall, (Option.some.inj h).symm⟩, fun h => congrArg some h.2.symm⟩
  · rename_i hall
    exact ⟨fun h => (by cases h), fun h => absurd h.1 hall⟩

/-- Digits with an optional sign, and the integer that they stand for. -/
inductive Signed (base : ℕ) : List Char → ℤ → Prop
  | plain {digits : List Char} {n : ℕ} (h : Digits base digits n) : Signed base digits n
  | plus {digits : List Char} {n : ℕ} (h : Digits base digits n) : Signed base ('+' :: digits) n
  | minus {digits : List Char} {n : ℕ} (h : Digits base digits n) :
    Signed base ('-' :: digits) (-n)

/-- No sign is a digit. -/
lemma Digits.head?_ne (h : Digits base digits n) (hbase : base ≤ 16) :
    digits.head? ≠ some '-' ∧ digits.head? ≠ some '+' := by
  have hsign : ∀ c, digits.head? = some c → digitValue c < 16 := fun c hc =>
    (h.2.1 c (List.mem_of_head? hc)).trans_le hbase
  exact ⟨fun hc => absurd (hsign _ hc) (by decide), fun hc => absurd (hsign _ hc) (by decide)⟩

lemma splitSign_of_head? (hminus : text.head? ≠ some '-') (hplus : text.head? ≠ some '+') :
    Number.splitSign text = (false, text) := by
  rw [Number.splitSign.eq_def]
  split
  · exact absurd rfl hminus
  · exact absurd rfl hplus
  · rfl

lemma readSigned?_of_signed (hbase : base ≤ 16) (h : Signed base text v) :
    readSigned? base text = Number.wide? v := by
  cases h with
  | plain h =>
    obtain ⟨hminus, hplus⟩ := h.head?_ne hbase
    rw [readSigned?, splitSign_of_head? hminus hplus]
    dsimp only
    rw [if_neg h.1, (readDigits?_eq_some_iff h.1).2 h, Option.bind_some, if_neg (by decide)]
  | plus h =>
    rw [readSigned?, Number.splitSign]
    dsimp only
    rw [if_neg h.1, (readDigits?_eq_some_iff h.1).2 h, Option.bind_some, if_neg (by decide)]
  | minus h =>
    rw [readSigned?, Number.splitSign]
    dsimp only
    rw [if_neg h.1, (readDigits?_eq_some_iff h.1).2 h, Option.bind_some, if_pos rfl]

lemma readSigned?_eq_some_iff (hbase : base ≤ 16) :
    readSigned? base text = some v ↔ Signed base text v ∧ Number.fitsWide v = true := by
  constructor
  · intro h
    have hsplit : ∀ negative magnitude, Number.splitSign text = (negative, magnitude) →
        ∃ n, Digits base magnitude n ∧ Number.wide? (if negative then -(n : ℤ) else n) = some v := by
      intro negative magnitude hsplit
      rw [readSigned?, hsplit] at h
      dsimp only at h
      split at h
      · cases h
      · rename_i hne
        obtain ⟨n, hn, hwide⟩ := Option.bind_eq_some_iff.1 h
        exact ⟨n, (readDigits?_eq_some_iff hne).1 hn, hwide⟩
    rw [Number.splitSign.eq_def] at hsplit
    split at hsplit
    · obtain ⟨n, hn, hwide⟩ := hsplit _ _ rfl
      obtain ⟨hfits, rfl⟩ := Number.wide?_eq_some.1 hwide
      exact ⟨.minus hn, hfits⟩
    · obtain ⟨n, hn, hwide⟩ := hsplit _ _ rfl
      obtain ⟨hfits, rfl⟩ := Number.wide?_eq_some.1 hwide
      exact ⟨.plus hn, hfits⟩
    · obtain ⟨n, hn, hwide⟩ := hsplit _ _ rfl
      obtain ⟨hfits, rfl⟩ := Number.wide?_eq_some.1 hwide
      exact ⟨.plain hn, hfits⟩
  · rintro ⟨h, hfits⟩
    rw [readSigned?_of_signed hbase h]
    exact Number.wide?_eq_some.2 ⟨hfits, rfl⟩

/-! ## Marks of bases -/

/-- The base that a letter behind a zero marks. -/
def baseOf? : Char → Option ℕ
  | 'x' | 'X' => some 16
  | 'o' | 'O' => some 8
  | 'b' | 'B' => some 2
  | _ => none

lemma baseOf?_le (h : baseOf? mark = some base) : base ≤ 16 := by
  rw [baseOf?.eq_def] at h
  split at h <;> cases h <;> decide

/-- No letter that marks a base is a decimal digit. -/
lemma le_digitValue_of_mark (h : baseOf? mark = some base) : 10 ≤ digitValue mark := by
  rw [baseOf?.eq_def] at h
  split at h <;> first | decide | cases h

/-- What stands behind the minus signs of a big integer: decimal digits, or digits behind the mark
of a base, with an optional sign. -/
inductive Body : List Char → ℤ → Prop
  | decimal {text : List Char} {v : ℤ} (h : Signed 10 text v) : Body text v
  | marked {mark : Char} {base : ℕ} {text : List Char} {v : ℤ} (hmark : baseOf? mark = some base)
    (h : Signed base text v) : Body ('0' :: mark :: text) v

lemma readBased?_of_mark (h : baseOf? mark = some base) (text : List Char) :
    readBased? ('0' :: mark :: text) = readSigned? base text := by
  rw [baseOf?.eq_def] at h
  split at h <;> first | (cases h; rfl) | cases h

lemma readBased?_of_no_mark (h : ∀ mark rest, text = '0' :: mark :: rest → baseOf? mark = none) :
    readBased? text = readSigned? 10 text := by
  rw [readBased?.eq_def]
  split <;> first | exact absurd (h _ _ rfl) (by decide) | rfl

lemma Signed.no_mark (h : Signed 10 text v) {rest : List Char} (htext : text = '0' :: mark :: rest) :
    baseOf? mark = none := by
  rcases hmark : baseOf? mark with _ | base
  · rfl
  · have hlarge := le_digitValue_of_mark hmark
    subst htext
    cases h with
    | plain h =>
      have hlt := h.2.1 mark (by simp)
      omega

lemma readBased?_of_body (h : Body text v) : readBased? text = Number.wide? v := by
  cases h with
  | decimal h =>
    rw [readBased?_of_no_mark fun mark rest => h.no_mark]
    exact readSigned?_of_signed (by decide) h
  | marked hmark h =>
    rw [readBased?_of_mark hmark]
    exact readSigned?_of_signed (baseOf?_le hmark) h

lemma readBased?_eq_some_iff :
    readBased? text = some v ↔ Body text v ∧ Number.fitsWide v = true := by
  constructor
  · intro h
    by_cases hmark : ∃ mark rest base, text = '0' :: mark :: rest ∧ baseOf? mark = some base
    · obtain ⟨mark, rest, base, rfl, hmark⟩ := hmark
      rw [readBased?_of_mark hmark, readSigned?_eq_some_iff (baseOf?_le hmark)] at h
      exact ⟨.marked hmark h.1, h.2⟩
    · push Not at hmark
      rw [readBased?_of_no_mark fun mark rest htext => Option.eq_none_iff_forall_ne_some.2
        fun base => hmark mark rest base htext, readSigned?_eq_some_iff (by decide)] at h
      exact ⟨.decimal h.1, h.2⟩
  · rintro ⟨h, hfits⟩
    rw [readBased?_of_body h]
    exact Number.wide?_eq_some.2 ⟨hfits, rfl⟩

/-! ## Texts of big integers -/

/-- The text of a big integer without its suffix and its separators. -/
def cleaned (text : List Char) : List Char := (dropSuffix text).filter (· ≠ '_')

/-- A text spells an integer: apart from a suffix and separators it is a body behind any number of
minus signs, which count as one.  The body stands for an integer of 128 bits.  The minus signs
change its sign, unless it is the least such integer, which they leave as it is. -/
def Spells (text : List Char) (v : ℤ) : Prop :=
  ∃ (minuses : ℕ) (body : List Char) (w : ℤ),
    cleaned text = List.replicate minuses '-' ++ body ∧ body.head? ≠ some '-' ∧ Body body w ∧
      Number.fitsWide w = true ∧ v = (if minuses = 0 ∨ w = -2 ^ 127 then w else -w)

lemma read?_ofList (text : List Char) :
    read? (String.ofList text) =
      if (cleaned text).head? = some '-' then
        (readBased? ((cleaned text).dropWhile (· = '-'))).map Number.negate
      else readBased? ((cleaned text).dropWhile (· = '-')) := by
  rw [read?, String.toList_ofList]
  rfl

lemma read?_of_cleaned (minuses : ℕ) (hclean : cleaned text = List.replicate minuses '-' ++ body)
    (hhead : body.head? ≠ some '-') :
    read? (String.ofList text) =
      if minuses = 0 then readBased? body else (readBased? body).map Number.negate := by
  have hbody : body.dropWhile (· = '-') = body := by
    cases body with
    | nil => rfl
    | cons c rest => exact List.dropWhile_cons_of_neg (by simpa using hhead)
  have hdrop : (cleaned text).dropWhile (· = '-') = body := by
    rw [hclean, List.dropWhile_append_of_pos, hbody]
    intro c hc
    exact decide_eq_true (List.eq_of_mem_replicate hc)
  rw [read?_ofList, hdrop, hclean]
  cases minuses with
  | zero => rw [if_neg (by simpa using hhead), if_pos rfl]
  | succ k => rw [List.replicate_succ, List.cons_append, List.head?_cons, if_pos rfl,
      if_neg k.succ_ne_zero]

/-- What the body behind the minus signs stands for tells what the text is read as. -/
lemma read?_of_cleaned_eq_some_iff (minuses : ℕ)
    (hclean : cleaned text = List.replicate minuses '-' ++ body) (hhead : body.head? ≠ some '-') :
    read? (String.ofList text) = some v ↔ ∃ w, Body body w ∧ Number.fitsWide w = true ∧
      v = if minuses = 0 ∨ w = -2 ^ 127 then w else -w := by
  rw [read?_of_cleaned minuses hclean hhead]
  split
  · rename_i hzero
    simp only [readBased?_eq_some_iff, hzero, true_or, if_true]
    exact ⟨fun h => ⟨v, h.1, h.2, rfl⟩, fun ⟨_, hbody, hfits, hv⟩ => hv ▸ ⟨hbody, hfits⟩⟩
  · rename_i hpos
    simp only [Option.map_eq_some_iff, readBased?_eq_some_iff, hpos, false_or, and_assoc]
    refine exists_congr fun w => and_congr_right fun _ => and_congr_right fun hfits => ?_
    rw [Number.negate_eq hfits, eq_comm]

/-- Exactly the texts that spell an integer can be read. -/
theorem read?_eq_some_iff : read? (String.ofList text) = some v ↔ Spells text v := by
  constructor
  · intro h
    have hminuses : (cleaned text).takeWhile (· = '-') =
        List.replicate ((cleaned text).takeWhile (· = '-')).length '-' :=
      List.eq_replicate_of_mem fun c hc => by
        have hminus := List.mem_takeWhile_imp hc
        exact of_decide_eq_true hminus
    have hhead : ((cleaned text).dropWhile (· = '-')).head? ≠ some '-' := by
      intro hhead
      have hfalse := List.head?_dropWhile_not (· = '-') (cleaned text)
      rw [hhead] at hfalse
      cases hfalse
    have hclean : cleaned text = List.replicate ((cleaned text).takeWhile (· = '-')).length '-' ++
        (cleaned text).dropWhile (· = '-') := by
      rw [← hminuses, List.takeWhile_append_dropWhile]
    obtain ⟨w, hw⟩ := (read?_of_cleaned_eq_some_iff _ hclean hhead).1 h
    exact ⟨_, _, w, hclean, hhead, hw⟩
  · rintro ⟨minuses, body, w, hclean, hhead, hw⟩
    exact (read?_of_cleaned_eq_some_iff minuses hclean hhead).2 ⟨w, hw⟩

example : read? "-0x-80000000000000000000000000000000" = some (-2 ^ 127) := by decide +kernel

/-! ## Numerals -/

/-- A numeral: digits with an optional sign, or digits of another base behind its mark, without a
sign.  Nothing at all stands for zero. -/
inductive Numeral : List Char → ℤ → Prop
  | blank : Numeral [] 0
  | decimal {text : List Char} {v : ℤ} (h : Signed 10 text v) : Numeral text v
  | marked {mark : Char} {base : ℕ} {digits : List Char} {n : ℕ} (hmark : baseOf? mark = some base)
    (h : Digits base digits n) : Numeral ('0' :: mark :: digits) n

/-- A text that ends in digits has no suffix. -/
lemma dropSuffix_append_digits (front : List Char) (h : Digits base digits n) (hbase : base ≤ 16) :
    dropSuffix (front ++ digits) = front ++ digits := by
  have hlast : (front ++ digits).getLast? ≠ some 'n' := by
    rw [List.getLast?_append_of_ne_nil _ h.1]
    intro hlast
    exact absurd ((h.2.1 _ (List.mem_of_getLast? hlast)).trans_le hbase) (by decide)
  rw [dropSuffix, if_neg hlast]

/-- There is nothing to clean where a text ends in digits and has no separator before them. -/
lemma cleaned_append_digits (front : List Char) (hfront : '_' ∉ front) (h : Digits base digits n)
    (hbase : base ≤ 16) : cleaned (front ++ digits) = front ++ digits := by
  rw [cleaned, dropSuffix_append_digits front h hbase, List.filter_eq_self]
  intro c hc
  rw [decide_eq_true_iff]
  rintro rfl
  rcases List.mem_append.1 hc with hc | hc
  · exact hfront hc
  · exact absurd ((h.2.1 _ hc).trans_le hbase) (by decide)

lemma wide?_natCast (n : ℕ) :
    Number.wide? n = if -2 ^ 127 < (n : ℤ) ∧ (n : ℤ) < 2 ^ 127 then some (n : ℤ) else none := by
  split
  · exact Number.wide?_eq_some.2 ⟨Number.fitsWide_iff.2 (by omega), rfl⟩
  · exact Number.wide?_eq_none_iff.2 (by omega)

lemma map_negate_wide?_natCast (n : ℕ) :
    (Number.wide? n).map Number.negate =
      if -2 ^ 127 < (-n : ℤ) ∧ (-n : ℤ) < 2 ^ 127 then some (-n : ℤ) else none := by
  rw [wide?_natCast]
  split
  · rw [Option.map_some, Number.negate_eq (Number.fitsWide_iff.2 (by omega)), if_neg (by omega),
      if_pos (by omega)]
  · rw [Option.map_none, if_neg (by omega)]

/-- A numeral is read as what it stands for, if that fits into 128 bits and is not the least such
integer. -/
lemma read?_of_numeral (h : Numeral text v) (hne : text ≠ []) :
    read? (String.ofList text) = if -2 ^ 127 < v ∧ v < 2 ^ 127 then some v else none := by
  have hbody : ∀ (front : List Char) {digits : List Char} {base n : ℕ}, '_' ∉ front →
      Digits base digits n →
      base ≤ 16 → (front ++ digits).head? ≠ some '-' → Body (front ++ digits) n →
      read? (String.ofList (front ++ digits)) =
        if -2 ^ 127 < (n : ℤ) ∧ (n : ℤ) < 2 ^ 127 then some (n : ℤ) else none := by
    intro front digits base n hfront hdigits hbase hhead hbody
    have hclean : cleaned (front ++ digits) = List.replicate 0 '-' ++ (front ++ digits) :=
      cleaned_append_digits front hfront hdigits hbase
    rw [read?_of_cleaned 0 hclean hhead, if_pos rfl, readBased?_of_body hbody, wide?_natCast]
  cases h with
  | blank => exact absurd rfl hne
  | decimal h =>
    cases h with
    | @plain digits n h =>
      exact hbody [] (by decide) h (by decide) (h.head?_ne (by decide)).1
        (.decimal (.plain h))
    | @plus digits n h =>
      exact hbody ['+'] (by decide) h (by decide) (by simp) (.decimal (.plus h))
    | @minus digits n h =>
      have hclean : cleaned ('-' :: digits) = List.replicate 1 '-' ++ digits :=
        cleaned_append_digits ['-'] (by decide) h (by decide)
      rw [read?_of_cleaned 1 hclean (h.head?_ne (by decide)).1, if_neg one_ne_zero,
        readBased?_of_body (.decimal (.plain h)), map_negate_wide?_natCast]
  | @marked mark base digits n hmark h =>
    have hfront : '_' ∉ ['0', mark] := by
      rintro hmem
      obtain rfl : '_' = mark := by simpa using hmem
      cases hmark
    exact hbody ['0', mark] hfront h (baseOf?_le hmark) (by simp)
      (.marked hmark (.plain h))

/-- A numeral spells what it stands for and nothing else. -/
lemma spells_iff_of_numeral (h : Numeral text v) (hne : text ≠ []) :
    Spells text w ↔ w = v ∧ -2 ^ 127 < v ∧ v < 2 ^ 127 := by
  rw [← read?_eq_some_iff, read?_of_numeral h hne]
  split
  · rename_i hrange
    rw [Option.some_inj]
    exact ⟨fun hw => ⟨hw.symm, hrange⟩, fun hw => hw.1.symm⟩
  · rename_i hrange
    exact ⟨fun hw => (by cases hw), fun hw => absurd hw.2 hrange⟩

/-! ## Decimal texts -/

lemma digitValue_of_isDigit {c : Char} (h : c.isDigit = true) :
    digitValue c = c.toNat - '0'.toNat ∧ digitValue c < 10 := by
  have hvalue : digitValue c = c.toNat - '0'.toNat := if_pos h
  rw [Char.isDigit_iff_toNat] at h
  have hends : '0'.toNat = 48 ∧ '9'.toNat = 57 := ⟨rfl, rfl⟩
  exact ⟨hvalue, by omega⟩

lemma digits_digitsOf (n : ℕ) : Digits 10 (Number.digitsOf n) n := by
  have hdigit : ∀ c ∈ Number.digitsOf n, c.isDigit = true := fun c hc =>
    Nat.isDigit_of_mem_toDigits (by decide) (by decide) hc
  refine ⟨Nat.toDigits_ne_nil, fun c hc => (digitValue_of_isDigit (hdigit c hc)).2, ?_⟩
  calc
    n = Nat.ofDigitChars 10 (Number.digitsOf n) 0 := Nat.ofDigitChars_ten_toDigits.symm
    _ = (Number.digitsOf n).foldl (fun n c => 10 * n + (c.toNat - '0'.toNat)) 0 :=
      Nat.ofDigitChars_eq_foldl
    _ = (Number.digitsOf n).foldl (fun n c => 10 * n + digitValue c) 0 :=
      List.foldl_ext _ _ _ fun n c hc => by rw [(digitValue_of_isDigit (hdigit c hc)).1]
    _ = Nat.ofDigits 10 ((Number.digitsOf n).reverse.map digitValue) := foldl_digitValue ..

lemma toList_write (n : ℤ) :
    (write n).toList = (if n < 0 then ['-'] else []) ++ Number.digitsOf n.natAbs := by
  rw [write, Number.signed, String.toList_ofList]
  by_cases hneg : n < 0 <;> simp [hneg]

/-- The decimal text of an integer is a numeral. -/
lemma numeral_write (n : ℤ) : Numeral (write n).toList n := by
  have hdigits := digits_digitsOf n.natAbs
  rw [toList_write]
  split
  · have hminus := Numeral.decimal (.minus hdigits)
    rwa [show -(n.natAbs : ℤ) = n by omega] at hminus
  · have hplain := Numeral.decimal (.plain hdigits)
    rwa [show (n.natAbs : ℤ) = n by omega] at hplain

lemma write_ne_nil (n : ℤ) : (write n).toList ≠ [] := by
  rw [toList_write]
  exact List.append_ne_nil_of_right_ne_nil _ (digits_digitsOf n.natAbs).1

/-- The decimal text of an integer is read as the integer, unless this is the least one of 128
bits. -/
lemma read?_write (h : Number.fitsWide v = true) :
    read? (write v) = if v = -2 ^ 127 then none else some v := by
  have hread := read?_of_numeral (numeral_write v) (write_ne_nil v)
  rw [Number.fitsWide_iff] at h
  rw [String.ofList_toList] at hread
  rw [hread]
  by_cases hleast : v = -2 ^ 127
  · rw [if_pos hleast, if_neg (by omega)]
  · rw [if_neg hleast, if_pos (by omega)]

lemma normalize_write (h : Number.fitsWide v = true) : normalize (write v) = write v := by
  rw [normalize, read?_write h]
  split
  · rename_i w hw
    split at hw
    · cases hw
    · obtain rfl := Option.some.inj hw
      rfl
  · rw [toList_write, dropSuffix_append_digits _ (digits_digitsOf v.natAbs) (by decide),
      ← toList_write, String.ofList_toList]

/-- The texts that are canonical: the decimal texts of integers of 128 bits, and what cannot be read
and has no suffix. -/
lemma normalize_eq_self_iff {text : String} :
    normalize text = text ↔
      (∃ v : ℤ, Number.fitsWide v = true ∧ text = write v) ∨
        read? text = none ∧ text.toList.getLast? ≠ some 'n' := by
  have hsuffix : String.ofList (dropSuffix text.toList) = text ↔
      text.toList.getLast? ≠ some 'n' := by
    rw [dropSuffix]
    split
    · rename_i hlast
      refine iff_of_false (fun heq => ?_) (not_not.2 hlast)
      have hlength := congrArg (fun s => s.toList.length) heq
      simp only [String.toList_ofList, List.length_dropLast] at hlength
      have hpos : text.toList ≠ [] := fun hnil => by
        rw [hnil] at hlast
        cases hlast
      have := List.length_pos_iff.2 hpos
      omega
    · rename_i hlast
      exact iff_of_true String.ofList_toList hlast
  constructor
  · intro h
    rw [normalize] at h
    split at h
    · rename_i v hv
      exact Or.inl ⟨v, fitsWide_of_read? hv, h.symm⟩
    · rename_i hnone
      exact Or.inr ⟨hnone, hsuffix.1 h⟩
  · rintro (⟨v, hv, rfl⟩ | ⟨hnone, hlast⟩)
    · exact normalize_write hv
    · rw [normalize, hnone]
      exact hsuffix.2 hlast

end ValueSchema.Integer
