/-
# Folding late and folding early

An operator on operands that are not known yet gives symbolic operations, and these are computed
once the operands are known.  The result is the same as if the operands had been known at once:
`foldBinary_late`.

The operands are made up of literals and of primitives that stand for inputs.  An input becomes one
literal or several, so that each alternative of an operand becomes a list of literals.  Early folding
applies the operator to all combinations of these literals; late folding does so for one combination
of alternatives after the other.  Both unions stand for the same results.  They lose the like ones
of them and join truth values, but in a different order, and twice on the late side.
-/
import ValueSchema.Proofs.Schema.Results

namespace ValueSchema.Schema

/-! ## Operands -/

/-- A literal that is neither a truth value nor the negative zero. -/
def IsExact (s : Schema) : Prop :=
  ∃ value, s = literal value ∧ (∀ b, value ≠ .boolean b) ∧ value ≠ .number (-0)

/-- A primitive that stands for an input. -/
def IsInput (s : Schema) : Prop := ∃ kind n, s = primitive kind (some n)

/-- An exact literal or an input. -/
abbrev IsSimple (s : Schema) : Prop := s.IsExact ∨ s.IsInput

/-- A schema of exact literals. -/
structure IsSettled (s : Schema) : Prop where
  inhabited : s.alternatives ≠ []
  exact : ∀ t ∈ s.alternatives, t.IsExact

/-- A schema of exact literals and of inputs. -/
structure IsOperand (s : Schema) : Prop where
  inhabited : s.alternatives ≠ []
  simple : ∀ t ∈ s.alternatives, t.IsSimple

/-- The placeholders of a schema stand for exact literals. -/
def Settles (value? : NodeId → Option Schema) (s : Schema) : Prop :=
  ∀ n ∈ s.placeholders, ∃ v, value? n = some v ∧ v.IsSettled

variable {s t u : Schema} {items : List Schema} {value? : NodeId → Option Schema} {cap : Nat}
  {op : BinaryOperator}

namespace IsExact

lemma isResult (h : s.IsExact) : s.IsResult := by
  obtain ⟨value, rfl, -⟩ := h
  exact .literal value

lemma isTruthValue_eq_false (h : s.IsExact) : s.isTruthValue = false := by
  obtain ⟨value, rfl, hboolean, -⟩ := h
  cases value with
  | boolean b => exact absurd rfl (hboolean b)
  | _ => rfl

lemma isSettled (h : s.IsExact) : s.IsSettled := by
  have halternatives := h.isResult.alternatives_eq
  exact ⟨by rw [halternatives]; exact List.cons_ne_nil _ _,
    by rw [halternatives]; exact List.forall_mem_singleton.2 h⟩

lemma refold_eq (h : s.IsExact) (cap : Nat) : s.refold cap = s := by
  obtain ⟨value, rfl, -⟩ := h
  rfl

lemma substitute_eq (h : s.IsExact) (value? : NodeId → Option Schema) :
    s.substitute value? = s := by
  obtain ⟨value, rfl, -⟩ := h
  rfl

lemma eq_of_equal (hs : s.IsExact) (ht : t.IsExact) (h : equal s t = true) : s = t := by
  obtain ⟨value, rfl, -, hvalue⟩ := hs
  obtain ⟨other, rfl, -, hother⟩ := ht
  rw [Literal.eq_of_same h hvalue hother]

lemma sameMember_self (h : s.IsExact) : sameMember s s = true := by
  obtain ⟨value, rfl, -⟩ := h
  simp [sameMember, equal, Literal.same_self]

lemma eq_of_alike (hs : s.IsExact) (ht : t.IsExact) (h : Alike s t) : s = t := by
  rcases h with rfl | h
  · rfl
  · rw [sameMember, Bool.and_eq_true] at h
    exact hs.eq_of_equal ht h.1

end IsExact

lemma IsSimple.alternatives_eq (h : s.IsSimple) : s.alternatives = [s] := by
  rcases h with ⟨_, rfl, -⟩ | ⟨_, _, rfl⟩ <;> rfl

/-- A simple schema is an operand. -/
lemma IsSimple.isOperand (h : s.IsSimple) : s.IsOperand := by
  have hself := h.alternatives_eq
  exact ⟨by rw [hself]; exact List.cons_ne_nil _ _,
    by rw [hself]; exact List.forall_mem_singleton.2 h⟩

/-! ## Filling in the inputs of an operand -/

lemma eq_union_or_alternatives_eq (s : Schema) :
    (∃ items, s = union items) ∨ s.alternatives = [s] := by
  cases s with
  | union items => exact Or.inl ⟨items, rfl⟩
  | _ => exact Or.inr rfl

lemma refold_substitute_union (value? : NodeId → Option Schema) (cap : Nat) (items : List Schema) :
    ((union items).substitute value?).refold cap =
      unionOf (items.map fun t => (t.substitute value?).refold cap) := by
  have hsubstitute : (union items).substitute value? = union (items.map (substitute value?)) :=
    transform_eq _ _ _
  rw [hsubstitute, refold_eq, mapChildren, List.map_map]
  rfl

/-- The alternatives of a schema are the given ones, each once. -/
structure Lists (s : Schema) (values : List Schema) : Prop where
  nodup : s.alternatives.Nodup
  mem_iff : ∀ t, t ∈ s.alternatives ↔ t ∈ values

lemma Lists.length_le {values others : List Schema} (hs : s.Lists values) (ht : t.Lists others)
    (h : values ⊆ others) : s.alternatives.length ≤ t.alternatives.length := by
  refine (List.subperm_of_subset hs.nodup fun x hx => ?_).length_le
  exact (ht.mem_iff x).2 (h ((hs.mem_iff x).1 hx))

/-- A union of exact literals loses only the repetitions. -/
lemma lists_unionOf (hne : items.flatMap alternatives ≠ [])
    (h : ∀ t ∈ items.flatMap alternatives, t.IsExact) :
    (unionOf items).Lists (items.flatMap alternatives) := by
  have hresult : ∀ t ∈ items.flatMap alternatives, t.IsResult := fun t ht => (h t ht).isResult
  have hjoined := joined_unionOf hne hresult
  have hsound : ∀ t ∈ (unionOf items).alternatives, t ∈ items.flatMap alternatives := by
    intro t ht
    rcases hjoined.sound t ht with hin | ⟨-, htrue, -⟩
    · exact hin
    · have hnone := (h _ htrue).isTruthValue_eq_false
      cases hnone
  refine ⟨?_, fun t => ⟨hsound t, fun ht => ?_⟩⟩
  · refine (alternatives_unionOf hne hresult).2.unlike.imp_of_mem fun {a b} ha _ hunlike heq => ?_
    rw [← heq, (h a (hsound a ha)).sameMember_self] at hunlike
    cases hunlike
  · obtain ⟨a, ha, halike | ⟨htruth, -⟩⟩ := hjoined.complete t ht
    · rw [← (h a (hsound a ha)).eq_of_alike (h t ht) halike]
      exact ha
    · rw [(h t ht).isTruthValue_eq_false] at htruth
      cases htruth

lemma IsSettled.lists_refold (h : s.IsSettled) (cap : Nat) :
    (s.refold cap).Lists s.alternatives := by
  cases s with
  | union items =>
    have hrefold : (union items).refold cap = unionOf (items.map (refold cap)) := by
      rw [Schema.refold_eq]
      rfl
    have hself : items.map (refold cap) = items := by
      refine (List.map_congr_left fun t ht => ?_).trans (List.map_id items)
      exact (h.exact t ht).refold_eq cap
    have hflat : items.flatMap alternatives = items :=
      flatMap_eq_self fun t ht => (h.exact t ht).isResult.alternatives_eq
    have hlists : (unionOf items).Lists (items.flatMap alternatives) :=
      lists_unionOf (by rw [hflat]; exact h.inhabited) (by rw [hflat]; exact h.exact)
    rw [hrefold, hself]
    rwa [hflat] at hlists
  | _ =>
    have hexact := h.exact _ (List.mem_singleton_self _)
    rw [hexact.refold_eq cap]
    exact ⟨List.nodup_singleton _, fun _ => Iff.rfl⟩

lemma Settles.of_mem_alternatives (h : Settles value? s) (ht : t ∈ s.alternatives) :
    Settles value? t := by
  have hsubterms : t.subterms ⊆ s.subterms := by
    cases s with
    | union items => exact fun u hu => mem_subterms_of_mem_children ht hu
    | _ =>
      obtain rfl := List.mem_singleton.1 ht
      exact fun _ => id
  intro n hn
  obtain ⟨u, hu, hplaceholder⟩ := List.mem_filterMap.1 hn
  exact h n (List.mem_filterMap.2 ⟨u, hsubterms hu, hplaceholder⟩)

lemma isSettled_substitute (hs : s.IsSimple) (h : Settles value? s) :
    (s.substitute value?).IsSettled := by
  rcases hs with hexact | ⟨kind, n, rfl⟩
  · rw [hexact.substitute_eq]
    exact hexact.isSettled
  · obtain ⟨v, hv, hsettled⟩ := h n (List.mem_singleton_self n)
    have hfilled : (primitive kind (some n)).substitute value? = v := by
      rw [substitute, transform_eq]
      exact congrArg (Option.getD · _) hv
    rwa [hfilled]

/-- The literals that the alternatives of a schema become. -/
def fillings (value? : NodeId → Option Schema) (s : Schema) : List Schema :=
  s.alternatives.flatMap fun t => (t.substitute value?).alternatives

lemma mem_fillings : t ∈ s.fillings value? ↔
    ∃ u ∈ s.alternatives, t ∈ (u.substitute value?).alternatives := List.mem_flatMap

/-- What an operand becomes is what its alternatives become. -/
lemma mem_fillings_iff (hs : s.IsOperand) :
    t ∈ s.fillings value? ↔ ∃ u ∈ s.alternatives, t ∈ u.fillings value? := by
  rw [mem_fillings]
  refine exists_congr fun u => and_congr_right fun hu => ?_
  rw [fillings, (hs.simple u hu).alternatives_eq, List.flatMap_singleton]

section

variable (hs : s.IsOperand) (h : Settles value? s)

include hs h

lemma fillings_ne_nil : s.fillings value? ≠ [] := by
  obtain ⟨t, ht⟩ := List.exists_mem_of_ne_nil _ hs.inhabited
  have hsettled := isSettled_substitute (hs.simple t ht) (h.of_mem_alternatives ht)
  obtain ⟨u, hu⟩ := List.exists_mem_of_ne_nil _ hsettled.inhabited
  exact List.ne_nil_of_mem (mem_fillings.2 ⟨t, ht, hu⟩)

lemma isExact_of_mem_fillings (ht : t ∈ s.fillings value?) : t.IsExact := by
  obtain ⟨u, hu, htu⟩ := mem_fillings.1 ht
  exact (isSettled_substitute (hs.simple u hu) (h.of_mem_alternatives hu)).exact t htu

/-- An operand whose inputs are filled in has the literals that its alternatives become. -/
lemma lists_fillings (cap : Nat) :
    ((s.substitute value?).refold cap).Lists (s.fillings value?) := by
  rcases eq_union_or_alternatives_eq s with ⟨items, rfl⟩ | hself
  · have hsettled : ∀ t ∈ items, (t.substitute value?).IsSettled := fun t ht =>
      isSettled_substitute (hs.simple t ht) (h.of_mem_alternatives ht)
    have hmem : ∀ x, x ∈ (items.map fun t => (t.substitute value?).refold cap).flatMap alternatives ↔
        x ∈ (union items).fillings value? := by
      intro x
      rw [mem_fillings, List.flatMap_map, List.mem_flatMap]
      refine exists_congr fun t => and_congr_right fun ht => ?_
      exact ((hsettled t ht).lists_refold cap).mem_iff x
    have hne : (items.map fun t => (t.substitute value?).refold cap).flatMap alternatives ≠ [] := by
      obtain ⟨t, ht⟩ := List.exists_mem_of_ne_nil _ (fillings_ne_nil hs h)
      exact List.ne_nil_of_mem ((hmem t).2 ht)
    have hlists := lists_unionOf hne fun t ht => isExact_of_mem_fillings hs h ((hmem t).1 ht)
    rw [refold_substitute_union]
    exact ⟨hlists.nodup, fun x => (hlists.mem_iff x).trans (hmem x)⟩
  · have hmem : s ∈ s.alternatives := by
      rw [hself]
      exact List.mem_singleton_self s
    rw [fillings, hself, List.flatMap_singleton]
    exact (isSettled_substitute (hs.simple s hmem) h).lists_refold cap

lemma isSettled_refold_substitute (cap : Nat) : ((s.substitute value?).refold cap).IsSettled := by
  have hlists := lists_fillings hs h cap
  obtain ⟨t, ht⟩ := List.exists_mem_of_ne_nil _ (fillings_ne_nil hs h)
  exact ⟨List.ne_nil_of_mem ((hlists.mem_iff t).2 ht), fun u hu =>
    isExact_of_mem_fillings hs h ((hlists.mem_iff u).1 hu)⟩

end

/-! ## Applying an operator to all combinations -/

/-- An operator on all combinations of the schemas of two lists. -/
def foldAll (op : BinaryOperator) (lefts rights : List Schema) : List Schema :=
  lefts.flatMap fun a => rights.map (foldPair op a)

lemma mem_foldAll {lefts rights : List Schema} :
    s ∈ foldAll op lefts rights ↔ ∃ a ∈ lefts, ∃ b ∈ rights, foldPair op a b = s := by
  simp [foldAll]

lemma foldAll_ne_nil {lefts rights : List Schema} (hlefts : lefts ≠ []) (hrights : rights ≠ []) :
    foldAll op lefts rights ≠ [] := by
  obtain ⟨a, ha⟩ := List.exists_mem_of_ne_nil _ hlefts
  obtain ⟨b, hb⟩ := List.exists_mem_of_ne_nil _ hrights
  exact List.ne_nil_of_mem (mem_foldAll.2 ⟨a, ha, b, hb, rfl⟩)

lemma foldAll_subset {lefts rights lefts' rights' : List Schema} (hl : lefts ⊆ lefts')
    (hr : rights ⊆ rights') : foldAll op lefts rights ⊆ foldAll op lefts' rights' := by
  intro x hx
  obtain ⟨a, ha, b, hb, rfl⟩ := mem_foldAll.1 hx
  exact mem_foldAll.2 ⟨a, hl ha, b, hr hb, rfl⟩

section

variable (hop : op.isLogical = false)

include hop

/-- An operator other than the logical ones computes two literals, or stays symbolic. -/
lemma foldPair_cases (left right : Schema) :
    (∃ l r value, left = literal l ∧ right = literal r ∧ foldPair op left right = literal value) ∨
      foldPair op left right = binary op left right := by
  rw [foldPair]
  cases left with
  | literal l =>
    cases right with
    | literal r =>
      cases op with
      | logicalAnd | logicalOr | nullishCoalescing | comma => cases hop
      | _ =>
        simp only [literal?, Option.bind_some]
        split
        · exact Or.inl ⟨l, r, _, rfl, rfl, rfl⟩
        · exact Or.inr rfl
    | _ =>
      cases op with
      | logicalAnd | logicalOr | nullishCoalescing | comma => cases hop
      | _ => exact Or.inr rfl
  | _ => exact Or.inr rfl

lemma isResult_foldPair (left right : Schema) : (foldPair op left right).IsResult := by
  rcases foldPair_cases hop left right with ⟨_, _, value, -, -, heq⟩ | heq
  · rw [heq]
    exact .literal value
  · rw [heq]
    exact .binary op left right

lemma equal_foldPair_self (hs : s.IsExact) (ht : t.IsExact) :
    equal (foldPair op s t) (foldPair op s t) = true := by
  obtain ⟨value, rfl, -⟩ := hs
  obtain ⟨other, rfl, -⟩ := ht
  rcases foldPair_cases hop (literal value) (literal other) with ⟨_, _, result, -, -, heq⟩ | heq
  · rw [heq]
    exact result.same_self
  · rw [heq]
    simp [equal, Literal.same_self]

lemma flatMap_alternatives_foldAll (lefts rights : List Schema) :
    (foldAll op lefts rights).flatMap alternatives = foldAll op lefts rights := by
  refine flatMap_eq_self fun s hs => ?_
  obtain ⟨a, -, b, -, rfl⟩ := mem_foldAll.1 hs
  exact (isResult_foldPair hop a b).alternatives_eq

lemma isResult_of_mem_foldAll {lefts rights : List Schema} (hs : s ∈ foldAll op lefts rights) :
    s.IsResult := by
  obtain ⟨a, -, b, -, rfl⟩ := mem_foldAll.1 hs
  exact isResult_foldPair hop a b

/-- The union over all combinations stands for the results. -/
lemma joined_unionOf_foldAll {lefts rights : List Schema} (hlefts : lefts ≠ [])
    (hrights : rights ≠ []) :
    Joined Alike (foldAll op lefts rights) (unionOf (foldAll op lefts rights)).alternatives := by
  have hflat := flatMap_alternatives_foldAll hop lefts rights
  have hjoined := @joined_unionOf (foldAll op lefts rights)
  rw [hflat] at hjoined
  exact hjoined (foldAll_ne_nil hlefts hrights) fun s hs => isResult_of_mem_foldAll hop hs

/-- Early folding stands for the results on all combinations of the literals. -/
lemma standsFor_foldBinary (hs : s.IsSettled) (ht : t.IsSettled)
    (hcap : s.alternatives.length * t.alternatives.length ≤ cap) :
    (foldBinary op s t cap).StandsFor (foldAll op s.alternatives t.alternatives) := by
  have hcomma : op ≠ .comma := by
    rintro rfl
    cases hop
  have hle : s.alternatives.length ≤ cap :=
    Nat.le_trans (Nat.le_mul_of_pos_right _ (List.length_pos_iff.2 ht.inhabited)) hcap
  have hfold : foldBinary op s t cap = unionOf (foldAll op s.alternatives t.alternatives) := by
    rw [foldBinary_eq hcomma, if_pos ⟨hle, hcap⟩]
    rfl
  have hself : Joined Equals (foldAll op s.alternatives t.alternatives)
      (foldAll op s.alternatives t.alternatives) := by
    refine ⟨fun x hx => Or.inl hx, fun x hx => ⟨x, hx, Or.inl ?_⟩⟩
    obtain ⟨a, ha, b, hb, rfl⟩ := mem_foldAll.1 hx
    exact equal_foldPair_self hop (hs.exact a ha) (ht.exact b hb)
  have hstands := @standsFor_unionOf (foldAll op s.alternatives t.alternatives)
    (foldAll op s.alternatives t.alternatives)
  rw [flatMap_alternatives_foldAll hop] at hstands
  rw [hfold]
  exact hstands (foldAll_ne_nil hs.inhabited ht.inhabited)
    (fun x hx => isResult_of_mem_foldAll hop hx) hself

end

/-! ## One combination after the other -/

lemma placeholders_binary (op : BinaryOperator) (left right : Schema) :
    (binary op left right).placeholders = left.placeholders ++ right.placeholders := by
  simp [placeholders, subterms, placeholder?, isError, origin?]

/-- Simple schemas that are equal and stand for the same inputs are identical. -/
lemma eq_of_simple (hs : s.IsSimple) (ht : t.IsSimple) (h : equal s t = true) :
    s.placeholders.length = t.placeholders.length ∧
      (s.placeholders = t.placeholders → s = t) := by
  rcases hs with hs | ⟨kind, n, rfl⟩
  · rcases ht with ht | ⟨kind, n, rfl⟩
    · obtain rfl := hs.eq_of_equal ht h
      exact ⟨rfl, fun _ => rfl⟩
    · obtain ⟨value, rfl, -⟩ := hs
      cases h
  · rcases ht with ⟨value, rfl, -⟩ | ⟨other, m, rfl⟩
    · cases h
    · refine ⟨rfl, fun hplaceholders => ?_⟩
      obtain rfl : kind = other := by simpa [equal] using h
      obtain rfl : n = m := List.singleton_injective hplaceholders
      rfl

/-- Like operations on simple operands are identical: they stand for the same inputs in order. -/
lemma eq_of_sameMember_binary {left right left' right' : Schema} (hleft : left.IsSimple)
    (hright : right.IsSimple) (hleft' : left'.IsSimple) (hright' : right'.IsSimple)
    (h : sameMember (binary op left right) (binary op left' right') = true) :
    binary op left right = binary op left' right' := by
  rw [sameMember, equal, Bool.and_eq_true, Bool.and_eq_true, Bool.and_eq_true,
    placeholders_binary, placeholders_binary] at h
  obtain ⟨⟨⟨-, hequal⟩, hequal'⟩, hplaceholders⟩ := h
  obtain ⟨hlength, heq⟩ := eq_of_simple hleft hleft' hequal
  obtain ⟨-, heq'⟩ := eq_of_simple hright hright' hequal'
  obtain ⟨hfirst, hsecond⟩ := List.append_inj (beq_iff_eq.1 hplaceholders) hlength
  rw [heq hfirst, heq' hsecond]

section

variable (hop : op.isLogical = false)

include hop

/-- Early folding stands for the results on the literals that the operands become. -/
lemma standsFor_early (hs : s.IsOperand) (ht : t.IsOperand) (hsettles : Settles value? s)
    (hsettles' : Settles value? t)
    (hcap : ((s.substitute value?).refold cap).alternatives.length *
      ((t.substitute value?).refold cap).alternatives.length ≤ cap) :
    (foldBinary op ((s.substitute value?).refold cap) ((t.substitute value?).refold cap)
      cap).StandsFor (foldAll op (s.fillings value?) (t.fillings value?)) := by
  have hmem := (lists_fillings hs hsettles cap).mem_iff
  have hmem' := (lists_fillings ht hsettles' cap).mem_iff
  have hstands := standsFor_foldBinary hop (isSettled_refold_substitute hs hsettles cap)
    (isSettled_refold_substitute ht hsettles' cap) hcap
  exact hstands.congr fun x => by simp only [mem_foldAll, hmem, hmem']

/-- Operands that give a literal are literals, and have no inputs to fill in. -/
lemma foldAll_fillings_of_literal {value : Literal} (h : foldPair op s t = literal value)
    (value? : NodeId → Option Schema) :
    foldAll op (s.fillings value?) (t.fillings value?) = [literal value] := by
  rcases foldPair_cases hop s t with ⟨l, r, _, rfl, rfl, -⟩ | heq
  · exact congrArg (fun x => [x]) h
  · rw [heq] at h
    cases h

/-- Late folding of one combination of simple operands stands for the results on the literals that
these become. -/
lemma standsFor_refold_foldPair (hs : s.IsSimple) (ht : t.IsSimple) (hsettles : Settles value? s)
    (hsettles' : Settles value? t)
    (hcap : ((s.substitute value?).refold cap).alternatives.length *
      ((t.substitute value?).refold cap).alternatives.length ≤ cap) :
    (((foldPair op s t).substitute value?).refold cap).StandsFor
      (foldAll op (s.fillings value?) (t.fillings value?)) := by
  rcases foldPair_cases hop s t with ⟨l, r, value, -, -, heq⟩ | heq
  · rw [foldAll_fillings_of_literal hop heq, heq]
    exact standsFor_literal value
  · rw [heq, refold_substitute_binary]
    exact standsFor_early hop hs.isOperand ht.isOperand hsettles hsettles' hcap

/-- A result on simple operands that is like another one is identical with it, or both are
literals. -/
lemma foldPair_of_alike {s' t' : Schema} (hs : s.IsSimple) (ht : t.IsSimple) (hs' : s'.IsSimple)
    (ht' : t'.IsSimple) (h : Alike (foldPair op s t) (foldPair op s' t')) :
    foldPair op s t = foldPair op s' t' ∨ ∃ value other, foldPair op s t = literal value ∧
      foldPair op s' t' = literal other ∧ equal (literal value) (literal other) = true := by
  rcases h with heq | hlike
  · exact Or.inl heq
  have hequal := (Bool.and_eq_true_iff.1 hlike).1
  rcases foldPair_cases hop s t with ⟨_, _, value, -, -, heq⟩ | heq <;>
    rcases foldPair_cases hop s' t' with ⟨_, _, other, -, -, heq'⟩ | heq' <;>
    rw [heq, heq'] at hlike hequal ⊢
  · exact Or.inr ⟨value, other, rfl, rfl, hequal⟩
  · cases hequal
  · cases hequal
  · exact Or.inl (eq_of_sameMember_binary hs ht hs' ht' hlike)

/-- No single result is like the type of both truth values. -/
lemma not_alike_boolean (left right : Schema) :
    ¬Alike (plain .boolean) (foldPair op left right) := by
  rintro (heq | hlike)
  · rcases foldPair_cases hop left right with ⟨_, _, value, -, -, heq'⟩ | heq' <;>
      rw [heq'] at heq <;> cases heq
  · have hequal := (Bool.and_eq_true_iff.1 hlike).1
    rcases foldPair_cases hop left right with ⟨_, _, value, -, -, heq'⟩ | heq' <;>
      rw [heq'] at hequal <;> cases hequal

end

/-! ## All combinations -/

section

variable (hop : op.isLogical = false) (hs : s.IsOperand) (ht : t.IsOperand)

include hs ht in
lemma foldAll_fillings_subset {a b : Schema} (ha : a ∈ s.alternatives) (hb : b ∈ t.alternatives) :
    foldAll op (a.fillings value?) (b.fillings value?) ⊆
      foldAll op (s.fillings value?) (t.fillings value?) :=
  foldAll_subset (fun _ hx => (mem_fillings_iff hs).2 ⟨a, ha, hx⟩)
    fun _ hx => (mem_fillings_iff ht).2 ⟨b, hb, hx⟩

include hop hs ht in
/-- A literal result needs no inputs, and stays a result once these are filled in. -/
lemma literal_mem_foldAll_fillings {value : Literal}
    (h : literal value ∈ foldAll op s.alternatives t.alternatives) :
    literal value ∈ foldAll op (s.fillings value?) (t.fillings value?) := by
  obtain ⟨a, ha, b, hb, heq⟩ := mem_foldAll.1 h
  refine foldAll_fillings_subset hs ht ha hb ?_
  rw [foldAll_fillings_of_literal hop heq]
  exact List.mem_singleton_self _

variable (hsettles : Settles value? s) (hsettles' : Settles value? t)
  (hcap : ((s.substitute value?).refold cap).alternatives.length *
    ((t.substitute value?).refold cap).alternatives.length ≤ cap)

include hop hs ht hsettles hsettles' hcap

/-- Late folding of one combination of the alternatives of two operands. -/
lemma standsFor_refold_of_mem {a b : Schema} (ha : a ∈ s.alternatives) (hb : b ∈ t.alternatives) :
    (((foldPair op a b).substitute value?).refold cap).StandsFor
      (foldAll op (a.fillings value?) (b.fillings value?)) := by
  have ha' := hs.simple a ha
  have hb' := ht.simple b hb
  have hsa := hsettles.of_mem_alternatives ha
  have hsb := hsettles'.of_mem_alternatives hb
  refine standsFor_refold_foldPair hop ha' hb' hsa hsb (Nat.le_trans (Nat.mul_le_mul ?_ ?_) hcap)
  · exact (lists_fillings ha'.isOperand hsa cap).length_le
      (lists_fillings hs hsettles cap) fun _ hx => (mem_fillings_iff hs).2 ⟨a, ha, hx⟩
  · exact (lists_fillings hb'.isOperand hsb cap).length_le
      (lists_fillings ht hsettles' cap) fun _ hx => (mem_fillings_iff ht).2 ⟨b, hb, hx⟩

/-- What a combination becomes is found in the member that stands for it. -/
lemma exists_mem_refold_of_alike {a b x y : Schema} (ha : a ∈ s.alternatives)
    (hb : b ∈ t.alternatives) (hx : x ∈ foldAll op (a.fillings value?) (b.fillings value?))
    (hy : y ∈ (unionOf (foldAll op s.alternatives t.alternatives)).alternatives)
    (halike : Alike y (foldPair op a b)) :
    ∃ u ∈ ((y.substitute value?).refold cap).alternatives,
      Equals u x ∨ (x.isTruthValue = true ∧ u = plain .boolean) := by
  have hjoined := joined_unionOf_foldAll hop hs.inhabited ht.inhabited
  rcases hjoined.sound y hy with hin | ⟨rfl, -⟩
  · obtain ⟨a', ha', b', hb', rfl⟩ := mem_foldAll.1 hin
    rcases foldPair_of_alike hop (hs.simple a' ha') (ht.simple b' hb') (hs.simple a ha)
      (ht.simple b hb) halike with heq | ⟨value, other, heq, heq', hequal⟩
    · rw [heq]
      exact (standsFor_refold_of_mem hop hs ht hsettles hsettles' hcap ha hb).joined.complete x hx
    · rw [foldAll_fillings_of_literal hop heq'] at hx
      rw [heq, List.mem_singleton.1 hx]
      exact ⟨literal value, List.mem_singleton_self _, Or.inl hequal⟩
  · exact absurd halike (not_alike_boolean hop a b)

/-- Late folding of the members of the union over all combinations stands for the results on the
literals that the operands become. -/
lemma joined_flatMap_refold :
    Joined Equals (foldAll op (s.fillings value?) (t.fillings value?))
      ((unionOf (foldAll op s.alternatives t.alternatives)).alternatives.flatMap fun y =>
        ((y.substitute value?).refold cap).alternatives) := by
  have hjoined := joined_unionOf_foldAll hop hs.inhabited ht.inhabited
  refine ⟨fun x hx => ?_, fun x hx => ?_⟩
  · obtain ⟨y, hy, hxy⟩ := List.mem_flatMap.1 hx
    rcases hjoined.sound y hy with hin | ⟨rfl, htrue, hfalse⟩
    · obtain ⟨a, ha, b, hb, rfl⟩ := mem_foldAll.1 hin
      have hsubset : foldAll op (a.fillings value?) (b.fillings value?) ⊆
          foldAll op (s.fillings value?) (t.fillings value?) := foldAll_fillings_subset hs ht ha hb
      have hpair := standsFor_refold_of_mem hop hs ht hsettles hsettles' hcap ha hb
      exact (hpair.joined.sound x hxy).imp (hsubset ·)
        (And.imp_right (And.imp (hsubset ·) (hsubset ·)))
    · exact Or.inr ⟨List.mem_singleton.1 hxy, literal_mem_foldAll_fillings hop hs ht htrue,
        literal_mem_foldAll_fillings hop hs ht hfalse⟩
  · obtain ⟨p, hp, q, hq, rfl⟩ := mem_foldAll.1 hx
    obtain ⟨a, ha, hpa⟩ := (mem_fillings_iff hs).1 hp
    obtain ⟨b, hb, hqb⟩ := (mem_fillings_iff ht).1 hq
    have hpq : foldPair op p q ∈ foldAll op (a.fillings value?) (b.fillings value?) :=
      mem_foldAll.2 ⟨p, hpa, q, hqb, rfl⟩
    obtain ⟨y, hy, halike | ⟨htruth, rfl⟩⟩ := hjoined.complete _ (mem_foldAll.2 ⟨a, ha, b, hb, rfl⟩)
    · obtain ⟨u, hu, hux⟩ := exists_mem_refold_of_alike hop hs ht hsettles hsettles' hcap ha hb hpq
        hy halike
      exact ⟨u, List.mem_flatMap.2 ⟨y, hy, hu⟩, hux⟩
    · obtain ⟨c, hc⟩ := isTruthValue_iff.1 htruth
      rw [foldAll_fillings_of_literal hop hc] at hpq
      rw [List.mem_singleton.1 hpq]
      exact ⟨plain .boolean, List.mem_flatMap.2 ⟨_, hy, List.mem_singleton_self _⟩,
        Or.inr ⟨rfl, rfl⟩⟩

/-- Late folding of the union over all combinations stands for the results on the literals that the
operands become. -/
lemma standsFor_refold_unionOf :
    (((unionOf (foldAll op s.alternatives t.alternatives)).substitute value?).refold cap).StandsFor
      (foldAll op (s.fillings value?) (t.fillings value?)) := by
  have hflat := joined_flatMap_refold hop hs ht hsettles hsettles' hcap
  have hjoined := joined_unionOf_foldAll hop hs.inhabited ht.inhabited
  generalize unionOf (foldAll op s.alternatives t.alternatives) = joint at hflat hjoined
  rcases eq_union_or_alternatives_eq joint with ⟨items, rfl⟩ | hself
  · have hmembers : (items.map fun y => (y.substitute value?).refold cap).flatMap alternatives =
        items.flatMap fun y => ((y.substitute value?).refold cap).alternatives :=
      List.flatMap_map ..
    rw [alternatives, ← hmembers] at hflat
    rw [refold_substitute_union]
    refine standsFor_unionOf ?_ (fun x hx => ?_) hflat
    · have hne : foldAll op (s.fillings value?) (t.fillings value?) ≠ [] :=
        foldAll_ne_nil (fillings_ne_nil hs hsettles) (fillings_ne_nil ht hsettles')
      obtain ⟨x, hx⟩ := List.exists_mem_of_ne_nil _ hne
      obtain ⟨u, hu, -⟩ := hflat.complete x hx
      exact List.ne_nil_of_mem hu
    · rcases hflat.sound x hx with hin | ⟨rfl, -⟩
      · exact isResult_of_mem_foldAll hop hin
      · exact .boolean
  · have hmem : joint ∈ joint.alternatives := by
      rw [hself]
      exact List.mem_singleton_self joint
    rw [hself, List.flatMap_singleton] at hflat
    refine ⟨hflat, ?_⟩
    rcases hjoined.sound joint hmem with hin | ⟨rfl, -⟩
    · obtain ⟨a, ha, b, hb, rfl⟩ := mem_foldAll.1 hin
      exact (standsFor_refold_of_mem hop hs ht hsettles hsettles' hcap ha hb).tidy
    · exact tidy_singleton _

end

/-- Late folding equals early folding.  An operator that does not select one of its operands gives
the same alternatives whether its inputs are filled in after it has been applied or before, as long
as the combinations of the values filled in are within the cap. -/
theorem foldBinary_late (op : BinaryOperator) (hop : op.isLogical = false) (left right : Schema)
    (hleft : left.IsOperand) (hright : right.IsOperand) (value? : NodeId → Option Schema)
    (hsettles : Settles value? left) (hsettles' : Settles value? right) (cap : Nat)
    (hcap : ((left.substitute value?).refold cap).alternatives.length *
      ((right.substitute value?).refold cap).alternatives.length ≤ cap) :
    SameAlternatives (((foldBinary op left right cap).substitute value?).refold cap)
      (foldBinary op ((left.substitute value?).refold cap) ((right.substitute value?).refold cap)
        cap) := by
  have hcomma : op ≠ .comma := by
    rintro rfl
    cases hop
  -- both sides stand for the operator on all combinations of the literals that are filled in
  have hearly := standsFor_early hop hleft hright hsettles hsettles' hcap
  have hlate : (((foldBinary op left right cap).substitute value?).refold cap).StandsFor
      (foldAll op (left.fillings value?) (right.fillings value?)) := by
    rw [foldBinary_eq hcomma left right cap]
    split
    · exact standsFor_refold_unionOf hop hleft hright hsettles hsettles' hcap
    · rw [refold_substitute_binary]
      exact hearly
  refine hlate.sameAlternatives (fun h => ?_) hearly
  obtain ⟨a, -, b, -, heq⟩ := mem_foldAll.1 h
  exact not_alike_boolean hop a b (Or.inl heq.symm)

lemma isExact_number {x : Float} (h : (x == 0) = false) : (literal (.number x)).IsExact := by
  refine ⟨.number x, rfl, fun b hb => Literal.noConfusion hb, fun hx => ?_⟩
  rw [Literal.number.inj hx] at h
  exact absurd h (by decide)

/-- The number one, or an input. -/
def oneOrInput : Schema := union [literal (.number 1), primitive .number (some ⟨0⟩)]

/-- Every input is three or four. -/
def threeOrFour (_ : NodeId) : Option Schema :=
  some (union [literal (.number 3), literal (.number 4)])

/-- One is less than two and the input is not, so that either truth value may come out.  That is
seen at once, or once the input is known. -/
theorem foldBinary_late_oneOrInput :
    ((foldBinary .lessThan oneOrInput (literal (.number 2)) 3).substitute threeOrFour).refold 3 =
        plain .boolean ∧
      SameAlternatives
        (((foldBinary .lessThan oneOrInput (literal (.number 2)) 3).substitute
          threeOrFour).refold 3)
        (foldBinary .lessThan ((oneOrInput.substitute threeOrFour).refold 3)
          (((literal (.number 2)).substitute threeOrFour).refold 3) 3) := by
  have hleft : oneOrInput.IsOperand := by
    refine ⟨List.cons_ne_nil _ _, List.forall_mem_cons.2 ⟨Or.inl (isExact_number rfl), ?_⟩⟩
    exact List.forall_mem_singleton.2 (Or.inr ⟨_, _, rfl⟩)
  have hright : (literal (.number 2)).IsOperand :=
    IsSimple.isOperand (Or.inl (isExact_number rfl))
  have hvalues : (union [literal (.number 3), literal (.number 4)]).IsSettled := by
    refine ⟨List.cons_ne_nil _ _, List.forall_mem_cons.2 ⟨isExact_number rfl, ?_⟩⟩
    exact List.forall_mem_singleton.2 (isExact_number rfl)
  exact ⟨rfl, foldBinary_late .lessThan rfl _ _ hleft hright threeOrFour
    (fun _ _ => ⟨_, rfl, hvalues⟩) (fun _ _ => ⟨_, rfl, hvalues⟩) 3 (Nat.le_refl 3)⟩
end ValueSchema.Schema
