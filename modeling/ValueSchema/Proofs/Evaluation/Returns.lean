/-
# The return statements of a function

The return statements of a function are collected on the way down from its body, which goes neither
into other functions nor into the statements that it finds.  The function around a node is found on the
way up.  In a tree that is built from the leaves up, in which no node is used twice, the two agree:
below a node that belongs to the function, all nodes do until another function begins, and below that
one none does any more.  A return statement inside another one would only be seen on the way up.
-/
import ValueSchema.Evaluation.Invocation
import ValueSchema.Proofs.Program.BottomUp
import ValueSchema.Proofs.Program.Reference

namespace ValueSchema

/-- Whether a form is a return statement. -/
def Form.isReturn : Form → Bool
  | .returnStatement _ => true
  | _ => false

namespace Tree

variable {t : Tree} {m n c p f body : NodeId}

/-- A node is a return statement of a function: the innermost function around it is this one. -/
def IsReturnOf (t : Tree) (f n : NodeId) : Prop :=
  (t.form? n).any Form.isReturn = true ∧ t.enclosingFunction? n = some f

instance (t : Tree) (f : NodeId) : DecidablePred (t.IsReturnOf f) :=
  fun n => inferInstanceAs (Decidable (_ ∧ t.enclosingFunction? n = some f))

/-! ## Inside a node -/

lemma Tidy.mem_preorder_iff (h : t.Tidy) : m ∈ t.preorder n ↔ t.Under m n := by
  constructor
  · exact h.under_of_mem_preorder
  · intro hunder
    induction hunder with
    | refl =>
      rw [h.preorder_eq]
      exact List.mem_cons_self
    | tail _ hp ih =>
      rw [h.preorder_eq]
      exact List.mem_cons_of_mem _ (List.mem_flatMap.2 ⟨_, h.parent_iff.1 hp, ih⟩)

/-- Behind a node, the order of the source lists what it is around. -/
lemma Tidy.mem_flatMap_preorder_iff (h : t.Tidy) :
    m ∈ (t.children n).flatMap t.preorder ↔ t.Above n m := by
  simp only [List.mem_flatMap, h.mem_preorder_iff, ← h.parent_iff, Above,
    Relation.TransGen.tail'_iff]
  exact exists_congr fun c => and_comm

/-- The form that the search on the way up asks for is that of a function. -/
lemma any_isFunction (t : Tree) (n : NodeId) : (t.form? n).any Form.isFunction = t.isFunction n := by
  rw [isFunction, function?]
  cases t.form? n <;> rfl

/-- A child of a function stands in that function, and any other child in the function that the node
around it stands in. -/
lemma Tidy.enclosingFunction?_child (h : t.Tidy) (hc : c ∈ t.children n) :
    t.enclosingFunction? c = if t.isFunction n then some n else t.enclosingFunction? n := by
  rw [enclosingFunction?, findAncestor?, h.ancestors_eq, h.parent_iff.2 hc]
  dsimp only
  rw [List.find?_cons, any_isFunction]
  cases t.isFunction n <;> rfl

/-- Nothing inside another function belongs to the functions around it. -/
lemma Layered.enclosingFunction?_ne_of_above (h : t.Layered) (hc : t.isFunction c = true)
    (houter : t.enclosingFunction? c = some f) (habove : t.Above c m) :
    t.enclosingFunction? m ≠ some f := by
  intro hinner
  -- `c` is a function above `m`, so that `f` is no further up than `c`, but it is above `c`
  have hle := (h.findAncestor?_eq_some_iff.1 hinner).first c habove ((any_isFunction t c).trans hc)
  have hlt := h.index_lt_of_above (h.findAncestor?_eq_some_iff.1 houter).above
  omega

end Tree

namespace Evaluation

variable {t : Tree} {m n c f body : NodeId}

/-- On the way down a return statement is taken, a function is passed by, and any other node is
entered. -/
lemma returnsWithin_succ (t : Tree) (fuel : Nat) (n : NodeId) :
    returnsWithin t (fuel + 1) n = (t.children n).flatMap fun c =>
      if (t.form? c).any Form.isReturn then [c]
      else if t.isFunction c then [] else returnsWithin t fuel c := by
  rw [returnsWithin]
  refine List.flatMap_congr fun c _ => ?_
  rw [Tree.isFunction, Tree.function?]
  cases hform : t.form? c with
  | none =>
    -- a node that is not in the tree is entered, but there is nothing to find
    have hnone : returnsWithin t fuel c = [] := by
      cases fuel with
      | zero => rfl
      | succ fuel => rw [returnsWithin, Tree.children, hform]; rfl
    rw [hnone]
    rfl
  | some form => cases form <;> rfl

/-- If the children of a node belong to a function, then on the way down from the node exactly the
return statements of that function are found.  The induction follows the way down. -/
lemma returnsWithin_eq (h : t.Layered) (htidy : t.Tidy)
    (hnested : ∀ r r', t.IsReturnOf f r → t.IsReturnOf f r' → ¬ t.Above r r') (fuel : Nat)
    (hfuel : n.index < fuel) (howner : ∀ c ∈ t.children n, t.enclosingFunction? c = some f) :
    returnsWithin t fuel n =
      ((t.children n).flatMap t.preorder).filter fun m => t.IsReturnOf f m := by
  induction fuel generalizing n with
  | zero => exact absurd hfuel (Nat.not_lt_zero _)
  | succ fuel ih =>
    rw [returnsWithin_succ, List.filter_flatMap]
    refine List.flatMap_congr fun c hc => ?_
    have hnone : (∀ m, t.Above c m → ¬ t.IsReturnOf f m) →
        ((t.children c).flatMap t.preorder).filter (fun m => t.IsReturnOf f m) = [] := by
      intro hinside
      rw [List.filter_eq_nil_iff]
      exact fun m hm => by simpa using hinside m (htidy.mem_flatMap_preorder_iff.1 hm)
    rw [htidy.preorder_eq, List.filter_cons]
    by_cases hreturn : (t.form? c).any Form.isReturn = true
    · -- the statement is found, and there is no other one inside it
      have hself : t.IsReturnOf f c := ⟨hreturn, howner c hc⟩
      rw [if_pos hreturn, if_pos (decide_eq_true hself), hnone fun m => ?_]
      exact fun habove hm => hnested c m hself hm habove
    · have hself : decide (t.IsReturnOf f c) = false := decide_eq_false fun hself => hreturn hself.1
      rw [if_neg hreturn, hself, if_neg Bool.false_ne_true]
      by_cases hfunction : t.isFunction c = true
      · -- what returns inside another function does not return from this one
        rw [if_pos hfunction, hnone fun m => ?_]
        exact fun habove hm =>
          h.enclosingFunction?_ne_of_above hfunction (howner c hc) habove hm.2
      · have hlt := h.older hc
        rw [if_neg hfunction]
        refine ih (by omega) fun d hd => ?_
        rw [htidy.enclosingFunction?_child hd, if_neg hfunction, howner c hc]

/-- In a tree that is built from the leaves up, in which no node is used as a child twice, the block of
a function has exactly those return statements inside it that have the function as the innermost one
around them, each once and in the order of the source, unless such a statement stands in another one. -/
theorem returns_eq_filter_preorder (h : t.BottomUp) (honce : t.UsesOnce) {function : FunctionForm}
    {statements : List NodeId} (hf : t.function? f = some function)
    (hbody : function.body = some body) (hblock : t.form? body = some (.block statements))
    (hnested : ∀ r r', t.IsReturnOf f r → t.IsReturnOf f r' → ¬ t.Above r r') :
    returns t body = (t.preorder body).filter (fun n => t.IsReturnOf f n) ∧
      (returns t body).Nodup ∧
      ∀ n, n ∈ returns t body ↔ t.Above body n ∧ t.IsReturnOf f n := by
  have htidy := h.layered.tidy honce
  have hfunction : t.isFunction f = true := by rw [Tree.isFunction, hf]; rfl
  have hchild : body ∈ t.children f := by
    rw [Tree.children_of_function hf, Form.functionChildren, hbody]
    exact List.mem_append_right _ List.mem_cons_self
  have hplain : t.isFunction body = false := by rw [Tree.isFunction, Tree.function?, hblock]; rfl
  have howner : ∀ c ∈ t.children body, t.enclosingFunction? c = some f := by
    intro c hc
    rw [htidy.enclosingFunction?_child hc, hplain, if_neg Bool.false_ne_true,
      htidy.enclosingFunction?_child hchild, if_pos hfunction]
  have hreturns : returns t body =
      ((t.children body).flatMap t.preorder).filter fun n => t.IsReturnOf f n :=
    returnsWithin_eq h.layered htidy hnested _
      (Nat.lt_succ_of_lt (Tree.index_lt_of_form hblock)) howner
  have hself : decide (t.IsReturnOf f body) = false := by
    refine decide_eq_false fun hself => ?_
    have hreturn := hself.1
    rw [hblock] at hreturn
    cases hreturn
  have heq : returns t body = (t.preorder body).filter fun n => t.IsReturnOf f n := by
    rw [hreturns, htidy.preorder_eq body, List.filter_cons, hself,
      if_neg Bool.false_ne_true]
  refine ⟨heq, ?_, fun n => ?_⟩
  · rw [heq]
    exact (htidy.nodup_preorder body).filter _
  · rw [hreturns, List.mem_filter, htidy.mem_flatMap_preorder_iff, decide_eq_true_iff]

/-- A function `f` that returns in a branch and at its end, and between the two declares a function that
returns as well. -/
def branching : List Form :=
  [.identifier "f", .trueKeyword, .nullKeyword, .returnStatement (some ⟨2⟩), .block [⟨3⟩],
    .ifStatement ⟨1⟩ ⟨4⟩ none, .falseKeyword, .returnStatement (some ⟨6⟩), .block [⟨7⟩],
    .functionExpression ⟨none, [], some ⟨8⟩, false, false⟩, .expressionStatement ⟨9⟩,
    .returnStatement none, .block [⟨5⟩, ⟨10⟩, ⟨11⟩],
    .functionDeclaration ⟨some ⟨0⟩, [], some ⟨12⟩, false, false⟩, .sourceFile "main.ts" [⟨13⟩]]

/-- The two statements of `f` are found, and the one of the function inside it is not. -/
theorem returns_eq_filter_preorder_branching :
    returns (Draft.ofForms branching).tree ⟨12⟩ = [⟨3⟩, ⟨11⟩] ∧
      (Draft.ofForms branching).tree.Above ⟨12⟩ ⟨7⟩ ∧
      ¬ (Draft.ofForms branching).tree.IsReturnOf ⟨13⟩ ⟨7⟩ := by
  have horderly : (Draft.ofForms branching).tree.Orderly (Draft.ofForms branching).files :=
    Draft.orderly_ofForms ⟨by decide, by decide, by decide⟩
  have hlayered := horderly.bottomUp.layered
  have hbound : ∀ r, (Draft.ofForms branching).tree.IsReturnOf ⟨13⟩ r → r.index < 15 := by
    rintro r ⟨hreturn, -⟩
    obtain ⟨form, hform, -⟩ := (Option.any_eq_true _ _).1 hreturn
    exact Tree.index_lt_of_form hform
  have hapart : ∀ i < 15, ∀ j < 15, ⟨i⟩ ∈ (Draft.ofForms branching).tree.ancestors ⟨j⟩ →
      ¬ ((Draft.ofForms branching).tree.IsReturnOf ⟨13⟩ ⟨i⟩ ∧
        (Draft.ofForms branching).tree.IsReturnOf ⟨13⟩ ⟨j⟩) := by
    decide +kernel
  have hblock : (Draft.ofForms branching).tree.form? ⟨12⟩ = some (.block [⟨5⟩, ⟨10⟩, ⟨11⟩]) := rfl
  obtain ⟨heq, -, hmem⟩ := returns_eq_filter_preorder horderly.bottomUp horderly.usesOnce
    rfl rfl hblock fun r r' hr hr' habove =>
      hapart _ (hbound r hr) _ (hbound r' hr') (hlayered.mem_ancestors_iff.2 habove) ⟨hr, hr'⟩
  have hreturns : returns (Draft.ofForms branching).tree ⟨12⟩ = [⟨3⟩, ⟨11⟩] :=
    heq.trans (by decide +kernel)
  have habove : (Draft.ofForms branching).tree.Above ⟨12⟩ ⟨7⟩ :=
    hlayered.mem_ancestors_iff.1 (by decide +kernel)
  refine ⟨hreturns, habove, fun hreturn => ?_⟩
  have hfound := (hmem ⟨7⟩).2 ⟨habove, hreturn⟩
  rw [hreturns] at hfound
  exact absurd hfound (by decide)

end Evaluation

end ValueSchema
