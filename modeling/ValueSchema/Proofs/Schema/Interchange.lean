/-
# Schemas that may stand for each other

Of like members a list without repetitions keeps one, which then stands for the others.  This is right
as long as no value is filled in.  Members are like if they are equal and the same placeholders occur
in them in the same order; but properties may come in another order in an equal object, an input may
be in one place here and in another place there, and what has failed has a place but is no placeholder.
Once values are filled in, such members become different.

They do not if each input has the same places in both.  It is enough to look at one input at a time
and to put `null` in its places (`mark`): if the marked schemas are equal for every input, then they
stay equal whatever is filled in (`equal_substitute`).  The induction follows the children that belong
together, and a place is told apart from its surroundings because a marked place is a literal.  So
lists without repetitions are right under substitution exactly if like members are `interchangeable`:
`dedupe_sound_iff`.
-/
import ValueSchema.Proofs.Schema.Matching

namespace ValueSchema.Schema

/-- `null` in the places of one input. -/
def mark (o : NodeId) : Schema → Schema := substitute fun n => if n = o then some null else none

/-- Whether each input has the same places in two schemas. -/
def interchangeable (s t : Schema) : Bool :=
  (s.inputs ++ t.inputs).all fun o => equal (s.mark o) (t.mark o)

variable {v : Vocabulary} {s t : Schema} {o : NodeId} {value? : NodeId → Option Schema}

/-! ## Substitution -/

lemma substitute_of_some {w : Schema} (h : s.origin?.bind value? = some w) :
    s.substitute value? = w := by
  rw [substitute, transform_eq, h]
  rfl

lemma substitute_of_none (h : s.origin?.bind value? = none) :
    s.substitute value? = s.mapChildren (substitute value?) := by
  rw [substitute, transform_eq, h]
  rfl

lemma mark_of_origin (h : s.origin? = some o) : s.mark o = null :=
  substitute_of_some (by rw [h]; exact if_pos rfl)

lemma mark_of_ne (h : s.origin? ≠ some o) : s.mark o = s.mapChildren (mark o) := by
  refine substitute_of_none (Option.bind_eq_none_iff.2 fun n hn => if_neg ?_)
  rintro rfl
  exact h hn

lemma mem_inputs : o ∈ s.inputs ↔ ∃ t ∈ s.subterms, t.origin? = some o := by
  rw [inputs, List.mem_eraseDups, List.mem_filterMap]

/-- An input that does not occur has no places. -/
lemma mark_of_not_mem (h : o ∉ s.inputs) : s.mark o = s := by
  induction s using induction with
  | step s ih =>
    have hself : s.origin? ≠ some o := fun horigin =>
      h (mem_inputs.2 ⟨s, self_mem_subterms s, horigin⟩)
    have hchild : ∀ t ∈ s.children, t.mark o = t := fun t ht => ih t ht fun hmem => by
      obtain ⟨u, hu, horigin⟩ := mem_inputs.1 hmem
      exact h (mem_inputs.2 ⟨u, mem_subterms_of_mem_children ht hu, horigin⟩)
    rw [mark_of_ne hself, mapChildren_congr hchild, mapChildren_id]

/-- Equal schemas in which each input has the same places are equal when any input is marked. -/
lemma equal_mark (h : equal s t = true) (hplaces : interchangeable s t = true) (o : NodeId) :
    equal (s.mark o) (t.mark o) = true := by
  by_cases ho : o ∈ s.inputs ++ t.inputs
  · exact List.all_eq_true.1 hplaces o ho
  · rw [List.mem_append, not_or] at ho
    rwa [mark_of_not_mem ho.1, mark_of_not_mem ho.2]

/-! ## Places -/

lemma isLiteral_congr (h : equal s t = true) : s.isLiteral = t.isLiteral := by
  cases s <;> cases t <;> first | rfl | cases h

lemma isLiteral_mapChildren (f : Schema → Schema) (s : Schema) :
    (s.mapChildren f).isLiteral = s.isLiteral := by
  cases s <;> rfl

lemma isLiteral_of_origin (h : s.origin? = some o) : s.isLiteral = false := by
  cases s with
  | literal value => cases h
  | _ => rfl

/-- If marking an input keeps two schemas equal, then both are a place of the input or none is. -/
lemma origin?_iff (h : equal s t = true) (hmark : equal (s.mark o) (t.mark o) = true) :
    s.origin? = some o ↔ t.origin? = some o := by
  have hkind := isLiteral_congr h
  have hmarked := isLiteral_congr hmark
  constructor
  · intro hs
    by_contra ht
    -- the mark is a literal, but what is not a place stays what it is
    rw [mark_of_origin hs, mark_of_ne ht, isLiteral_mapChildren, ← hkind,
      isLiteral_of_origin hs] at hmarked
    cases hmarked
  · intro ht
    by_contra hs
    rw [mark_of_origin ht, mark_of_ne hs, isLiteral_mapChildren, hkind,
      isLiteral_of_origin ht] at hmarked
    cases hmarked

/-- Schemas in which the inputs that are filled in have the same places stay equal. -/
theorem equal_substitute (hvalue : ∀ n w, value? n = some w → w.Within v) (h : equal s t = true)
    (hmark : ∀ o, (value? o).isSome → equal (s.mark o) (t.mark o) = true) :
    equal (s.substitute value?) (t.substitute value?) = true := by
  induction s using induction generalizing t with
  | step s ih =>
    rcases hs : s.origin?.bind value? with _ | w
    · -- neither schema is a place that is filled in, and the children are
      have hplace : ∀ o, (value? o).isSome → s.origin? ≠ some o ∧ t.origin? ≠ some o := by
        intro o ho
        have hself : s.origin? ≠ some o := fun horigin => by
          rw [horigin, Option.bind_some] at hs
          rw [hs] at ho
          cases ho
        exact ⟨hself, fun horigin => hself ((origin?_iff h (hmark o ho)).2 horigin)⟩
      have ht : t.origin?.bind value? = none := by
        refine Option.bind_eq_none_iff.2 fun o ho => ?_
        by_contra hsome
        exact (hplace o (Option.isSome_iff_ne_none.2 hsome)).2 ho
      obtain ⟨hshape, hmatched⟩ := equal_iff.1 h
      rw [substitute_of_none hs, substitute_of_none ht, equal_iff, sameShape_mapChildren,
        matched_mapChildren]
      refine ⟨hshape, List.forall_mem_map.2 fun p hp => ?_⟩
      refine ih p.1 (mem_children_of_mem_matched hp).1 (hmatched p hp) fun o ho => ?_
      have hmarked := hmark o ho
      rw [mark_of_ne (hplace o ho).1, mark_of_ne (hplace o ho).2, equal_iff,
        matched_mapChildren] at hmarked
      exact List.forall_mem_map.1 hmarked.2 p hp
    · -- both are places of one input, and the same value comes in
      obtain ⟨o, horigin, hw⟩ := Option.bind_eq_some_iff.1 hs
      have ht := (origin?_iff h (hmark o (by rw [hw]; rfl))).1 horigin
      rw [substitute_of_some hs, substitute_of_some (by rw [ht]; exact hw)]
      exact equal_self (hvalue o w hw)

/-! ## Lists without repetitions -/

lemma dedupe_pair (h : sameMember s t = true) : dedupe [s, t] = [s] := by
  change pushUnique [s] t = [s]
  rw [pushUnique, List.any_cons, h, Bool.true_or, if_pos rfl]

/-- The mark of an input is a value like any other. -/
lemma within_of_marks (n : NodeId) (w : Schema) (h : (if n = o then some null else none) = some w) :
    w.Within v := by
  obtain ⟨-, hw⟩ := Option.ite_none_right_eq_some.1 h
  obtain rfl := Option.some.inj hw
  exact within_null

/-- What is kept of a list, and of every list with members from it, stands for all its members under
every substitution exactly if like members are interchangeable. -/
theorem dedupe_sound_iff {items : List Schema} (h : ∀ s ∈ items, s.Within v) :
    (∀ part ⊆ items, ∀ s ∈ part, ∀ value? : NodeId → Option Schema,
        (∀ n w, value? n = some w → w.Within v) →
          ∃ t ∈ dedupe part, equal (s.substitute value?) (t.substitute value?) = true) ↔
      ∀ s ∈ items, ∀ t ∈ items, sameMember s t = true → interchangeable s t = true := by
  constructor
  · intro hsound s hs t ht hlike
    refine List.all_eq_true.2 fun o _ => ?_
    have hpart : [s, t] ⊆ items := by simp [hs, ht]
    -- of the two members the first is kept, and it has to stand for the second when `o` is marked
    obtain ⟨u, hu, hequal⟩ := hsound [s, t] hpart t (by simp) _ within_of_marks
    rw [dedupe_pair hlike, List.mem_singleton] at hu
    rw [hu] at hequal
    exact equal_symm ((h t ht).substitute within_of_marks) ((h s hs).substitute within_of_marks)
      hequal
  · intro hplaces part hpart s hs value? hvalue
    have hwithin : ∀ t ∈ part, (t.substitute value?).Within v := fun t ht =>
      (h t (hpart ht)).substitute hvalue
    obtain ⟨t, ht, rfl | hlike⟩ := exists_mem_dedupe hs
    · exact ⟨t, ht, equal_self (hwithin t hs)⟩
    · have hmem := mem_of_mem_dedupe ht
      have hequal : equal t s = true := (Bool.and_eq_true_iff.1 hlike).1
      have hsame := hplaces t (hpart hmem) s (hpart hs) hlike
      refine ⟨t, ht, equal_symm (hwithin t hmem) (hwithin s hs) ?_⟩
      exact equal_substitute hvalue hequal fun o _ => equal_mark hequal hsame o

/-- Two objects of the same properties in another order, with the same inputs in the order of the
properties. -/
def crossedObjects : List Schema :=
  [.object [("a", .primitive .number (some ⟨1⟩)), ("b", .primitive .number (some ⟨2⟩))] [],
    .object [("b", .primitive .number (some ⟨1⟩)), ("a", .primitive .number (some ⟨2⟩))] []]

/-- The first object is taken for both. -/
example : dedupe crossedObjects = crossedObjects.take 1 := by rfl

theorem not_dedupe_sound_crossedObjects :
    (∀ s ∈ crossedObjects, s.Within (.ofReferences fun _ _ => True)) ∧
      ¬∀ part ⊆ crossedObjects, ∀ s ∈ part, ∀ value? : NodeId → Option Schema,
        (∀ n w, value? n = some w → w.Within (.ofReferences fun _ _ => True)) →
          ∃ t ∈ dedupe part, equal (s.substitute value?) (t.substitute value?) = true := by
  have hwithin : ∀ s ∈ crossedObjects, s.Within (.ofReferences fun _ _ => True) := by
    simp [crossedObjects, Vocabulary.ofReferences, Entries.names]
  refine ⟨hwithin, fun hsound => ?_⟩
  have hplaces := (dedupe_sound_iff hwithin).1 hsound _ (.head _) _ (.tail _ (.head _)) rfl
  cases hplaces

end ValueSchema.Schema
