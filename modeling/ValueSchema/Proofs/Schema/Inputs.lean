/-
# The inputs that are left

What is unresolved in a schema may stand for inputs.  Filling in the values of some inputs takes these
away and brings in those of the values, and folding again only moves, drops and combines what is there:
it makes up no input (`inputs_refold_subset`), neither one that was never there nor one that has been
filled in.  So an input that is left at the end was there before and has no value, or it comes in with a
value: `inputs_refold_substitute`.

A place of an input may have others inside it, as the keys of a schema have, or the access to an
element.  These go with the place if it is filled in, and are filled in themselves if it is not.
-/
import ValueSchema.Proofs.Schema.Interchange

namespace ValueSchema.Schema

/-- A schema, apart from its children, stands for no inputs but some. -/
def StandsAmong (inputs : NodeId → Prop) (s : Schema) : Prop := ∀ o ∈ s.origin?, inputs o

variable {p : NodeId → Prop} {s t : Schema} {value? : NodeId → Option Schema} {o : NodeId}

lemma throughout_standsAmong_iff : s.Throughout (StandsAmong p) ↔ ∀ o ∈ s.inputs, p o := by
  constructor
  · intro h o ho
    obtain ⟨t, ht, horigin⟩ := mem_inputs.1 ho
    exact h t ht o horigin
  · intro h t ht o horigin
    exact h o (mem_inputs.2 ⟨t, ht, horigin⟩)

lemma inputs_subset_of_mem_children (h : t ∈ s.children) : t.inputs ⊆ s.inputs := by
  intro o ho
  obtain ⟨u, hu, horigin⟩ := mem_inputs.1 ho
  exact mem_inputs.2 ⟨u, mem_subterms_of_mem_children h hu, horigin⟩

@[simp] lemma origin?_mapChildren (f : Schema → Schema) (s : Schema) :
    (s.mapChildren f).origin? = s.origin? := by
  cases s <;> rfl

/-! ## Folding again -/

lemma standsAmong_of_origin?_eq_none (h : s.origin? = none) : s.StandsAmong p := by
  intro o ho
  rw [h] at ho
  cases ho

/-- Unions, intersections and templates stand for no input themselves. -/
lemma composable_standsAmong (p : NodeId → Prop) : Composable (StandsAmong p) where
  plain _ := standsAmong_of_origin?_eq_none rfl
  literal _ := standsAmong_of_origin?_eq_none rfl
  union _ := standsAmong_of_origin?_eq_none rfl
  intersection _ := standsAmong_of_origin?_eq_none rfl
  template _ := standsAmong_of_origin?_eq_none rfl
  object _ _ _ := standsAmong_of_origin?_eq_none rfl

/-- Folding again makes up no input. -/
theorem inputs_refold_subset (s : Schema) (cap : Nat) : (s.refold cap).inputs ⊆ s.inputs := by
  have hself : s.Throughout (StandsAmong (· ∈ s.inputs)) :=
    throughout_standsAmong_iff.2 fun _ ho => ho
  have hrefold : (s.refold cap).Throughout (StandsAmong (· ∈ s.inputs)) := by
    refine hself.refold (composable_standsAmong _) (fun _ _ _ => ?_) (fun t f ht => ?_) cap
    · exact standsAmong_of_origin?_eq_none rfl
    · rw [StandsAmong, origin?_mapChildren]
      exact ht
  exact throughout_standsAmong_iff.1 hrefold

/-! ## Filling in values -/

/-- An input that is left after values have been filled in has none, or comes in with one. -/
lemma mem_inputs_substitute (h : o ∈ (s.substitute value?).inputs) :
    (o ∈ s.inputs ∧ value? o = none) ∨
      ∃ n ∈ s.inputs, ∃ v, value? n = some v ∧ o ∈ v.inputs := by
  induction s using induction with
  | step s ih =>
    rcases hs : s.origin?.bind value? with _ | v
    · rw [substitute_of_none hs] at h
      obtain ⟨t, ht, horigin⟩ := mem_inputs.1 h
      rcases mem_subterms.1 ht with rfl | ⟨u, hu, htu⟩
      · -- the schema itself stands for the input, and stays
        rw [origin?_mapChildren] at horigin
        rw [horigin, Option.bind_some] at hs
        exact Or.inl ⟨mem_inputs.2 ⟨s, self_mem_subterms s, horigin⟩, hs⟩
      · rw [children_mapChildren] at hu
        obtain ⟨c, hc, rfl⟩ := List.mem_map.1 hu
        have hsubset := inputs_subset_of_mem_children hc
        refine (ih c hc (mem_inputs.2 ⟨t, htu, horigin⟩)).imp (And.imp_left (hsubset ·)) ?_
        rintro ⟨n, hn, hvalue⟩
        exact ⟨n, hsubset hn, hvalue⟩
    · -- the value takes the place of the schema and of everything inside it
      obtain ⟨n, hn, hv⟩ := Option.bind_eq_some_iff.1 hs
      rw [substitute_of_some hs] at h
      exact Or.inr ⟨n, mem_inputs.2 ⟨s, self_mem_subterms s, hn⟩, v, hv, h⟩

/-- Values take the place of the inputs that they are given for, and these do not come back: an input
that is left has no value, or it comes in with the value of another one.  Folding again adds none. -/
theorem inputs_refold_substitute (s : Schema) (value? : NodeId → Option Schema) (cap : Nat) :
    (∀ o ∈ ((s.substitute value?).refold cap).inputs, (o ∈ s.inputs ∧ value? o = none) ∨
      ∃ n ∈ s.inputs, ∃ v, value? n = some v ∧ o ∈ v.inputs) ∧
    (s.refold cap).inputs ⊆ s.inputs :=
  ⟨fun _ ho => mem_inputs_substitute (inputs_refold_subset _ cap ho), inputs_refold_subset s cap⟩

/-- A text made of a name and of an element of a list, where the name, the elements and the index are
inputs. -/
def labelledElement : Schema :=
  template [primitive .string (some ⟨1⟩), string "/",
    access (array (primitive .number (some ⟨2⟩))) (primitive .number (some ⟨3⟩)) none]

/-- The name is one of two texts and the element is another input. -/
def labelledElementValue? (n : NodeId) : Option Schema :=
  if n = ⟨1⟩ then some (union [string "a", string "b"])
  else if n = ⟨2⟩ then some (primitive .string (some ⟨4⟩))
  else none

example : ((labelledElement.substitute labelledElementValue?).refold 4).inputs = [⟨4⟩, ⟨3⟩] := by
  decide

/-- The index is left, and the input that stands for the element comes in. -/
theorem inputs_labelledElement :
    (⟨3⟩ ∈ ((labelledElement.substitute labelledElementValue?).refold 4).inputs ∧
      ((⟨3⟩ ∈ labelledElement.inputs ∧ labelledElementValue? ⟨3⟩ = none) ∨
        ∃ n ∈ labelledElement.inputs, ∃ v, labelledElementValue? n = some v ∧ ⟨3⟩ ∈ v.inputs)) ∧
    ⟨4⟩ ∈ ((labelledElement.substitute labelledElementValue?).refold 4).inputs ∧
      ((⟨4⟩ ∈ labelledElement.inputs ∧ labelledElementValue? ⟨4⟩ = none) ∨
        ∃ n ∈ labelledElement.inputs, ∃ v, labelledElementValue? n = some v ∧ ⟨4⟩ ∈ v.inputs) := by
  have hleft := (inputs_refold_substitute labelledElement labelledElementValue? 4).1
  have hindex : ⟨3⟩ ∈ ((labelledElement.substitute labelledElementValue?).refold 4).inputs := by
    decide
  have helement : ⟨4⟩ ∈ ((labelledElement.substitute labelledElementValue?).refold 4).inputs := by
    decide
  exact ⟨⟨hindex, hleft _ hindex⟩, helement, hleft _ helement⟩

end ValueSchema.Schema
