/-
# Induction over schemas, and what stands inside them

A schema is reached from its children, whatever its kind is: `Schema.induction` is the induction
principle that follows, and the traversals are described through `Schema.children` and
`Schema.mapChildren` alone.  The rest of the theory never looks at the kinds one by one where it
does not have to.
-/
import Mathlib.Tactic.Common
import ValueSchema.Definition.Reduction
import ValueSchema.Schema.Origin

namespace ValueSchema.Schema

/-! ## Induction -/

lemma sizeOf_lt_of_mem_children {s t : Schema} (h : t ∈ s.children) : sizeOf t < sizeOf s := by
  have all : ∀ {items : List Schema}, t ∈ items → sizeOf t < sizeOf items :=
    fun ht => List.sizeOf_lt_of_mem ht
  have named : ∀ {items : List (String × Schema)}, (∃ name, (name, t) ∈ items) →
      sizeOf t < sizeOf items := by
    rintro items ⟨name, ht⟩
    have hlt := List.sizeOf_lt_of_mem ht
    simp only [Prod.mk.sizeOf_spec] at hlt
    omega
  have pairs : ∀ {items : List (Schema × Schema)},
      (∃ other, (t, other) ∈ items ∨ (other, t) ∈ items) → sizeOf t < sizeOf items := by
    rintro items ⟨other, ht | ht⟩ <;>
    · have hlt := List.sizeOf_lt_of_mem ht
      simp only [Prod.mk.sizeOf_spec] at hlt
      omega
  cases s with
  | primitive | literal | error => simp [children] at h
  | union items | intersection items | tuple items | template items | reference _ items =>
    have hlt : sizeOf t < sizeOf items := all h
    simp only [union.sizeOf_spec, intersection.sizeOf_spec, tuple.sizeOf_spec,
      template.sizeOf_spec, reference.sizeOf_spec]
    omega
  | array item =>
    obtain rfl : t = item := by simpa [children] using h
    simp
  | object properties indexKeys =>
    simp only [children, List.mem_append, List.mem_map, List.mem_flatMap, List.mem_cons,
      List.not_mem_nil, or_false] at h
    simp only [object.sizeOf_spec]
    rcases h with ⟨⟨name, u⟩, hu, rfl⟩ | ⟨⟨key, value⟩, he, rfl | rfl⟩
    · have hlt := named ⟨name, hu⟩
      simp only at hlt ⊢
      omega
    · have hlt := pairs ⟨value, Or.inl he⟩
      omega
    · have hlt := pairs ⟨key, Or.inr he⟩
      omega
  | function parameters result =>
    simp only [children, List.mem_append, List.mem_map, List.mem_singleton] at h
    simp only [function.sizeOf_spec]
    rcases h with ⟨⟨name, u⟩, hu, rfl⟩ | rfl
    · have hlt := named ⟨name, hu⟩
      simp only at hlt ⊢
      omega
    · omega
  | binary op left right =>
    simp only [children, List.mem_cons, List.not_mem_nil, or_false] at h
    simp only [binary.sizeOf_spec]
    rcases h with rfl | rfl <;> omega
  | keys subject =>
    obtain rfl : t = subject := by simpa [children] using h
    simp only [keys.sizeOf_spec]
    omega
  | access target key =>
    simp only [children, List.mem_cons, List.not_mem_nil, or_false] at h
    simp only [access.sizeOf_spec]
    rcases h with rfl | rfl <;> omega

/-- What holds of a schema whenever it holds of its children holds of every schema. -/
@[elab_as_elim]
theorem induction {motive : Schema → Prop}
    (step : ∀ s, (∀ t ∈ s.children, motive t) → motive s) (s : Schema) : motive s :=
  step s fun t _ => induction step t
termination_by sizeOf s
decreasing_by exact sizeOf_lt_of_mem_children ‹_›

/-! ## Children and subterms -/

@[simp] lemma children_mapChildren (f : Schema → Schema) (s : Schema) :
    (s.mapChildren f).children = s.children.map f := by
  cases s <;> simp [mapChildren, children, List.map_flatMap, List.flatMap_map]

lemma mapChildren_congr {f g : Schema → Schema} {s : Schema} (h : ∀ t ∈ s.children, f t = g t) :
    s.mapChildren f = s.mapChildren g := by
  cases s with
  | object properties indexKeys =>
    simp only [children, List.mem_append, List.mem_map, List.mem_flatMap] at h
    simp only [mapChildren, object.injEq, List.map_inj_left, Prod.mk.injEq, true_and]
    exact ⟨fun e he => h _ (Or.inl ⟨e, he, rfl⟩), fun e he =>
      ⟨h _ (Or.inr ⟨e, he, by simp⟩), h _ (Or.inr ⟨e, he, by simp⟩)⟩⟩
  | function parameters result =>
    simp only [children, List.mem_append, List.mem_map] at h
    simp only [mapChildren, function.injEq, List.map_inj_left, Prod.mk.injEq, true_and]
    exact ⟨fun e he => h _ (Or.inl ⟨e, he, rfl⟩), h _ (Or.inr (by simp))⟩
  | _ => simp_all [mapChildren, children]

@[simp] lemma mapChildren_id (s : Schema) : s.mapChildren (fun t => t) = s := by
  cases s <;> simp [mapChildren]

lemma mapChildren_mapChildren (f g : Schema → Schema) (s : Schema) :
    (s.mapChildren f).mapChildren g = s.mapChildren (g ∘ f) := by
  cases s <;> simp [mapChildren, Function.comp_def]

lemma mem_subterms {s t : Schema} :
    t ∈ s.subterms ↔ t = s ∨ ∃ u ∈ s.children, t ∈ u.subterms := by
  rw [subterms_eq, List.mem_cons, List.mem_flatMap]

lemma self_mem_subterms (s : Schema) : s ∈ s.subterms := mem_subterms.2 (Or.inl rfl)

lemma mem_subterms_of_mem_children {s t u : Schema} (hu : u ∈ s.children) (ht : t ∈ u.subterms) :
    t ∈ s.subterms := mem_subterms.2 (Or.inr ⟨u, hu, ht⟩)

/-! ## References -/

@[simp] lemma reference?_mapChildren (f : Schema → Schema) (s : Schema) :
    (s.mapChildren f).reference? = s.reference? := by
  cases s <;> rfl

lemma mem_references {s : Schema} {id : String} :
    id ∈ s.references ↔ ∃ t ∈ s.subterms, t.reference? = some id := by
  simp [references]

/-- A schema refers to what it is a reference to, and to what its children refer to. -/
lemma mem_references_iff {s : Schema} {id : String} :
    id ∈ s.references ↔ s.reference? = some id ∨ ∃ t ∈ s.children, id ∈ t.references := by
  constructor
  · intro h
    obtain ⟨t, hts, ht⟩ := mem_references.1 h
    rcases mem_subterms.1 hts with rfl | ⟨u, hu, htu⟩
    · exact Or.inl ht
    · exact Or.inr ⟨u, hu, mem_references.2 ⟨t, htu, ht⟩⟩
  · rintro (hs | ⟨u, hu, h⟩)
    · exact mem_references.2 ⟨s, self_mem_subterms s, hs⟩
    · obtain ⟨t, htu, ht⟩ := mem_references.1 h
      exact mem_references.2 ⟨t, mem_subterms_of_mem_children hu htu, ht⟩

lemma mentions_eq_false {s : Schema} {id : String} :
    s.mentions id = false ↔ id ∉ s.references := by
  simp [mentions]

end ValueSchema.Schema
