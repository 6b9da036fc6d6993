/-
# Circles of definitions

A schema shows the references in it that stand outside of everything but unions and intersections.
A definition leads on to those that its body shows.  Without a circle among them only as many steps
can be made as there are definitions; from a definition that leads into a circle there is always
another one.
-/
import Mathlib.Logic.Relation
import ValueSchema.Proofs.Definition.Registry
import ValueSchema.Proofs.Schema.Vocabulary

namespace ValueSchema

/-! ## What a schema shows -/

namespace Schema

mutual

/-- The references that a schema shows: itself, or what the members of a union or an intersection
show. -/
def shown (s : Schema) : List Schema :=
  match s with
  | .reference name arguments id => [.reference name arguments id]
  | .union items => shownByAll items
  | .intersection items => shownByAll items
  | _ => []
  termination_by structural s

/-- The references that several schemas show. -/
def shownByAll (items : List Schema) : List Schema :=
  match items with
  | [] => []
  | s :: rest => shown s ++ shownByAll rest
  termination_by structural items

end

mutual

/-- The references that every read asks, whatever the property is: of a union only the first member
is asked always. -/
def asked (s : Schema) : List Schema :=
  match s with
  | .reference name arguments id => [.reference name arguments id]
  | .union items => askedOfFirst items
  | .intersection items => askedOfAll items
  | _ => []
  termination_by structural s

/-- The references that are asked of the first of several schemas. -/
def askedOfFirst (items : List Schema) : List Schema :=
  match items with
  | [] => []
  | s :: _ => asked s
  termination_by structural items

/-- The references that are asked of several schemas. -/
def askedOfAll (items : List Schema) : List Schema :=
  match items with
  | [] => []
  | s :: rest => asked s ++ askedOfAll rest
  termination_by structural items

end

lemma shownByAll_eq_flatMap (items : List Schema) : shownByAll items = items.flatMap shown := by
  induction items with
  | nil => rfl
  | cons s rest ih => rw [shownByAll, List.flatMap_cons, ih]

lemma askedOfAll_eq_flatMap (items : List Schema) : askedOfAll items = items.flatMap asked := by
  induction items with
  | nil => rfl
  | cons s rest ih => rw [askedOfAll, List.flatMap_cons, ih]

lemma mem_shown_reference {name id : String} {arguments : List Schema} {r : Schema} :
    r ∈ (reference name arguments id).shown ↔ r = .reference name arguments id := by
  rw [shown, List.mem_singleton]

lemma mem_shown_union {items : List Schema} {r : Schema} :
    r ∈ (union items).shown ↔ ∃ s ∈ items, r ∈ s.shown := by
  rw [shown, shownByAll_eq_flatMap, List.mem_flatMap]

lemma mem_shown_intersection {items : List Schema} {r : Schema} :
    r ∈ (intersection items).shown ↔ ∃ s ∈ items, r ∈ s.shown := by
  rw [shown, shownByAll_eq_flatMap, List.mem_flatMap]

/-- What is shown is a reference. -/
lemma eq_reference_of_mem_shown {s r : Schema} (h : r ∈ s.shown) :
    ∃ name arguments id, r = .reference name arguments id := by
  induction s using Schema.induction with
  | step s ih =>
    cases s with
    | reference name arguments id => exact ⟨name, arguments, id, mem_shown_reference.1 h⟩
    | union items =>
      obtain ⟨t, ht, hr⟩ := mem_shown_union.1 h
      exact ih t ht hr
    | intersection items =>
      obtain ⟨t, ht, hr⟩ := mem_shown_intersection.1 h
      exact ih t ht hr
    | _ => cases h

/-- What a schema shows is inside it. -/
lemma within_of_mem_shown {v : Vocabulary} {s r : Schema} (hs : s.Within v) (h : r ∈ s.shown) :
    r.Within v := by
  induction s using Schema.induction with
  | step s ih =>
    cases s with
    | reference name arguments id =>
      obtain rfl := mem_shown_reference.1 h
      exact hs
    | union items =>
      obtain ⟨t, ht, hr⟩ := mem_shown_union.1 h
      exact ih t ht (within_union.1 hs t ht) hr
    | intersection items =>
      obtain ⟨t, ht, hr⟩ := mem_shown_intersection.1 h
      exact ih t ht (within_intersection.1 hs t ht) hr
    | _ => cases h

lemma asked_subset_shown (s : Schema) : s.asked ⊆ s.shown := by
  induction s using Schema.induction with
  | step s ih =>
    intro r hr
    cases s with
    | reference name arguments id => exact hr
    | union items =>
      cases items with
      | nil => cases hr
      | cons s rest =>
        exact mem_shown_union.2 ⟨s, List.mem_cons_self .., ih s (List.mem_cons_self ..) hr⟩
    | intersection items =>
      rw [asked, askedOfAll_eq_flatMap, List.mem_flatMap] at hr
      obtain ⟨t, ht, hr⟩ := hr
      exact mem_shown_intersection.2 ⟨t, ht, ih t ht hr⟩
    | _ => cases hr

end Schema

/-! ## The graph of definitions -/

namespace Registry

variable {r : Registry} {shown : Schema → List Schema} {id other : String}

/-- A definition leads on to another one if its body, unless it is nothing but a reference, shows a
reference to that. -/
def LeadsOn (r : Registry) (shown : Schema → List Schema) (id other : String) : Prop :=
  ∃ body name arguments, r.ready? id = some body ∧ body.reference? = none ∧
    Schema.reference name arguments other ∈ shown body

/-- A definition from which one comes into a circle. -/
def Circular (r : Registry) (shown : Schema → List Schema) (id : String) : Prop :=
  ∃ other, Relation.ReflTransGen (r.LeadsOn shown) id other ∧
    Relation.TransGen (r.LeadsOn shown) other other

/-- A definition from which at most a given number of steps can be made. -/
def Shallow (r : Registry) (shown : Schema → List Schema) : Nat → String → Prop
  | 0, id => ∀ other, ¬ r.LeadsOn shown id other
  | n + 1, id => ∀ other, r.LeadsOn shown id other → r.Shallow shown n other

lemma LeadsOn.mem_names (h : r.LeadsOn shown id other) : id ∈ Entries.names r.entries := by
  obtain ⟨body, _, _, hready, -⟩ := h
  obtain ⟨d, hd, -⟩ := ready?_eq_some_iff.1 hready
  exact Entries.mem_names_of_mem (Entries.mem_of_get? hd)

lemma LeadsOn.mono {shown' : Schema → List Schema} (h : r.LeadsOn shown id other)
    (hsubset : ∀ s, shown s ⊆ shown' s) : r.LeadsOn shown' id other := by
  obtain ⟨body, name, arguments, hready, hbody, hmem⟩ := h
  exact ⟨body, name, arguments, hready, hbody, hsubset body hmem⟩

/-- From a definition that leads into a circle there is always a next step. -/
lemma Circular.exists_next (h : r.Circular shown id) :
    ∃ other, r.LeadsOn shown id other ∧ r.Circular shown other := by
  obtain ⟨start, hreach, hcircle⟩ := h
  rcases Relation.ReflTransGen.cases_head hreach with rfl | ⟨next, hnext, hreach⟩
  · obtain ⟨next, hnext, hback⟩ := Relation.TransGen.head'_iff.1 hcircle
    exact ⟨next, hnext, id, hback, hcircle⟩
  · exact ⟨next, hnext, start, hreach, hcircle⟩

/-- Without a circle no definition is met twice.  The list holds those that have been met. -/
lemma shallow_of_met {start : String} (hstart : ¬ r.Circular shown start) (n : Nat)
    {met : List String} (hnodup : met.Nodup) (hmet : met ⊆ Entries.names r.entries)
    (hpath : ∀ earlier ∈ met, Relation.TransGen (r.LeadsOn shown) earlier id)
    (hreach : Relation.ReflTransGen (r.LeadsOn shown) start id)
    (hn : r.entries.length ≤ met.length + n) : r.Shallow shown n id := by
  have hfresh : id ∉ met := fun hmem => hstart ⟨id, hreach, hpath id hmem⟩
  induction n generalizing met id with
  | zero =>
    intro other hother
    have hle : (id :: met).length ≤ (Entries.names r.entries).length :=
      (hnodup.cons hfresh).length_le_of_subset (List.cons_subset.2 ⟨hother.mem_names, hmet⟩)
    rw [Entries.names, List.length_map, List.length_cons] at hle
    omega
  | succ n ih =>
    intro other hother
    have hpath' : ∀ earlier ∈ id :: met, Relation.TransGen (r.LeadsOn shown) earlier other := by
      intro earlier hearlier
      rcases List.mem_cons.1 hearlier with rfl | hmem
      · exact .single hother
      · exact (hpath earlier hmem).tail hother
    have hreach' := hreach.tail hother
    refine ih (hnodup.cons hfresh) (List.cons_subset.2 ⟨hother.mem_names, hmet⟩) hpath' hreach'
      ?_ fun hmem => hstart ⟨other, hreach', hpath' other hmem⟩
    rw [List.length_cons]
    omega

lemma shallow_of_not_circular (h : ¬ r.Circular shown id) :
    r.Shallow shown r.entries.length id :=
  shallow_of_met h _ List.nodup_nil (List.nil_subset _) (by simp) .refl (by simp)

end Registry

end ValueSchema
