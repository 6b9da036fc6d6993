/-
# Putting bodies in the place of references

`Schema.inline` and `Bundle.inlineDefinitions` in terms of the references that they leave, and of
what a definition is afterwards.  A reference that is replaced disappears with its arguments, and
the body that takes its place is not looked at again; so the references of the result are
references that stood there before, or references of the bodies that came in.
-/
import ValueSchema.Proofs.Entries
import ValueSchema.Proofs.Schema.Subterm

namespace ValueSchema

namespace Schema

/-- The body that a schema stands for, if it is a reference to one of the definitions. -/
def body? (definitions : Entries Schema) (s : Schema) : Option Schema :=
  s.reference?.bind fun id => Entries.get? id definitions

@[simp] lemma body?_mapChildren (definitions : Entries Schema) (f : Schema → Schema) (s : Schema) :
    (s.mapChildren f).body? definitions = s.body? definitions := by
  rw [body?, body?, reference?_mapChildren]

lemma body?_eq_some_iff {definitions : Entries Schema} {s t : Schema} :
    s.body? definitions = some t ↔
      ∃ id, s.reference? = some id ∧ Entries.get? id definitions = some t :=
  Option.bind_eq_some_iff

lemma body?_eq_none_iff {definitions : Entries Schema} {s : Schema} :
    s.body? definitions = none ↔ ∀ id, s.reference? = some id → id ∉ Entries.names definitions := by
  rw [body?, Option.bind_eq_none_iff]
  exact forall₂_congr fun id _ => Entries.get?_eq_none_iff

variable {bodies : Entries Schema}

lemma inline_eq (bodies : Entries Schema) (s : Schema) :
    s.inline bodies = (s.body? bodies).getD (s.mapChildren (inline bodies)) :=
  transform_eq _ _ s

lemma inline_of_body? {s t : Schema} (h : s.body? bodies = some t) : s.inline bodies = t := by
  rw [inline_eq, h, Option.getD_some]

lemma inline_of_body?_eq_none {s : Schema} (h : s.body? bodies = none) :
    s.inline bodies = s.mapChildren (inline bodies) := by
  rw [inline_eq, h, Option.getD_none]

/-- A schema that refers to none of the bodies stays as it is. -/
lemma inline_eq_self {s : Schema} (h : ∀ id ∈ s.references, id ∉ Entries.names bodies) :
    s.inline bodies = s := by
  induction s using induction with
  | step s ih =>
    have hs : s.body? bodies = none :=
      body?_eq_none_iff.2 fun id hid => h id (mem_references_iff.2 (Or.inl hid))
    have hchildren : ∀ t ∈ s.children, t.inline bodies = t := fun t ht =>
      ih t ht fun id hid => h id (mem_references_iff.2 (Or.inr ⟨t, ht, hid⟩))
    rw [inline_of_body?_eq_none hs, mapChildren_congr hchildren, mapChildren_id]

/-- A reference after inlining was there before and is none to a body, or it came with a body. -/
lemma mem_references_inline {s : Schema} {id : String} (h : id ∈ (s.inline bodies).references) :
    (id ∈ s.references ∧ id ∉ Entries.names bodies) ∨
      ∃ i t, i ∈ s.references ∧ Entries.get? i bodies = some t ∧ id ∈ t.references := by
  induction s using induction with
  | step s ih =>
    rcases hbody : s.body? bodies with _ | t
    · rw [inline_of_body?_eq_none hbody, mem_references_iff, reference?_mapChildren,
        children_mapChildren] at h
      rcases h with hs | ⟨u, hu, hid⟩
      · exact Or.inl ⟨mem_references_iff.2 (Or.inl hs), body?_eq_none_iff.1 hbody id hs⟩
      · obtain ⟨t, ht, rfl⟩ := List.mem_map.1 hu
        rcases ih t ht hid with ⟨hin, hnot⟩ | ⟨i, body, hin, hget, hide⟩
        · exact Or.inl ⟨mem_references_iff.2 (Or.inr ⟨t, ht, hin⟩), hnot⟩
        · exact Or.inr ⟨i, body, mem_references_iff.2 (Or.inr ⟨t, ht, hin⟩), hget, hide⟩
    · rw [inline_of_body? hbody] at h
      obtain ⟨i, hi, hget⟩ := body?_eq_some_iff.1 hbody
      exact Or.inr ⟨i, t, mem_references_iff.2 (Or.inl hi), hget, h⟩

end Schema

namespace Bundle

open Schema

lemma mem_references {b : Bundle} {id : String} :
    id ∈ b.references ↔
      id ∈ b.root.references ∨ ∃ e ∈ b.definitions, id ∈ e.2.references := by
  simp [references]

variable {bodies : Entries Schema}

lemma get?_inlineDefinitions (b : Bundle) (bodies : Entries Schema) (id : String) :
    Entries.get? id (b.inlineDefinitions bodies).definitions =
      if Entries.contains id bodies then none
      else (Entries.get? id b.definitions).map (inline bodies) := by
  simp only [inlineDefinitions, Entries.get?_mapValues,
    Entries.get?_filter fun name => !Entries.contains name bodies]
  cases Entries.contains id bodies <;> simp

/-- The definitions that are left have their bodies inlined. -/
lemma body?_inlineDefinitions {b : Bundle} {s : Schema} (hs : s.body? bodies = none) :
    s.body? (b.inlineDefinitions bodies).definitions =
      (s.body? b.definitions).map (inline bodies) := by
  rcases hid : s.reference? with _ | id
  · simp [body?, hid]
  · have hnot : id ∉ Entries.names bodies := body?_eq_none_iff.1 hs id hid
    simp [body?, hid, get?_inlineDefinitions, hnot]

lemma mem_names_inlineDefinitions {b : Bundle} {id : String} :
    id ∈ Entries.names (b.inlineDefinitions bodies).definitions ↔
      id ∈ Entries.names b.definitions ∧ id ∉ Entries.names bodies := by
  simp only [inlineDefinitions, Entries.names_mapValues]
  rw [Entries.mem_names_filter (p := fun name => !Entries.contains name bodies)]
  simp

lemma names_inlineDefinitions_sublist (b : Bundle) (bodies : Entries Schema) :
    (Entries.names (b.inlineDefinitions bodies).definitions).Sublist
      (Entries.names b.definitions) := by
  simpa only [inlineDefinitions, Entries.names_mapValues] using Entries.names_filter_sublist _ _

lemma mem_definitions_inlineDefinitions {b : Bundle} {e : String × Schema}
    (h : e ∈ (b.inlineDefinitions bodies).definitions) :
    ∃ t, (e.1, t) ∈ b.definitions ∧ e.2 = t.inline bodies := by
  simp only [inlineDefinitions, Entries.mapValues, List.mem_map, List.mem_filter] at h
  obtain ⟨d, ⟨hd, -⟩, rfl⟩ := h
  exact ⟨d.2, hd, rfl⟩

/-! ## Bodies that do not refer to each other -/

/-- Bodies that can be put in the place of their references all at once: they are definitions, and
none of them refers to any of them. -/
structure Inlinable (b : Bundle) (bodies : Entries Schema) : Prop where
  /-- The bodies are definitions. -/
  get?_eq : ∀ id t, Entries.get? id bodies = some t → Entries.get? id b.definitions = some t
  /-- No body refers to a body. -/
  not_mem : ∀ e ∈ bodies, ∀ id ∈ e.2.references, id ∉ Entries.names bodies

namespace Inlinable

variable {b : Bundle} {s t : Schema}

lemma body?_eq (h : b.Inlinable bodies) (ht : s.body? bodies = some t) :
    s.body? b.definitions = some t := by
  obtain ⟨id, hid, hget⟩ := body?_eq_some_iff.1 ht
  exact body?_eq_some_iff.2 ⟨id, hid, h.get?_eq id t hget⟩

lemma body?_eq_none (h : b.Inlinable bodies) (hs : s.body? b.definitions = none) :
    s.body? bodies = none := by
  rcases ht : s.body? bodies with _ | t
  · rfl
  · rw [h.body?_eq ht] at hs
    exact absurd hs (by simp)

/-- A body that has been put in the place of a reference is not changed. -/
lemma inline_body (h : b.Inlinable bodies) (ht : s.body? bodies = some t) :
    t.inline bodies = t := by
  obtain ⟨id, -, hget⟩ := body?_eq_some_iff.1 ht
  exact inline_eq_self (h.not_mem (id, t) (Entries.mem_of_get? hget))

lemma body?_body (h : b.Inlinable bodies) (ht : s.body? bodies = some t) :
    t.body? bodies = none := by
  obtain ⟨id, -, hget⟩ := body?_eq_some_iff.1 ht
  refine body?_eq_none_iff.2 fun i hi => ?_
  exact h.not_mem (id, t) (Entries.mem_of_get? hget) i (mem_references_iff.2 (Or.inl hi))

end Inlinable

/-! ## Definitions that are used once -/

lemma mem_of_singleUse? {b : Bundle} {e : String × Schema} (h : b.singleUse? = some e) :
    e ∈ b.definitions ∧ e.1 ∉ e.2.references := by
  have hmem := List.mem_of_find?_eq_some h
  have hp := List.find?_some h
  simp only [Bool.and_eq_true, Bool.not_eq_true'] at hp
  exact ⟨hmem, mentions_eq_false.1 hp.2⟩

lemma inlinable_singleUse {b : Bundle} {e : String × Schema}
    (hmap : (Entries.names b.definitions).Nodup) (h : b.singleUse? = some e) :
    b.Inlinable [e] := by
  obtain ⟨hmem, hself⟩ := mem_of_singleUse? h
  constructor
  · intro id t hget
    obtain rfl : (id, t) = e := List.mem_singleton.1 (Entries.mem_of_get? hget)
    exact Entries.get?_of_mem hmap hmem
  · intro d hd id hid
    obtain rfl : d = e := List.mem_singleton.1 hd
    simp only [Entries.names, List.map_cons, List.map_nil, List.mem_singleton]
    rintro rfl
    exact hself hid

lemma names_inlineSingleUse_sublist (rounds : Nat) (b : Bundle) :
    (Entries.names (b.inlineSingleUse rounds).definitions).Sublist
      (Entries.names b.definitions) := by
  induction rounds generalizing b with
  | zero => exact List.Sublist.refl _
  | succ rounds ih =>
    rw [inlineSingleUse]
    split
    · exact List.Sublist.refl _
    · exact (ih _).trans (names_inlineDefinitions_sublist _ _)

/-! ## The rounds of trivial definitions -/

variable {b : Bundle}

lemma mem_trivialDefinitions {e : String × Schema} :
    e ∈ b.trivialDefinitions ↔
      e ∈ b.definitions ∧ e.2.isTrivial = true ∧ e.1 ∉ e.2.references := by
  simp only [trivialDefinitions, List.mem_filter, Bool.and_eq_true, Bool.not_eq_true',
    mentions_eq_false]

lemma inlineTrivial_succ (rounds : Nat) (b : Bundle) (h : b.trivialDefinitions ≠ []) :
    b.inlineTrivial (rounds + 1) =
      (b.inlineDefinitions b.trivialDefinitions).inlineTrivial rounds := by
  rw [inlineTrivial, if_neg (by simpa using h)]

lemma inlineTrivial_of_trivial_eq_nil (rounds : Nat) {b : Bundle} (h : b.trivialDefinitions = []) :
    b.inlineTrivial rounds = b := by
  cases rounds with
  | zero => rfl
  | succ rounds => simp [inlineTrivial, h]

lemma inlineTrivial_add (first rest : Nat) (b : Bundle) :
    b.inlineTrivial (first + rest) = (b.inlineTrivial first).inlineTrivial rest := by
  induction first generalizing b with
  | zero => rw [Nat.zero_add, inlineTrivial]
  | succ first ih =>
    by_cases h : b.trivialDefinitions = []
    · simp only [inlineTrivial_of_trivial_eq_nil _ h]
    · rw [Nat.succ_add, inlineTrivial_succ _ b h, inlineTrivial_succ _ b h, ih]

/-- What becomes of the definitions does not depend on the schema they belong to. -/
lemma definitions_inlineTrivial_congr (rounds : Nat) {b c : Bundle}
    (h : b.definitions = c.definitions) :
    (b.inlineTrivial rounds).definitions = (c.inlineTrivial rounds).definitions := by
  induction rounds generalizing b c with
  | zero => exact h
  | succ rounds ih =>
    have htrivial : b.trivialDefinitions = c.trivialDefinitions := by
      rw [trivialDefinitions, trivialDefinitions, h]
    by_cases hnil : b.trivialDefinitions = []
    · rw [inlineTrivial_of_trivial_eq_nil _ hnil,
        inlineTrivial_of_trivial_eq_nil _ (htrivial.symm.trans hnil), h]
    · rw [inlineTrivial_succ _ b hnil, inlineTrivial_succ _ c (htrivial ▸ hnil)]
      refine ih ?_
      rw [inlineDefinitions, inlineDefinitions, htrivial, h]

lemma trivialDefinitions_inlineTrivial_congr (rounds : Nat) {b c : Bundle}
    (h : b.definitions = c.definitions) :
    (b.inlineTrivial rounds).trivialDefinitions = (c.inlineTrivial rounds).trivialDefinitions := by
  rw [trivialDefinitions, trivialDefinitions, definitions_inlineTrivial_congr rounds h]

lemma names_inlineTrivial_sublist (rounds : Nat) (b : Bundle) :
    (Entries.names (b.inlineTrivial rounds).definitions).Sublist (Entries.names b.definitions) := by
  induction rounds generalizing b with
  | zero => exact List.Sublist.refl _
  | succ rounds ih =>
    by_cases hnil : b.trivialDefinitions = []
    · rw [inlineTrivial_of_trivial_eq_nil _ hnil]
    · rw [inlineTrivial_succ _ b hnil]
      exact (ih _).trans (names_inlineDefinitions_sublist _ _)

/-- A round that still finds something comes after rounds that each removed a definition. -/
lemma add_length_inlineTrivial_le (rounds : Nat) {b : Bundle}
    (h : (b.inlineTrivial rounds).trivialDefinitions ≠ []) :
    rounds + (b.inlineTrivial rounds).definitions.length ≤ b.definitions.length := by
  induction rounds generalizing b with
  | zero => exact Nat.le_of_eq (Nat.zero_add _)
  | succ rounds ih =>
    by_cases hnil : b.trivialDefinitions = []
    · rw [inlineTrivial_of_trivial_eq_nil _ hnil] at h
      exact absurd hnil h
    · rw [inlineTrivial_succ _ b hnil] at h ⊢
      obtain ⟨e, he⟩ := List.exists_mem_of_ne_nil _ hnil
      have hremoved : (b.inlineDefinitions b.trivialDefinitions).definitions.length <
          b.definitions.length := by
        rw [inlineDefinitions, Entries.mapValues, List.length_map]
        refine List.length_filter_lt_length_iff_exists.2
          ⟨e, (mem_trivialDefinitions.1 he).1, ?_⟩
        simpa using Entries.mem_names_of_mem he
      have hrest := ih h
      omega

/-! ## The phases of the reduction -/

/-- The definitions after inlining, before those are removed that the schema does not lead to. -/
def inlined (b : Bundle) (inlineSingle : Bool) : Bundle :=
  if inlineSingle then b.inlineSingleUse b.definitions.length else b

lemma reduce_eq (b : Bundle) (inlineSingle : Bool) :
    b.reduce inlineSingle =
      ((b.inlineTrivial b.definitions.length).inlined inlineSingle).prune := rfl

lemma names_inlined_sublist (b : Bundle) (inlineSingle : Bool) :
    (Entries.names (b.inlined inlineSingle).definitions).Sublist
      (Entries.names b.definitions) := by
  cases inlineSingle with
  | false => exact List.Sublist.refl _
  | true => exact names_inlineSingleUse_sublist _ b

end Bundle

end ValueSchema
