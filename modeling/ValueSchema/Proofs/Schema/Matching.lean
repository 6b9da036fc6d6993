/-
# Equality, child by child

Two schemas are equal if they agree in what they are apart from their children (`sameShape`), and if
the children that belong together (`matched`) are equal.  Children belong together by their places,
the properties of two objects by their names.  Both notions do not depend on what the children are,
so a function that is applied to all children of two schemas can be followed through their equality.
-/
import ValueSchema.Proofs.Schema.Equality

namespace ValueSchema.Schema

/-- Whether two schemas agree apart from their children, and have the same places for these. -/
def sameShape : Schema → Schema → Bool
  | primitive a _, primitive b _ => a == b
  | literal a, literal b => a.same b
  | union a, union b | intersection a, intersection b | template a, template b =>
    a.length == b.length
  | tuple a f, tuple b g => f == g && a.length == b.length
  | array _, array _ => true
  | object a k, object b l =>
    a.length == b.length && (a.all fun e => Entries.contains e.1 b) && k.length == l.length
  | function a _, function b _ => Entries.names a == Entries.names b
  | binary o _ _, binary p _ _ => o == p
  | keys .., keys .. => true
  | access .., access .. => true
  | reference _ a i, reference _ b j => i == j && a.length == b.length
  | error a _, error b _ => a == b
  | _, _ => false

/-- The children of two schemas of the same shape that belong together. -/
def matched : Schema → Schema → List (Schema × Schema)
  | union a, union b | intersection a, intersection b | template a, template b
  | tuple a _, tuple b _ | reference _ a _, reference _ b _ => a.zip b
  | array a, array b => [(a, b)]
  | object a k, object b l =>
    (a.filterMap fun e => (Entries.get? e.1 b).map fun t => (e.2, t)) ++
      (k.zip l).flatMap fun p => [(p.1.1, p.2.1), (p.1.2, p.2.2)]
  | function a r, function b u => (Entries.values a).zip (Entries.values b) ++ [(r, u)]
  | binary _ a b, binary _ c d => [(a, c), (b, d)]
  | keys a _, keys b _ => [(a, b)]
  | access a b _, access c d _ => [(a, c), (b, d)]
  | _, _ => []

/-- Structural equality of the two sides of a pair. -/
abbrev EqualPair (p : Schema × Schema) : Prop := equal p.1 p.2 = true

/-! ## Lists -/

lemma equalAll_iff {items others : List Schema} :
    equalAll items others = true ↔
      items.length = others.length ∧ ∀ p ∈ items.zip others, EqualPair p := by
  induction items generalizing others with
  | nil => cases others <;> simp [equalAll]
  | cons s rest ih =>
    cases others with
    | nil => simp [equalAll]
    | cons t more =>
      rw [equalAll, Bool.and_eq_true, ih, List.zip_cons_cons, List.forall_mem_cons,
        List.length_cons, List.length_cons, Nat.add_right_cancel_iff]
      tauto

lemma equalNamed_iff {items others : List (String × Schema)} :
    equalNamed items others = true ↔ Entries.names items = Entries.names others ∧
      ∀ p ∈ (Entries.values items).zip (Entries.values others), EqualPair p := by
  induction items generalizing others with
  | nil => cases others <;> simp [equalNamed, Entries.names, Entries.values]
  | cons e rest ih =>
    cases others with
    | nil => simp [equalNamed, Entries.names]
    | cons d more =>
      rw [equalNamed, Bool.and_eq_true, Bool.and_eq_true, ih, beq_iff_eq]
      simp only [Entries.names, Entries.values, List.map_cons, List.zip_cons_cons,
        List.forall_mem_cons, List.cons.injEq]
      tauto

lemma equalPairs_iff {items others : List (Schema × Schema)} :
    equalPairs items others = true ↔ items.length = others.length ∧
      ∀ p ∈ (items.zip others).flatMap fun p => [(p.1.1, p.2.1), (p.1.2, p.2.2)],
        EqualPair p := by
  induction items generalizing others with
  | nil => cases others <;> simp [equalPairs]
  | cons e rest ih =>
    cases others with
    | nil => simp [equalPairs]
    | cons d more =>
      rw [equalPairs, Bool.and_eq_true, Bool.and_eq_true, ih, List.zip_cons_cons,
        List.flatMap_cons, List.forall_mem_append, List.forall_mem_cons, List.forall_mem_singleton,
        List.length_cons, List.length_cons, Nat.add_right_cancel_iff]
      tauto

lemma equalIn_iff {items others : List (String × Schema)} :
    equalIn items others = true ↔ (∀ e ∈ items, Entries.contains e.1 others = true) ∧
      ∀ p ∈ items.filterMap fun e => (Entries.get? e.1 others).map fun t => (e.2, t),
        EqualPair p := by
  constructor
  · intro h
    refine ⟨fun e he => ?_, fun p hp => ?_⟩
    · obtain ⟨t, hget, -⟩ := get?_of_equalIn h he
      rw [Entries.contains, hget, Option.isSome_some]
    · obtain ⟨e, he, hp⟩ := List.mem_filterMap.1 hp
      obtain ⟨t, hget, hequal⟩ := get?_of_equalIn h he
      rw [hget, Option.map_some] at hp
      obtain rfl := Option.some.inj hp
      exact hequal
  · rintro ⟨hcontains, hequal⟩
    refine equalIn_of_get? fun e he => ?_
    obtain ⟨t, hget⟩ := Option.isSome_iff_exists.1 (hcontains e he)
    exact ⟨t, hget, hequal (e.2, t) (List.mem_filterMap.2 ⟨e, he, by rw [hget]; rfl⟩)⟩

/-! ## Schemas -/

variable {s t : Schema}

/-- Equality goes through the shape and the children. -/
theorem equal_iff :
    equal s t = true ↔ sameShape s t = true ∧ ∀ p ∈ matched s t, EqualPair p := by
  cases s <;> cases t <;> try exact iff_of_false (by rintro ⟨⟩) (by rintro ⟨⟨⟩, -⟩)
  case primitive.primitive | literal.literal | error.error =>
    exact ⟨fun h => ⟨h, nofun⟩, And.left⟩
  case union.union | intersection.intersection | template.template =>
    rw [equal, sameShape, matched, beq_iff_eq, equalAll_iff]
  case tuple.tuple | reference.reference =>
    rw [equal, sameShape, matched, Bool.and_eq_true, Bool.and_eq_true, beq_iff_eq, beq_iff_eq,
      equalAll_iff, and_assoc]
  case array.array | keys.keys =>
    rw [equal, sameShape, matched, List.forall_mem_singleton]
    exact (and_iff_right rfl).symm
  case object.object =>
    rw [equal, sameShape, matched, List.forall_mem_append, Bool.and_eq_true, Bool.and_eq_true,
      Bool.and_eq_true, Bool.and_eq_true, beq_iff_eq, beq_iff_eq, List.all_eq_true, equalIn_iff,
      equalPairs_iff]
    tauto
  case function.function =>
    rw [equal, sameShape, matched, List.forall_mem_append, List.forall_mem_singleton,
      Bool.and_eq_true, beq_iff_eq, equalNamed_iff, and_assoc]
  case binary.binary =>
    rw [equal, sameShape, matched, List.forall_mem_cons, List.forall_mem_singleton,
      Bool.and_eq_true, Bool.and_eq_true, and_assoc]
  case access.access =>
    rw [equal, sameShape, matched, List.forall_mem_cons, List.forall_mem_singleton,
      Bool.and_eq_true]
    exact (and_iff_right rfl).symm

@[simp] lemma sameShape_mapChildren (f g : Schema → Schema) (s t : Schema) :
    sameShape (s.mapChildren f) (t.mapChildren g) = sameShape s t := by
  cases s <;> cases t <;> try rfl
  case union.union | intersection.intersection | template.template | tuple.tuple
      | reference.reference =>
    simp only [mapChildren, sameShape, List.length_map]
  case function.function => simp [mapChildren, sameShape, Entries.names, Function.comp_def]
  case object.object properties indexKeys others indexKeys' =>
    have hcontains : ∀ name, Entries.contains name (others.map fun e => (e.1, g e.2)) =
        Entries.contains name others := fun name => by
      rw [Entries.contains, ← Entries.mapValues, Entries.get?_mapValues, Option.isSome_map,
        Entries.contains]
    simp only [mapChildren, sameShape, List.length_map, List.all_map, Function.comp_def, hcontains]

@[simp] lemma matched_mapChildren (f g : Schema → Schema) (s t : Schema) :
    matched (s.mapChildren f) (t.mapChildren g) = (matched s t).map (Prod.map f g) := by
  cases s <;> cases t <;> try rfl
  case union.union | intersection.intersection | template.template | tuple.tuple
      | reference.reference =>
    simp only [mapChildren, matched, List.zip_map]
  case function.function =>
    have hvalues : ∀ (h : Schema → Schema) (items : Entries Schema),
        Entries.values (items.map fun e => (e.1, h e.2)) = (Entries.values items).map h :=
      fun h items => by simp [Entries.values, Function.comp_def]
    simp only [mapChildren, matched, hvalues, List.zip_map, List.map_append, List.map_singleton,
      Prod.map]
  case object.object properties indexKeys others indexKeys' =>
    have hget : ∀ name, Entries.get? name (others.map fun e => (e.1, g e.2)) =
        (Entries.get? name others).map g := fun name => Entries.get?_mapValues ..
    simp only [mapChildren, matched, List.filterMap_map, Function.comp_def, hget, Option.map_map,
      List.zip_map, List.flatMap_map, List.map_append, List.map_filterMap, List.map_flatMap]
    rfl

lemma mem_of_mem_matched_object {properties others : List (String × Schema)}
    {indexKeys indexKeys' : List (Schema × Schema)} {p : Schema × Schema}
    (h : p ∈ matched (object properties indexKeys) (object others indexKeys')) :
    p.1 ∈ (object properties indexKeys).children ∧ p.2 ∈ (object others indexKeys').children := by
  rcases List.mem_append.1 h with hproperty | hindex
  · obtain ⟨e, he, hp⟩ := List.mem_filterMap.1 hproperty
    obtain ⟨t, hget, rfl⟩ := Option.map_eq_some_iff.1 hp
    exact ⟨List.mem_append_left _ (List.mem_map_of_mem he),
      List.mem_append_left _ (List.mem_map.2 ⟨_, Entries.mem_of_get? hget, rfl⟩)⟩
  · obtain ⟨⟨a, b⟩, hab, hp⟩ := List.mem_flatMap.1 hindex
    obtain ⟨ha, hb⟩ := List.of_mem_zip hab
    refine ⟨List.mem_append_right _ (List.mem_flatMap.2 ⟨a, ha, ?_⟩),
      List.mem_append_right _ (List.mem_flatMap.2 ⟨b, hb, ?_⟩)⟩ <;>
    · rcases List.mem_pair.1 hp with rfl | rfl <;> simp

/-- Children that belong together are children. -/
lemma mem_children_of_mem_matched {p : Schema × Schema} (h : p ∈ matched s t) :
    p.1 ∈ s.children ∧ p.2 ∈ t.children := by
  cases s <;> cases t <;> try exact absurd h List.not_mem_nil
  case union.union | intersection.intersection | template.template | tuple.tuple
      | reference.reference => exact List.of_mem_zip h
  case object.object => exact mem_of_mem_matched_object h
  case function.function =>
    rcases List.mem_append.1 h with hparameter | hresult
    · exact (List.of_mem_zip hparameter).imp (List.mem_append_left _) (List.mem_append_left _)
    · obtain rfl := List.mem_singleton.1 hresult
      exact ⟨List.mem_append_right _ (List.mem_singleton_self _),
        List.mem_append_right _ (List.mem_singleton_self _)⟩
  case array.array | keys.keys =>
    obtain rfl := List.mem_singleton.1 h
    exact ⟨.head _, .head _⟩
  case binary.binary | access.access =>
    rcases List.mem_pair.1 h with rfl | rfl
    · exact ⟨.head _, .head _⟩
    · exact ⟨.tail _ (.head _), .tail _ (.head _)⟩

end ValueSchema.Schema
