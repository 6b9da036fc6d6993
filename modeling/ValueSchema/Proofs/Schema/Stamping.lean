/-
# Stamping

What is unresolved in a schema has a place for an origin, and stamping writes into these places: into
those that are empty, or into all of them.  Both are cases of `Schema.stamp`, which applies a function
to each place.  It commutes with going into a schema, so that the schemas inside a stamped one are the
stamped ones inside, one by one.  All else is read off from that: a stamped schema is equal to the one
before, its inputs are the origins before and the new one if a place was empty, and after stamping all
places the inputs tell whether there is any place at all.
-/
import ValueSchema.Proofs.Schema.Equivalence
import ValueSchema.Proofs.Schema.Inputs
import ValueSchema.Proofs.Schema.Storage
import ValueSchema.Proofs.Schema.Transparency

namespace ValueSchema.Schema

variable {f g : Option NodeId → Option NodeId} {v : Vocabulary} {s t : Schema} {n o : NodeId}

/-- Applies a function to the origin of everything unresolved inside a schema. -/
def stamp (f : Option NodeId → Option NodeId) : Schema → Schema :=
  transform (fun _ => none) (mapOrigin f)

lemma stamp_eq (f : Option NodeId → Option NodeId) (s : Schema) :
    s.stamp f = (s.mapChildren (stamp f)).mapOrigin f := transform_eq _ _ s

lemma withOrigin_eq_stamp (o : NodeId) : withOrigin o = stamp fun old => old.or (some o) := rfl

lemma overrideOrigin_eq_stamp (o : NodeId) : overrideOrigin o = stamp fun _ => some o := rfl

lemma eraseOrigins_eq_stamp : eraseOrigins = stamp fun _ => none := rfl

/-! ## What is inside -/

@[simp] lemma children_mapOrigin (f : Option NodeId → Option NodeId) (s : Schema) :
    (s.mapOrigin f).children = s.children := by
  cases s <;> rfl

lemma mapOrigin_mapOrigin (f g : Option NodeId → Option NodeId) (s : Schema) :
    (s.mapOrigin g).mapOrigin f = s.mapOrigin (f ∘ g) := by
  cases s <;> rfl

lemma mapChildren_mapOrigin (h : Schema → Schema) (f : Option NodeId → Option NodeId)
    (s : Schema) : (s.mapOrigin f).mapChildren h = (s.mapChildren h).mapOrigin f := by
  cases s <;> rfl

lemma children_stamp (f : Option NodeId → Option NodeId) (s : Schema) :
    (s.stamp f).children = s.children.map (stamp f) := by
  rw [stamp_eq, children_mapOrigin, children_mapChildren]

/-- The schemas inside a stamped schema are those inside it before, stamped. -/
lemma subterms_stamp (f : Option NodeId → Option NodeId) (s : Schema) :
    (s.stamp f).subterms = s.subterms.map (stamp f) := by
  induction s using induction with
  | step s ih =>
    rw [subterms_eq, subterms_eq s, children_stamp, List.map_cons, List.flatMap_map,
      List.map_flatMap]
    exact congrArg _ (List.flatMap_congr ih)

lemma origin?_stamp (f : Option NodeId → Option NodeId) (s : Schema) :
    (s.stamp f).origin? = if s.isSlot then f s.origin? else none := by
  rw [stamp_eq, origin?_mapOrigin, isSlot_mapChildren, origin?_mapChildren]

lemma origin?_eq_none_of_not_isSlot (h : s.isSlot = false) : s.origin? = none := by
  cases s with
  | primitive | error | keys | access => cases h
  | _ => rfl

/-- Only the last of two stamps on one place remains. -/
lemma stamp_stamp (f g : Option NodeId → Option NodeId) (s : Schema) :
    (s.stamp g).stamp f = s.stamp (f ∘ g) := by
  induction s using induction with
  | step s ih =>
    rw [stamp_eq g, stamp_eq f, stamp_eq (f ∘ g), mapChildren_mapOrigin, mapChildren_mapChildren,
      mapOrigin_mapOrigin]
    exact congrArg _ (mapChildren_congr ih)

lemma eraseOrigins_stamp (f : Option NodeId → Option NodeId) (s : Schema) :
    (s.stamp f).eraseOrigins = s.eraseOrigins := by
  rw [eraseOrigins_eq_stamp, stamp_stamp]
  rfl

/-! ## Equality -/

lemma sameShape_mapOrigin (f : Option NodeId → Option NodeId) (s t : Schema) :
    sameShape (s.mapOrigin f) t = sameShape s t := by
  cases s <;> cases t <;> rfl

lemma matched_mapOrigin (f : Option NodeId → Option NodeId) (s t : Schema) :
    matched (s.mapOrigin f) t = matched s t := by
  cases s <;> cases t <;> rfl

/-- A stamped schema is equal to the one before.  The children that belong together are equal before
stamping, as the properties of an object have different names. -/
lemma equal_stamp (f : Option NodeId → Option NodeId) (h : s.Within v) :
    equal (s.stamp f) s = true := by
  induction s using induction with
  | step s ih =>
    obtain ⟨hshape, hmatched⟩ := equal_iff.1 (equal_self h)
    -- stamping the children keeps the shape and the pairs of children, so the pairs can be compared
    have hshape' := sameShape_mapChildren (stamp f) (fun t => t) s s
    have hmatched' := matched_mapChildren (stamp f) (fun t => t) s s
    rw [mapChildren_id] at hshape' hmatched'
    rw [equal_iff, stamp_eq, sameShape_mapOrigin, matched_mapOrigin, hshape', hmatched']
    refine ⟨hshape, List.forall_mem_map.2 fun p hp => ?_⟩
    have hchild := (mem_children_of_mem_matched hp).1
    exact equal_trans (ih p.1 hchild (h.of_mem_children hchild)) (hmatched p hp)

/-! ## Inputs -/

lemma eraseDups_of_forall_eq {α : Type} [BEq α] [LawfulBEq α] {l : List α} {a : α} (hne : l ≠ [])
    (h : ∀ b ∈ l, b = a) : l.eraseDups = [a] := by
  obtain ⟨b, rest, rfl⟩ := List.exists_cons_of_ne_nil hne
  obtain ⟨rfl, hrest⟩ := List.forall_mem_cons.1 h
  have hnone : rest.filter (fun c => !c == b) = [] := by
    simpa [List.filter_eq_nil_iff] using hrest
  rw [List.eraseDups_cons, hnone, List.eraseDups_nil]

/-- After stamping the inputs are what the function makes of the origins. -/
lemma mem_inputs_stamp : n ∈ (s.stamp f).inputs ↔
    ∃ t ∈ s.subterms, t.isSlot = true ∧ f t.origin? = some n := by
  simp only [mem_inputs, subterms_stamp, List.mem_map, exists_exists_and_eq_and, origin?_stamp,
    Option.ite_none_right_eq_some]

lemma inputs_overrideOrigin (o : NodeId) (s : Schema) : (s.overrideOrigin o).inputs =
    if s.subterms.any isSlot then [o] else [] := by
  have hmem : ∀ n, n ∈ (s.overrideOrigin o).subterms.filterMap origin? ↔
      s.subterms.any isSlot = true ∧ n = o := by
    intro n
    rw [← List.mem_eraseDups, overrideOrigin_eq_stamp, List.any_eq_true]
    refine mem_inputs_stamp.trans ⟨?_, ?_⟩
    · rintro ⟨t, ht, hslot, horigin⟩
      exact ⟨⟨t, ht, hslot⟩, (Option.some.inj horigin).symm⟩
    · rintro ⟨⟨t, ht, hslot⟩, rfl⟩
      exact ⟨t, ht, hslot, rfl⟩
  split
  · rename_i hany
    exact eraseDups_of_forall_eq (List.ne_nil_of_mem ((hmem o).2 ⟨hany, rfl⟩))
      fun n hn => ((hmem n).1 hn).2
  · rename_i hnone
    rw [inputs, List.eq_nil_iff_forall_not_mem.2 fun n hn => hnone ((hmem n).1 hn).1]
    rfl

/-- An origin that is there is kept, and an empty place gets the new one. -/
lemma origin?_withOrigin (o : NodeId) (s : Schema) :
    (s.withOrigin o).origin? = if s.isSlot then some (s.origin?.getD o) else none := by
  rw [withOrigin_eq_stamp, origin?_stamp]
  cases s.origin? <;> rfl

lemma mem_inputs_withOrigin : n ∈ (s.withOrigin o).inputs ↔
    n ∈ s.inputs ∨ n = o ∧ ∃ t ∈ s.subterms, t.isSlot = true ∧ t.origin? = none := by
  rw [withOrigin_eq_stamp, mem_inputs_stamp, mem_inputs]
  constructor
  · rintro ⟨t, ht, hslot, horigin⟩
    cases hold : t.origin? with
    | none =>
      rw [hold] at horigin
      exact Or.inr ⟨(Option.some.inj horigin).symm, t, ht, hslot, hold⟩
    | some m =>
      rw [hold] at horigin
      exact Or.inl ⟨t, ht, hold.trans horigin⟩
  · rintro (⟨t, ht, horigin⟩ | ⟨rfl, t, ht, hslot, hold⟩)
    · -- only what has a place for an origin can have one
      have hslot : t.isSlot = true := by
        by_contra hslot
        rw [origin?_eq_none_of_not_isSlot (by simpa using hslot)] at horigin
        cases horigin
      exact ⟨t, ht, hslot, by rw [horigin]; rfl⟩
    · exact ⟨t, ht, hslot, by rw [hold]; rfl⟩

/-! ## Concreteness -/

lemma isUnresolved_eq_false_iff :
    s.isUnresolved = false ↔ s.isSlot = false ∧ s.indexKeys = [] := by
  cases s <;> simp [isUnresolved, isSlot, indexKeys]

lemma isConcrete_iff_inputs_overrideOrigin (o : NodeId) : s.isConcrete = true ↔
    (s.overrideOrigin o).inputs = [] ∧ ∀ t ∈ s.subterms, t.indexKeys = [] := by
  have hempty : (s.overrideOrigin o).inputs = [] ↔ ∀ t ∈ s.subterms, t.isSlot = false := by
    rw [inputs_overrideOrigin]
    simp
  rw [hempty, isConcrete, List.all_eq_true]
  simp only [Bool.not_eq_true', isUnresolved_eq_false_iff]
  exact forall₂_and

/-- Stamping touches nothing but origins, so that the schemas with and without a stamp are equal.  A
stamp on what has no origin keeps every origin, node by node, and adds the new one to the inputs if
something unresolved had none.  A stamp on everything leaves the new origin as the only input, if any,
and the schema is concrete if and only if there is none then and no object has open keys. -/
theorem stamps_origins_only (h : s.Throughout NamesApart) (o : NodeId) :
    ((s.withOrigin o).eraseOrigins = s.eraseOrigins ∧
      (s.overrideOrigin o).eraseOrigins = s.eraseOrigins ∧
      equal (s.withOrigin o) s = true ∧ equal (s.overrideOrigin o) s = true) ∧
    ((s.withOrigin o).subterms.map origin? =
        s.subterms.map (fun t => if t.isSlot then some (t.origin?.getD o) else none) ∧
      ∀ n, n ∈ (s.withOrigin o).inputs ↔
        n ∈ s.inputs ∨ n = o ∧ ∃ t ∈ s.subterms, t.isSlot = true ∧ t.origin? = none) ∧
    ((s.overrideOrigin o).inputs = [o] ∨ (s.overrideOrigin o).inputs = []) ∧
    (s.isConcrete = true ↔
      (s.overrideOrigin o).inputs = [] ∧ ∀ t ∈ s.subterms, t.indexKeys = []) := by
  have hwithin := within_of_namesApart h
  have hplaces : (s.withOrigin o).subterms.map origin? =
      s.subterms.map fun t => if t.isSlot then some (t.origin?.getD o) else none := by
    rw [withOrigin_eq_stamp, subterms_stamp, List.map_map, ← withOrigin_eq_stamp]
    exact List.map_congr_left fun t _ => origin?_withOrigin o t
  have honly : (s.overrideOrigin o).inputs = [o] ∨ (s.overrideOrigin o).inputs = [] := by
    rw [inputs_overrideOrigin]
    exact ite_eq_or_eq ..
  exact ⟨⟨eraseOrigins_stamp _ s, eraseOrigins_stamp _ s, equal_stamp _ hwithin,
    equal_stamp _ hwithin⟩, ⟨hplaces, fun _ => mem_inputs_withOrigin⟩, honly,
    isConcrete_iff_inputs_overrideOrigin o⟩

/-- An object with a number that has an origin, and with the element of a list that has none. -/
def partlyStamped : Schema :=
  objectOf [("size", primitive .number (some ⟨1⟩)),
    ("first", access (reference "List" [plain .string] "List") (number 0) none)]

/-- An object with a value under an open key, and nothing else. -/
def openKeyed : Schema := object [] [(string "x", null)]

/-- The number keeps its origin, while the element of the list and the type of its elements get the new
one.  The open key is no place for an origin, but it keeps its object from being concrete. -/
theorem stamps_origins_only_partlyStamped :
    (equal (partlyStamped.withOrigin ⟨7⟩) partlyStamped = true ∧
      ⟨1⟩ ∈ (partlyStamped.withOrigin ⟨7⟩).inputs ∧ ⟨7⟩ ∈ (partlyStamped.withOrigin ⟨7⟩).inputs ∧
      (partlyStamped.overrideOrigin ⟨7⟩).inputs = [⟨7⟩] ∧ partlyStamped.isConcrete = false) ∧
    (openKeyed.overrideOrigin ⟨7⟩).inputs = [] ∧ openKeyed.isConcrete = false := by
  obtain ⟨⟨-, -, hequal, -⟩, ⟨-, hinputs⟩, honly, hconcrete⟩ :=
    stamps_origins_only (s := partlyStamped) (by decide) ⟨7⟩
  obtain ⟨-, -, -, hopen⟩ := stamps_origins_only (s := openKeyed) (by decide) ⟨7⟩
  refine ⟨⟨hequal, (hinputs _).2 (Or.inl (by decide)), (hinputs _).2 (Or.inr ⟨rfl, ?_⟩), ?_, ?_⟩,
    by decide, ?_⟩
  · have hitem : partlyStamped.subterms[4]? = some (plain .string) := rfl
    exact ⟨plain .string, List.mem_of_getElem? hitem, rfl, rfl⟩
  · exact honly.resolve_right (by decide)
  · rw [Bool.eq_false_iff, Ne, hconcrete]
    exact fun hall => absurd hall.1 (by decide)
  · rw [Bool.eq_false_iff, Ne, hopen]
    exact fun hall => absurd (hall.2 openKeyed (self_mem_subterms _)) (List.cons_ne_nil _ _)

end ValueSchema.Schema
