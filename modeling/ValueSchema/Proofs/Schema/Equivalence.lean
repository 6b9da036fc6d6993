/-
# Equality respects what is asked of schemas

On the schemas whose objects have different names for different properties, structural equality is
an equivalence relation.  Equal schemas are alike in two respects that the rest of the library asks
about: whether anything inside them is unresolved, and whether they admit `undefined`.

Equality looks only for the properties of the left side on the right side.  So for concreteness it
is shown first that nothing on the left is unresolved if nothing on the right is; the other
direction is symmetry.
-/
import ValueSchema.Proofs.Schema.Matching

namespace ValueSchema.Schema

/-- The properties of a schema have different names. -/
def NamesApart (s : Schema) : Prop := (Entries.names s.properties).Nodup

instance : DecidablePred NamesApart :=
  fun s => inferInstanceAs (Decidable (Entries.names s.properties).Nodup)

/-- A schema in which the properties of each object have different names. -/
abbrev WellNamed := { s : Schema // s.Throughout NamesApart }

/-- All references and all origins. -/
def everything : Vocabulary := .ofReferences fun _ _ => True

/-- Where everything may be spoken of, only the names of properties matter. -/
lemma within_of_namesApart {s : Schema} (h : s.Throughout NamesApart) : s.Within everything := by
  intro t ht
  have hnames := h t ht
  cases t with
  | object properties indexKeys => exact hnames
  | primitive | keys | access | error => exact fun _ _ => trivial
  | _ => trivial

/-! ## Concreteness -/

variable {s t : Schema}

lemma isConcrete_iff :
    s.isConcrete = true ↔ s.isUnresolved = false ∧ ∀ t ∈ s.children, t.isConcrete = true := by
  have hall : ∀ u : Schema, u.isConcrete = true ↔ u.Throughout fun v => v.isUnresolved = false :=
    fun u => by simp [isConcrete, Throughout]
  simp only [hall]
  exact throughout_iff

lemma isUnresolved_of_sameShape (h : sameShape s t = true) : s.isUnresolved = t.isUnresolved := by
  cases s <;> cases t <;> try cases h
  case object.object =>
    obtain ⟨-, hlength⟩ := Bool.and_eq_true_iff.1 h
    have hempty := congrArg (· = 0) (beq_iff_eq.1 hlength)
    simp only [← List.isEmpty_iff_length_eq_zero, ← Bool.eq_iff_iff, eq_iff_iff] at hempty
    rw [isUnresolved, isUnresolved, hempty]
  all_goals rfl

lemma exists_mem_zip {α β : Type} {xs : List α} {ys : List β} {a : α}
    (hlength : xs.length = ys.length) (ha : a ∈ xs) : ∃ b, (a, b) ∈ xs.zip ys := by
  have hfst : (xs.zip ys).map Prod.fst = xs := List.map_fst_zip hlength.le
  rw [← hfst] at ha
  obtain ⟨⟨a', b⟩, hmem, rfl⟩ := List.mem_map.1 ha
  exact ⟨b, hmem⟩

/-- Every child of a schema has a partner in a schema of the same shape. -/
lemma exists_mem_matched (h : sameShape s t = true) {a : Schema} (ha : a ∈ s.children) :
    ∃ b, (a, b) ∈ matched s t := by
  cases s <;> cases t <;> try cases h
  case primitive.primitive | literal.literal | error.error => cases ha
  case union.union | intersection.intersection | template.template =>
    exact exists_mem_zip (beq_iff_eq.1 h) ha
  case tuple.tuple | reference.reference =>
    exact exists_mem_zip (beq_iff_eq.1 (Bool.and_eq_true_iff.1 h).2) ha
  case array.array | keys.keys =>
    obtain rfl := List.mem_singleton.1 ha
    exact ⟨_, .head _⟩
  case object.object properties indexKeys others indexKeys' =>
    rw [sameShape, Bool.and_eq_true, Bool.and_eq_true, beq_iff_eq, List.all_eq_true] at h
    obtain ⟨⟨-, hcontains⟩, hlength⟩ := h
    rcases List.mem_append.1 ha with hproperty | hindex
    · obtain ⟨e, he, rfl⟩ := List.mem_map.1 hproperty
      obtain ⟨b, hb⟩ := Option.isSome_iff_exists.1 (hcontains e he)
      refine ⟨b, List.mem_append_left _ (List.mem_filterMap.2 ⟨e, he, ?_⟩)⟩
      rw [hb, Option.map_some]
    · obtain ⟨e, he, hae⟩ := List.mem_flatMap.1 hindex
      obtain ⟨d, hd⟩ := exists_mem_zip (beq_iff_eq.1 hlength) he
      have hpair : ∀ b, (a, b) ∈ [(e.1, d.1), (e.2, d.2)] →
          (a, b) ∈ matched (object properties indexKeys) (object others indexKeys') :=
        fun b hb => List.mem_append_right _ (List.mem_flatMap.2 ⟨(e, d), hd, hb⟩)
      rcases List.mem_pair.1 hae with rfl | rfl
      · exact ⟨d.1, hpair _ (by simp)⟩
      · exact ⟨d.2, hpair _ (by simp)⟩
  case function.function parameters _ others _ =>
    rcases List.mem_append.1 ha with hparameter | hresult
    · have hlength : (Entries.values parameters).length = (Entries.values others).length := by
        simpa [Entries.names, Entries.values] using congrArg List.length (beq_iff_eq.1 h)
      obtain ⟨b, hb⟩ := exists_mem_zip hlength hparameter
      exact ⟨b, List.mem_append_left _ hb⟩
    · obtain rfl := List.mem_singleton.1 hresult
      exact ⟨_, List.mem_append_right _ (List.mem_singleton_self _)⟩
  case binary.binary | access.access =>
    rcases List.mem_pair.1 ha with rfl | rfl
    · exact ⟨_, .head _⟩
    · exact ⟨_, .tail _ (.head _)⟩

/-- The induction goes through the children of the left side, each of which has a partner. -/
lemma isConcrete_of_equal (h : equal s t = true) (ht : t.isConcrete = true) :
    s.isConcrete = true := by
  induction s using induction generalizing t with
  | step s ih =>
    obtain ⟨hshape, hmatched⟩ := equal_iff.1 h
    obtain ⟨hresolved, hchildren⟩ := isConcrete_iff.1 ht
    refine isConcrete_iff.2 ⟨(isUnresolved_of_sameShape hshape).trans hresolved, fun a ha => ?_⟩
    obtain ⟨b, hb⟩ := exists_mem_matched hshape ha
    have hb' : b ∈ t.children := (mem_children_of_mem_matched hb).2
    exact ih a ha (hmatched (a, b) hb) (hchildren b hb')

/-! ## The value `undefined` -/

lemma anyAcceptsUndefined_of_equalAll {items others : List Schema}
    (hitems : ∀ s ∈ items, ∀ t, equal s t = true → s.acceptsUndefined = t.acceptsUndefined)
    (h : equalAll items others = true) :
    anyAcceptsUndefined items = anyAcceptsUndefined others := by
  induction items generalizing others with
  | nil =>
    cases others with
    | nil => rfl
    | cons => cases h
  | cons s rest ih =>
    cases others with
    | nil => cases h
    | cons t more =>
      rw [equalAll, Bool.and_eq_true] at h
      have hfirst := hitems s (by simp) t h.1
      have hrest := ih (fun u hu => hitems u (by simp [hu])) h.2
      rw [anyAcceptsUndefined, anyAcceptsUndefined, hfirst, hrest]

/-- Only the members of unions are looked at, and these are compared one by one. -/
lemma acceptsUndefined_of_equal (h : equal s t = true) :
    s.acceptsUndefined = t.acceptsUndefined := by
  induction s using induction generalizing t with
  | step s ih =>
    cases s <;> cases t <;> try cases h
    case primitive.primitive a _ b _ =>
      obtain rfl : a = b := beq_iff_eq.1 h
      cases a <;> rfl
    case literal.literal a b =>
      rcases Literal.same_iff.1 h with rfl | ⟨rfl | rfl, rfl | rfl⟩ <;> rfl
    case union.union => exact anyAcceptsUndefined_of_equalAll (fun u hu v => ih u hu) h
    all_goals rfl

/-! ## The equivalence relation -/

/-- Structural equality is an equivalence relation on schemas with different names for the
properties of each object, and equal ones agree on whether they are concrete and on whether they
admit `undefined`. -/
theorem equal_equivalence :
    Equivalence (fun s t : WellNamed => equal s.1 t.1 = true) ∧
      ∀ s t : WellNamed, equal s.1 t.1 = true →
        s.1.isConcrete = t.1.isConcrete ∧ s.1.acceptsUndefined = t.1.acceptsUndefined := by
  have hsymm : ∀ s t : WellNamed, equal s.1 t.1 = true → equal t.1 s.1 = true := fun s t h =>
    equal_symm (within_of_namesApart s.2) (within_of_namesApart t.2) h
  refine ⟨⟨fun s => ?_, fun {s t} => hsymm s t, fun h h' => equal_trans h h'⟩, fun s t h => ?_⟩
  · exact equal_self (within_of_namesApart s.2)
  · refine ⟨Bool.eq_iff_iff.2 ⟨?_, ?_⟩, acceptsUndefined_of_equal h⟩
    · exact isConcrete_of_equal (hsymm s t h)
    · exact isConcrete_of_equal h

/-- An object with a value that is not a number. -/
def reading : WellNamed :=
  ⟨objectOf [("value", number Number.nan), ("unit", reference "Unit" [null] "unit")], by decide⟩

/-- The same properties in another order, with another name for the definition. -/
def renamedReading : WellNamed :=
  ⟨objectOf [("unit", reference "Metre" [null] "unit"), ("value", number Number.nan)], by decide⟩

theorem equal_reading :
    equal reading.1 reading.1 = true ∧ equal reading.1 renamedReading.1 = true ∧
      equal renamedReading.1 reading.1 = true ∧
      reading.1.isConcrete = renamedReading.1.isConcrete := by
  have hequal : equal reading.1 renamedReading.1 = true := by decide +kernel
  obtain ⟨hequivalence, hagree⟩ := equal_equivalence
  exact ⟨hequivalence.refl reading, hequal, hequivalence.symm hequal, (hagree _ _ hequal).1⟩

end ValueSchema.Schema
