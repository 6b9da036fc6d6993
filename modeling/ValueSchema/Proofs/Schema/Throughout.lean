/-
# Properties of everything inside a schema

A property holds throughout a schema if the schema and everything inside it has it.  Unions,
intersections and templates are put together from parts of their arguments; the schemas that they
add themselves are few, and objects are merged under different names.  A property that these few
have is `Composable`: if it holds throughout the arguments, then throughout the result.  With symbolic
operations it goes through all of `refold`: `Throughout.refold`.
-/
import ValueSchema.Proofs.Entries
import ValueSchema.Proofs.Schema.Composition
import ValueSchema.Proofs.Schema.Subterm
import ValueSchema.Schema.Fold

namespace ValueSchema.Schema

/-- A schema and everything inside it has a property. -/
def Throughout (p : Schema → Prop) (s : Schema) : Prop := ∀ t ∈ s.subterms, p t

instance (p : Schema → Prop) [DecidablePred p] (s : Schema) : Decidable (s.Throughout p) :=
  inferInstanceAs (Decidable (∀ t ∈ s.subterms, p t))

/-- A property of the schemas that unions, intersections and templates add to their arguments. -/
structure Composable (p : Schema → Prop) : Prop where
  plain : ∀ kind, p (plain kind)
  literal : ∀ value, p (literal value)
  union : ∀ items, p (union items)
  intersection : ∀ items, p (intersection items)
  template : ∀ items, p (template items)
  object : ∀ properties indexKeys, (Entries.names properties).Nodup →
    p (object properties indexKeys)

variable {p : Schema → Prop} {s t : Schema} {items : List Schema}

lemma throughout_iff : s.Throughout p ↔ p s ∧ ∀ t ∈ s.children, t.Throughout p := by
  constructor
  · intro h
    exact ⟨h s (self_mem_subterms s), fun t ht u hu => h u (mem_subterms_of_mem_children ht hu)⟩
  · rintro ⟨hs, hchildren⟩ t ht
    rcases mem_subterms.1 ht with rfl | ⟨u, hu, htu⟩
    · exact hs
    · exact hchildren u hu t htu

lemma throughout_of_children_eq_nil (h : s.children = []) : s.Throughout p ↔ p s := by
  rw [throughout_iff, h]
  exact and_iff_left (List.forall_mem_nil _)

namespace Throughout

lemma here (h : s.Throughout p) : p s := h s (self_mem_subterms s)

lemma of_mem_children (h : s.Throughout p) (ht : t ∈ s.children) : t.Throughout p :=
  (throughout_iff.1 h).2 t ht

lemma of_mem_alternatives (h : s.Throughout p) (ht : t ∈ s.alternatives) : t.Throughout p := by
  cases s with
  | union items => exact h.of_mem_children ht
  | _ =>
    obtain rfl := List.mem_singleton.1 ht
    exact h

lemma of_mem_conjuncts (h : s.Throughout p) (ht : t ∈ s.conjuncts) : t.Throughout p := by
  cases s with
  | intersection items => exact h.of_mem_children ht
  | _ =>
    obtain rfl := List.mem_singleton.1 ht
    exact h

lemma of_mem_parts (h : s.Throughout p) (ht : t ∈ s.parts) : t.Throughout p := by
  cases s with
  | template items => exact h.of_mem_children ht
  | _ =>
    obtain rfl := List.mem_singleton.1 ht
    exact h

lemma properties (h : s.Throughout p) : ∀ e ∈ s.properties, e.2.Throughout p := by
  cases s with
  | object properties indexKeys =>
    exact fun e he => h.of_mem_children (List.mem_append_left _ (List.mem_map_of_mem he))
  | _ => simp [Schema.properties]

lemma indexKeys (h : s.Throughout p) : ∀ e ∈ s.indexKeys, e.1.Throughout p ∧ e.2.Throughout p := by
  cases s with
  | object properties indexKeys =>
    intro e he
    have hmem : ∀ t ∈ [e.1, e.2], t ∈ (object properties indexKeys).children := fun t ht =>
      List.mem_append_right _ (List.mem_flatMap.2 ⟨e, he, ht⟩)
    exact ⟨h.of_mem_children (hmem _ (by simp)), h.of_mem_children (hmem _ (by simp))⟩
  | _ => simp [Schema.indexKeys]

end Throughout

/-- A composition of schemas, by the property of the composition itself. -/
lemma throughout_of_children (hs : p s) (h : ∀ t ∈ s.children, t.Throughout p) : s.Throughout p :=
  throughout_iff.2 ⟨hs, h⟩

/-- An object, by what is inside it. -/
lemma throughout_object {properties : List (String × Schema)} {indexKeys : List (Schema × Schema)}
    (hobject : p (object properties indexKeys)) (hproperties : ∀ e ∈ properties, e.2.Throughout p)
    (hkeys : ∀ e ∈ indexKeys, e.1.Throughout p ∧ e.2.Throughout p) :
    (object properties indexKeys).Throughout p := by
  refine throughout_of_children hobject fun t ht => ?_
  rcases List.mem_append.1 ht with hproperty | hkey
  · obtain ⟨e, he, rfl⟩ := List.mem_map.1 hproperty
    exact hproperties e he
  · obtain ⟨e, he, hte⟩ := List.mem_flatMap.1 hkey
    rcases List.mem_pair.1 hte with rfl | rfl
    · exact (hkeys e he).1
    · exact (hkeys e he).2

section

variable (hp : Composable p)

include hp

/-! ## Unions -/

lemma throughout_plain (kind : Primitive) : (plain kind).Throughout p :=
  (throughout_of_children_eq_nil rfl).2 (hp.plain kind)

lemma throughout_literal (value : Literal) : (literal value).Throughout p :=
  (throughout_of_children_eq_nil rfl).2 (hp.literal value)

lemma throughout_unionOf (h : ∀ s ∈ items, s.Throughout p) : (unionOf items).Throughout p :=
  unionOf_induction (fun s hs _ ht => (h s hs).of_mem_alternatives ht) (throughout_plain hp _)
    (throughout_plain hp _) fun members _ _ hall => throughout_of_children (hp.union members) hall

end

/-! ## Intersections -/

/-- A way to join two values that keeps a property throughout them. -/
def Joins (p : Schema → Prop) (merge : Schema → Schema → Schema) : Prop :=
  ∀ s t, s.Throughout p → t.Throughout p → (merge s t).Throughout p

lemma throughout_mergeProperty {merge : Schema → Schema → Schema} (hmerge : Joins p merge)
    {properties : Entries Schema} {e : String × Schema} (h : ∀ d ∈ properties, d.2.Throughout p)
    (he : e.2.Throughout p) : ∀ d ∈ mergeProperty merge properties e, d.2.Throughout p := by
  intro d hd
  rw [mergeProperty] at hd
  split at hd
  · rename_i existing hget
    rcases Entries.mem_of_mem_insert hd with hin | rfl
    · exact h d hin
    · exact hmerge _ _ (h (_, existing) (Entries.mem_of_get? hget)) he
  · rcases Entries.mem_of_mem_insert hd with hin | rfl
    · exact h d hin
    · exact he

lemma nodup_names_mergeProperty (merge : Schema → Schema → Schema) {properties : Entries Schema}
    (h : (Entries.names properties).Nodup) (e : String × Schema) :
    (Entries.names (mergeProperty merge properties e)).Nodup := by
  rw [mergeProperty]
  split <;> exact Entries.nodup_names_insert h _ _

section

variable (hobject : ∀ properties indexKeys, (Entries.names properties).Nodup →
  p (object properties indexKeys))

include hobject

/-- Merging objects keeps a property of objects that have different names for different
properties. -/
lemma throughout_mergeObjectsWith {merge : Schema → Schema → Schema} (hmerge : Joins p merge)
    (h : ∀ s ∈ items, s.Throughout p) : (mergeObjectsWith merge items).Throughout p := by
  have hfold : ∀ (entries properties : Entries Schema), (∀ e ∈ entries, e.2.Throughout p) →
      (Entries.names properties).Nodup → (∀ e ∈ properties, e.2.Throughout p) →
      (Entries.names (entries.foldl (mergeProperty merge) properties)).Nodup ∧
        ∀ e ∈ entries.foldl (mergeProperty merge) properties, e.2.Throughout p := by
    intro entries
    induction entries with
    | nil => exact fun _ _ hnames hproperties => ⟨hnames, hproperties⟩
    | cons e rest ih =>
      intro properties hentries hnames hproperties
      refine ih _ (fun d hd => hentries d (List.mem_cons_of_mem _ hd))
        (nodup_names_mergeProperty merge hnames e) ?_
      exact throughout_mergeProperty hmerge hproperties (hentries e (List.mem_cons_self ..))
  have hentries : ∀ e ∈ items.flatMap properties, e.2.Throughout p := by
    intro e he
    obtain ⟨s, hs, hes⟩ := List.mem_flatMap.1 he
    exact (h s hs).properties e hes
  obtain ⟨hnames, hvalues⟩ := hfold _ [] hentries List.nodup_nil (List.forall_mem_nil _)
  refine throughout_object (hobject _ _ hnames) hvalues fun e he => ?_
  obtain ⟨s, hs, hes⟩ := List.mem_flatMap.1 he
  exact (h s hs).indexKeys e hes

/-- Joining two values keeps what merging objects and intersecting keep. -/
lemma joins_mergeValues_of (hintersection : ∀ merge, Joins p merge → ∀ items : List Schema,
    (∀ s ∈ items, s.Throughout p) → (intersectionWith merge items).Throughout p) (depth : Nat) :
    Joins p (mergeValues depth) := by
  induction depth with
  | zero => exact fun s t _ ht => ht
  | succ depth ih =>
    intro s t hs ht
    have hboth : ∀ u ∈ [s, t], u.Throughout p := by simp [hs, ht]
    rw [mergeValues]
    split
    · exact throughout_mergeObjectsWith hobject ih hboth
    · split
      · exact ht
      · exact hintersection _ ih _ hboth

end

section

variable (hp : Composable p)

include hp

lemma throughout_intersectionWith {merge : Schema → Schema → Schema} (hmerge : Joins p merge)
    (h : ∀ s ∈ items, s.Throughout p) : (intersectionWith merge items).Throughout p :=
  intersectionWith_induction (fun s hs _ ht => (h s hs).of_mem_conjuncts ht)
    (throughout_plain hp _) (throughout_plain hp _)
    (fun _ hall => throughout_mergeObjectsWith hp.object hmerge hall)
    fun members _ _ hall => throughout_of_children (hp.intersection members) hall

lemma throughout_intersectionOf (h : ∀ s ∈ items, s.Throughout p) :
    (intersectionOf items).Throughout p :=
  throughout_intersectionWith hp (joins_mergeValues_of hp.object
    (fun _ hmerge _ hitems => throughout_intersectionWith hp hmerge hitems) _) h

/-! ## Templates -/

lemma throughout_joinTexts (h : ∀ s ∈ items, s.Throughout p) :
    ∀ s ∈ joinTexts items, s.Throughout p := by
  intro s hs
  rcases mem_joinTexts hs with hin | hliteral
  · exact h s hin
  · cases s with
    | literal value => exact throughout_literal hp value
    | _ => cases hliteral

lemma throughout_templateOf (h : ∀ s ∈ items, s.Throughout p) (cap : Nat) :
    (templateOf items cap).Throughout p := by
  have hparts : ∀ s ∈ items.flatMap parts, s.Throughout p := by
    intro t ht
    obtain ⟨s, hs, hts⟩ := List.mem_flatMap.1 ht
    exact (h s hs).of_mem_parts hts
  rcases templateOf_cases items cap with ⟨combinations, -, heq⟩ | heq | ⟨texts, htexts, heq⟩
  · rw [heq]
    refine throughout_unionOf hp fun t ht => ?_
    obtain ⟨c, -, rfl⟩ := List.mem_map.1 ht
    exact throughout_literal hp _
  · rw [heq]
    exact throughout_literal hp _
  · rw [heq]
    exact throughout_of_children (hp.template texts) fun s hs =>
      throughout_joinTexts hp hparts s (htexts s hs)

/-! ## Operators -/

variable (hbinary : ∀ op left right, p (binary op left right))

include hbinary

lemma throughout_foldPair {op : BinaryOperator} {left right : Schema} (hl : left.Throughout p)
    (hr : right.Throughout p) : (foldPair op left right).Throughout p := by
  have hsymbolic : (binary op left right).Throughout p := by
    refine throughout_of_children (hbinary _ _ _) fun t ht => ?_
    rcases List.mem_pair.1 ht with rfl | rfl <;> assumption
  rw [foldPair]
  split
  · exact hsymbolic
  · split
    · split <;> assumption
    · split <;> assumption
    · split <;> assumption
    · split
      · exact throughout_literal hp _
      · exact hsymbolic

lemma throughout_foldBinary {op : BinaryOperator} {left right : Schema} (hl : left.Throughout p)
    (hr : right.Throughout p) (cap : Nat) : (foldBinary op left right cap).Throughout p := by
  rw [foldBinary]
  split
  · exact hr
  · split
    · refine throughout_of_children (hbinary _ _ _) fun t ht => ?_
      rcases List.mem_pair.1 ht with rfl | rfl <;> assumption
    · rename_i pairs hpairs
      refine throughout_unionOf hp fun t ht => ?_
      obtain ⟨pair, hpair, rfl⟩ := List.mem_map.1 ht
      obtain ⟨a, ha, b, hb, rfl⟩ := exists_of_mem_cartesian hpairs hpair
      exact throughout_foldPair hp hbinary (hl.of_mem_alternatives ha) (hr.of_mem_alternatives hb)

lemma throughout_refoldStep (h : s.Throughout p) (cap : Nat) : (refoldStep cap s).Throughout p := by
  have hchildren : ∀ t ∈ s.children, t.Throughout p := fun t ht => h.of_mem_children ht
  cases s with
  | binary op left right =>
    exact throughout_foldBinary hp hbinary (hchildren left (by simp [children]))
      (hchildren right (by simp [children])) cap
  | template items => exact throughout_templateOf hp hchildren cap
  | union items => exact throughout_unionOf hp hchildren
  | intersection items => exact throughout_intersectionOf hp hchildren
  | _ => exact h

end

/-! ## Traversals -/

/-- A transformation keeps a property that does not depend on the children of a schema. -/
lemma Throughout.transform {before? : Schema → Option Schema} {after : Schema → Schema}
    (hmap : ∀ (s : Schema) (f : Schema → Schema), p s → p (s.mapChildren f))
    (hbefore : ∀ s t, before? s = some t → t.Throughout p)
    (hafter : ∀ s : Schema, s.Throughout p → (after s).Throughout p) (h : s.Throughout p) :
    (s.transform before? after).Throughout p := by
  induction s using induction with
  | step s ih =>
    rw [transform_eq]
    rcases hb : before? s with _ | t
    · refine hafter _ (throughout_of_children (hmap s _ h.here) fun t ht => ?_)
      rw [children_mapChildren] at ht
      obtain ⟨u, hu, rfl⟩ := List.mem_map.1 ht
      exact ih u hu (h.of_mem_children hu)
    · exact hbefore s t hb

/-- Folding again keeps a property that does not depend on the children of a schema and that the
schemas which are added have. -/
theorem Throughout.refold (hp : Composable p) (hbinary : ∀ op left right, p (binary op left right))
    (hmap : ∀ (s : Schema) (f : Schema → Schema), p s → p (s.mapChildren f)) (h : s.Throughout p)
    (cap : Nat) : (s.refold cap).Throughout p :=
  h.transform hmap (fun _ _ hnone => by cases hnone) fun _ ht =>
    throughout_refoldStep hp hbinary ht cap

end ValueSchema.Schema
