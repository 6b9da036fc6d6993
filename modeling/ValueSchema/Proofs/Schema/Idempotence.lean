/-
# Folding again a second time

`refold` works from the leaves up, and each step puts a schema together from children that have been
folded.  It is idempotent (`refold_refold`), because the steps keep a common normal form, `Folded`.
A folded schema is one that a further step leaves as it is, at every place inside it:

* the members of a union are in normal form and are no unions, and so for intersections;
* the parts of a template are no templates, and the template is still symbolic;
* an operation is still symbolic, because its operands are not known or have too many alternatives.

There is one lemma for each step.  A union, an operation on alternatives and a template may give one of
their members as it is, and merged objects have values that are intersections in turn; in each case what
comes out has been folded before or is in normal form now.
-/
import ValueSchema.Proofs.Schema.Template

namespace ValueSchema.Schema

/-- A further step leaves a schema as it is, if its children are folded. -/
def FoldedHere (cap : Nat) : Schema → Prop
  | union items => (2 ≤ items.length ∧ UnionNormal items) ∧ ∀ t ∈ items, t.alternatives = [t]
  | intersection items =>
    (2 ≤ items.length ∧ IntersectionNormal items) ∧ ∀ t ∈ items, t.conjuncts = [t]
  | template items => templateOf items cap = template items ∧ ∀ t ∈ items, t.parts = [t]
  | binary op left right => foldBinary op left right cap = binary op left right
  | _ => True

/-- A further step leaves everything inside a schema as it is. -/
abbrev Folded (cap : Nat) (s : Schema) : Prop := s.Throughout (FoldedHere cap)

variable {cap : Nat} {s t : Schema} {items : List Schema} {op : BinaryOperator}

lemma FoldedHere.refoldStep_eq (h : s.FoldedHere cap) : refoldStep cap s = s := by
  cases s with
  | union items =>
    obtain ⟨⟨hlength, hnormal⟩, hflat⟩ := h
    exact (unionOf_of_unionNormal hnormal hflat).trans (ofMembers_of_two_le_length hlength)
  | intersection items =>
    obtain ⟨⟨hlength, hnormal⟩, hflat⟩ := h
    exact intersectionOf_of_intersectionNormal hlength hnormal hflat
  | template items => exact h.1
  | binary op left right => exact h
  | _ => rfl

/-- A folded schema stays as it is. -/
theorem Folded.refold_eq (h : s.Folded cap) : s.refold cap = s := by
  induction s using induction with
  | step s ih =>
    have hchildren : s.mapChildren (refold cap) = s := by
      rw [mapChildren_congr fun t ht => ih t ht (h.of_mem_children ht), mapChildren_id]
    rw [Schema.refold_eq, hchildren, h.here.refoldStep_eq]

lemma folded_literal (cap : Nat) (value : Literal) : (literal value).Folded cap :=
  (throughout_of_children_eq_nil rfl).2 trivial

lemma folded_plain (cap : Nat) (kind : Primitive) : (plain kind).Folded cap :=
  (throughout_of_children_eq_nil rfl).2 trivial

/-! ## Unions -/

/-- The alternatives of a folded schema are folded and are no unions. -/
lemma Folded.of_mem_alternatives (h : s.Folded cap) (ht : t ∈ s.alternatives) :
    t.Folded cap ∧ t.alternatives = [t] := by
  refine ⟨Throughout.of_mem_alternatives h ht, ?_⟩
  cases s with
  | union items => exact h.here.2 t ht
  | _ =>
    obtain rfl := List.mem_singleton.1 ht
    rfl

lemma Folded.alternatives_ne_nil (h : s.Folded cap) : s.alternatives ≠ [] := by
  cases s with
  | union items => exact ne_nil_of_two_le_length h.here.1.1
  | _ => exact List.cons_ne_nil _ _

/-- A union of schemas whose alternatives are folded and are no unions. -/
lemma folded_unionOf_of_alternatives
    (h : ∀ s ∈ items, ∀ t ∈ s.alternatives, t.Folded cap ∧ t.alternatives = [t]) :
    (unionOf items).Folded cap := by
  refine unionOf_of_members h (folded_plain cap _) ⟨folded_plain cap _, rfl⟩ (fun t ht => ht.1)
    fun members hlength hnormal hall => ?_
  exact throughout_of_children ⟨⟨hlength, hnormal⟩, fun t ht => (hall t ht).2⟩ fun t ht =>
    (hall t ht).1

lemma folded_unionOf (h : ∀ s ∈ items, s.Folded cap) : (unionOf items).Folded cap :=
  folded_unionOf_of_alternatives fun s hs _ ht => (h s hs).of_mem_alternatives ht

/-! ## Intersections -/

/-- The members of a folded schema are folded and are no intersections. -/
lemma Folded.of_mem_conjuncts (h : s.Folded cap) (ht : t ∈ s.conjuncts) :
    t.Folded cap ∧ t.conjuncts = [t] := by
  refine ⟨Throughout.of_mem_conjuncts h ht, ?_⟩
  cases s with
  | intersection items => exact h.here.2 t ht
  | _ =>
    obtain rfl := List.mem_singleton.1 ht
    rfl

/-- Objects are merged into a folded one if their values are joined into folded ones. -/
lemma folded_intersectionWith {merge : Schema → Schema → Schema}
    (hmerge : Joins (FoldedHere cap) merge) (h : ∀ s ∈ items, s.Folded cap) :
    (intersectionWith merge items).Folded cap := by
  refine intersectionWith_of_members (fun s hs _ ht => (h s hs).of_mem_conjuncts ht)
    (folded_plain cap _) (folded_plain cap _) (fun t ht => ht.1) (fun objects hall => ?_)
    fun members hlength hnormal hall => ?_
  · exact throughout_mergeObjectsWith (fun _ _ _ => trivial) hmerge fun t ht => (hall t ht).1
  · exact throughout_of_children ⟨⟨hlength, hnormal⟩, fun t ht => (hall t ht).2⟩ fun t ht =>
      (hall t ht).1

lemma folded_intersectionOf (h : ∀ s ∈ items, s.Folded cap) : (intersectionOf items).Folded cap :=
  folded_intersectionWith (joins_mergeValues_of (fun _ _ _ => trivial)
    (fun _ hmerge _ hitems => folded_intersectionWith hmerge hitems) _) h

/-! ## Operations -/

lemma folded_binary {left right : Schema} (hl : left.Folded cap) (hr : right.Folded cap)
    (h : foldBinary op left right cap = binary op left right) : (binary op left right).Folded cap :=
  throughout_of_children h (forall_mem_pair.2 ⟨hl, hr⟩)

/-- An operation on two alternatives that stays symbolic stays so if it is folded by itself. -/
lemma foldBinary_of_foldPair_eq_binary {left right : Schema} (hop : op ≠ .comma) (hcap : 1 ≤ cap)
    (hl : left.alternatives = [left]) (hr : right.alternatives = [right])
    (h : foldPair op left right = binary op left right) :
    foldBinary op left right cap = binary op left right := by
  have hwithin : left.alternatives.length ≤ cap ∧
      left.alternatives.length * right.alternatives.length ≤ cap := by
    rw [hl, hr]
    exact ⟨hcap, hcap⟩
  rw [foldBinary_eq hop, if_pos hwithin, hl, hr]
  change unionOf [foldPair op left right] = binary op left right
  rw [h]
  rfl

/-- An operation on two alternatives gives one of them, a literal, or the operation itself. -/
lemma foldPair_eq (op : BinaryOperator) (left right : Schema) :
    foldPair op left right = left ∨ foldPair op left right = right ∨
      (∃ value, foldPair op left right = literal value) ∨
      foldPair op left right = binary op left right := by
  rw [foldPair]
  split
  · simp
  · split
    · split <;> simp
    · split <;> simp
    · split <;> simp
    · split <;> simp

lemma folded_foldPair {left right : Schema} (hop : op ≠ .comma) (hcap : 1 ≤ cap)
    (hl : left.Folded cap ∧ left.alternatives = [left])
    (hr : right.Folded cap ∧ right.alternatives = [right]) :
    (foldPair op left right).Folded cap ∧
      (foldPair op left right).alternatives = [foldPair op left right] := by
  rcases foldPair_eq op left right with h | h | ⟨value, h⟩ | h
  · rw [h]
    exact hl
  · rw [h]
    exact hr
  · rw [h]
    exact ⟨folded_literal cap value, rfl⟩
  · have hsymbolic := foldBinary_of_foldPair_eq_binary hop hcap hl.2 hr.2 h
    rw [h]
    exact ⟨folded_binary hl.1 hr.1 hsymbolic, rfl⟩

lemma folded_foldBinary {left right : Schema} (hl : left.Folded cap) (hr : right.Folded cap) :
    (foldBinary op left right cap).Folded cap := by
  by_cases hop : op = .comma
  · rw [foldBinary, if_pos hop]
    exact hr
  · have hfold := foldBinary_eq hop left right cap
    split at hfold
    · rename_i hwithin
      -- there is a choice, so the cap admits at least the one that an operation is by itself
      have hcap : 1 ≤ cap := (List.length_pos_iff.2 hl.alternatives_ne_nil).trans_le hwithin.1
      rw [hfold]
      refine folded_unionOf_of_alternatives fun s hs t ht => ?_
      obtain ⟨a, ha, hsa⟩ := List.mem_flatMap.1 hs
      obtain ⟨b, hb, rfl⟩ := List.mem_map.1 hsa
      have hpair : (foldPair op a b).Folded cap ∧
          (foldPair op a b).alternatives = [foldPair op a b] :=
        folded_foldPair hop hcap (hl.of_mem_alternatives ha) (hr.of_mem_alternatives hb)
      rw [hpair.2] at ht
      obtain rfl := List.mem_singleton.1 ht
      exact hpair
    · rw [hfold]
      exact folded_binary hl hr hfold

/-! ## Templates -/

/-- The parts of a folded schema are folded and are no templates. -/
lemma Folded.of_mem_parts (h : s.Folded cap) (ht : t ∈ s.parts) :
    t.Folded cap ∧ t.parts = [t] := by
  refine ⟨Throughout.of_mem_parts h ht, ?_⟩
  cases s with
  | template items => exact h.here.2 t ht
  | _ =>
    obtain rfl := List.mem_singleton.1 ht
    rfl

lemma folded_templateOf (h : ∀ s ∈ items, s.Folded cap) : (templateOf items cap).Folded cap := by
  have hparts : ∀ t ∈ items.flatMap parts, t.Folded cap ∧ t.parts = [t] := by
    intro t ht
    obtain ⟨s, hs, hts⟩ := List.mem_flatMap.1 ht
    exact (h s hs).of_mem_parts hts
  have htemplate := templateOf_eq items cap
  split at htemplate
  · rw [htemplate]
    refine folded_unionOf fun s hs => ?_
    obtain ⟨text, -, rfl⟩ := List.mem_map.1 hs
    exact folded_literal cap _
  · rename_i hsymbolic
    rcases htexts : texts (items.flatMap parts) with _ | ⟨first, more⟩
    · rw [htemplate, htexts]
      exact folded_literal cap _
    · rw [htexts] at htemplate
      -- joined texts are joined already, and there are as many combinations of them as of the parts
      have hagain : templateOf (texts (items.flatMap parts)) cap =
          ofTexts (texts (items.flatMap parts)) := by
        have hne : texts (items.flatMap parts) ≠ [] := by
          rw [htexts]
          exact List.cons_ne_nil _ _
        have hmap := @templateOf_map_texts (items.flatMap parts) id (fun _ => rfl)
          (fun t ht => (hparts t ht).2) (fun t ht => (hparts t ht).1.alternatives_ne_nil) hne cap
        rw [List.map_id, List.map_id] at hmap
        rw [hmap, templateOf_eq, flatMap_eq_self fun t ht => (hparts t ht).2, if_neg hsymbolic]
      have hmembers : ∀ t ∈ first :: more, t.Folded cap ∧ t.parts = [t] := by
        intro t ht
        rcases mem_texts (htexts ▸ ht) with hin | hliteral
        · exact hparts t hin
        · refine ⟨?_, parts_of_isLiteral hliteral⟩
          cases t with
          | literal value => exact folded_literal cap value
          | _ => cases hliteral
      rw [htexts] at hagain
      rw [htemplate]
      exact throughout_of_children ⟨hagain, fun t ht => (hmembers t ht).2⟩ fun t ht =>
        (hmembers t ht).1

/-! ## Folding again -/

/-- One step gives a folded schema if the children are folded. -/
lemma folded_refoldStep (h : ∀ t ∈ s.children, t.Folded cap) : (refoldStep cap s).Folded cap := by
  cases s with
  | union items => exact folded_unionOf h
  | intersection items => exact folded_intersectionOf h
  | template items => exact folded_templateOf h
  | binary op left right =>
    obtain ⟨hl, hr⟩ := forall_mem_pair.1 h
    exact folded_foldBinary hl hr
  | _ => exact throughout_of_children trivial h

theorem folded_refold (s : Schema) (cap : Nat) : (s.refold cap).Folded cap := by
  induction s using induction with
  | step s ih =>
    rw [refold_eq]
    refine folded_refoldStep fun t ht => ?_
    rw [children_mapChildren] at ht
    obtain ⟨u, hu, rfl⟩ := List.mem_map.1 ht
    exact ih u hu

/-- Folding again is idempotent. -/
theorem refold_refold (s : Schema) (cap : Nat) : (s.refold cap).refold cap = s.refold cap :=
  (folded_refold s cap).refold_eq

end ValueSchema.Schema
