/-
# Definitions that are used once

Inlining goes on until every definition is mentioned by itself, or referred to twice, or not at all.
The references are counted everywhere, also in definitions that the schema does not lead to.  These
go last; and what they referred to may then be left with one reference only.

So a definition that stays is shared, unless a definition that goes referred to it and a single
reference is left: pruning `Hides` its use.
-/
import ValueSchema.Proofs.Definition.Reachability

namespace ValueSchema.Bundle

open Schema

variable {b : Bundle} {id : String}

/-- Every definition mentions itself or is referred to at least twice. -/
def SharesAll (b : Bundle) : Prop :=
  ∀ e ∈ b.definitions, e.1 ∈ e.2.references ∨ 2 ≤ b.references.count e.1

/-! ## Where inlining ends -/

lemma singleUse?_eq_none_iff :
    b.singleUse? = none ↔
      ∀ e ∈ b.definitions, e.1 ∈ e.2.references ∨ b.references.count e.1 ≠ 1 := by
  rw [singleUse?, List.find?_eq_none]
  refine forall₂_congr fun e _ => ?_
  rw [Bool.and_eq_true, beq_iff_eq, Bool.not_eq_true', mentions_eq_false]
  tauto

lemma length_inlineDefinitions_lt {e : String × Schema} (he : e ∈ b.definitions) :
    (b.inlineDefinitions [e]).definitions.length < b.definitions.length := by
  rw [inlineDefinitions, Entries.mapValues, List.length_map]
  refine List.length_filter_lt_length_iff_exists.2 ⟨e, he, ?_⟩
  simp [Entries.names]

/-- Each round removes a definition, so as many rounds as there are definitions find them all. -/
lemma singleUse?_inlineSingleUse (rounds : Nat) {b : Bundle} (h : b.definitions.length ≤ rounds) :
    (b.inlineSingleUse rounds).singleUse? = none := by
  induction rounds generalizing b with
  | zero =>
    have hnil : b.definitions = [] := List.length_eq_zero_iff.1 (Nat.le_zero.1 h)
    rw [inlineSingleUse, singleUse?_eq_none_iff, hnil]
    exact List.forall_mem_nil _
  | succ rounds ih =>
    rw [inlineSingleUse]
    split
    · assumption
    · rename_i e he
      have hlt := length_inlineDefinitions_lt (mem_of_singleUse? he).1
      exact ih (by omega)

/-! ## What pruning takes away -/

/-- The references that stand in definitions the schema does not lead to. -/
def strayReferences (b : Bundle) : List String :=
  (b.definitions.filter fun e =>
    !(reachable b.definitions b.definitions.length (startIds b.definitions b.root)).contains
      e.1).flatMap fun e => e.2.references

/-- Every reference stays or goes with its definition. -/
lemma count_references_prune (b : Bundle) (id : String) :
    b.prune.references.count id + b.strayReferences.count id = b.references.count id := by
  have hsplit := (List.filter_append_perm (fun e : String × Schema =>
    (reachable b.definitions b.definitions.length (startIds b.definitions b.root)).contains
      e.1) b.definitions).flatMap_right fun e => e.2.references
  have hcount := hsplit.count_eq id
  rw [List.flatMap_append, List.count_append] at hcount
  rw [references, references, prune_root, prune_definitions, strayReferences, List.count_append,
    List.count_append]
  omega

/-- What stays is referred to by what stays. -/
lemma count_prune_pos (h : Reaches b.definitions b.root id) :
    0 < b.prune.references.count id := by
  rw [List.count_pos_iff, mem_references]
  cases h with
  | root href _ => exact Or.inl href
  | step hi hbody href _ =>
    exact Or.inr ⟨_, Entries.mem_of_get? ((get?_prune hi).trans hbody), href⟩

/-! ## The reduction -/

/-- The schema before pruning: every definition that is used once has been inlined. -/
def expanded (b : Bundle) : Bundle := (b.inlineTrivial b.definitions.length).inlined true

lemma reduce_true (b : Bundle) : b.reduce true = b.expanded.prune := rfl

/-- Pruning hides the use of a definition: one reference to it stays, and others go. -/
def Hides (b : Bundle) (id : String) : Prop :=
  b.prune.references.count id = 1 ∧ id ∈ b.strayReferences

instance (b : Bundle) (id : String) : Decidable (b.Hides id) :=
  inferInstanceAs (Decidable (_ ∧ _))

/-- A definition that stays and does not mention itself is shared, or else its use is hidden. -/
lemma shared_or_hides {e : String × Schema} (he : e ∈ (b.reduce true).definitions)
    (hself : e.1 ∉ e.2.references) :
    2 ≤ (b.reduce true).references.count e.1 ∨ b.expanded.Hides e.1 := by
  rw [reduce_true] at he ⊢
  have hreach := (mem_names_prune_iff _ _).1 (Entries.mem_names_of_mem he)
  have hkept := count_prune_pos hreach
  have hall := count_references_prune b.expanded e.1
  have hend : b.expanded.references.count e.1 ≠ 1 := by
    have hnone : b.expanded.singleUse? = none := singleUse?_inlineSingleUse _ (Nat.le_refl _)
    exact (singleUse?_eq_none_iff.1 hnone e (List.mem_of_mem_filter he)).resolve_left hself
  by_cases hone : b.expanded.prune.references.count e.1 = 1
  · exact Or.inr ⟨hone, List.count_pos_iff.1 (by omega)⟩
  · exact Or.inl (by omega)

/-- All definitions that a reduction leaves are shared, exactly if pruning has hidden the use of
none that does not mention itself. -/
theorem sharesAll_reduce_iff (b : Bundle) :
    (b.reduce true).SharesAll ↔
      ∀ e ∈ (b.reduce true).definitions, e.1 ∉ e.2.references → ¬ b.expanded.Hides e.1 := by
  constructor
  · intro hall e he hself hhides
    have hone : (b.reduce true).references.count e.1 = 1 := hhides.1
    rcases hall e he with hmentions | htwice
    · exact hself hmentions
    · omega
  · intro hnone e he
    by_cases hself : e.1 ∈ e.2.references
    · exact Or.inl hself
    · exact Or.inr ((shared_or_hides he hself).resolve_right (hnone e he hself))

/-- A schema that refers to `Point` once, and a definition `Line`, which it does not refer to, with
another reference to `Point`. -/
def pointAndLine : Bundle where
  root := .array (.reference "Point" [] "Point")
  definitions :=
    [("Point", .object [("x", .plain .number)] []),
      ("Line", .object [("from", .reference "Point" [] "Point")] [])]

/-- `Line` goes, and `Point` stays a definition for one reference. -/
theorem not_sharesAll_reduce_pointAndLine : ¬ (pointAndLine.reduce true).SharesAll := by
  intro hall
  refine (sharesAll_reduce_iff pointAndLine).1 hall ("Point", .object [("x", .plain .number)] [])
    (List.Mem.head _) (by decide) ?_
  decide

end ValueSchema.Bundle
