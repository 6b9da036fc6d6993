/-
# References without definitions

A reduction should not leave a reference whose definition it has removed.  Inlining and pruning
never do.  The trivial definitions are different: all that a round finds are put in the place of
their references at once and removed, and a body that came in is not looked at again.  If it is a
reference to another trivial definition of the same round, an alias of an alias, then that reference
stays and its definition is gone.

So the reduction keeps every schema closed exactly if no round comes across an alias of an alias:
`Bundle.closedFor_reduce_iff`.
-/
import ValueSchema.Proofs.Definition.Reachability

namespace ValueSchema

namespace Schema

/-- A trivial schema refers to nothing but what it is a reference to. -/
lemma reference?_of_isTrivial {s : Schema} {id : String} (ht : s.isTrivial = true)
    (hid : id ∈ s.references) : s.reference? = some id := by
  rcases mem_references_iff.1 hid with h | ⟨t, hchild, -⟩
  · exact h
  · cases s with
    | reference name arguments i =>
      have hnil : arguments = [] := by simpa [isTrivial] using ht
      simp [children, hnil] at hchild
    | primitive | literal | error => simp [children] at hchild
    | _ => simp [isTrivial] at ht

end Schema

namespace Bundle

open Schema

/-- Every reference of a schema and its definitions to one of some ids has a definition. -/
def ClosedFor (ids : List String) (b : Bundle) : Prop :=
  ∀ id ∈ b.references, id ∈ ids → id ∈ Entries.names b.definitions

variable {b : Bundle} {ids : List String}

/-- Inlining keeps a schema closed: what is removed is not referred to any more. -/
lemma Inlinable.closedFor {bodies : Entries Schema} (h : b.Inlinable bodies)
    (hclosed : b.ClosedFor ids) : (b.inlineDefinitions bodies).ClosedFor ids := by
  have hstep : ∀ s : Schema, (∀ id ∈ s.references, id ∈ b.references) →
      ∀ id ∈ (s.inline bodies).references, id ∈ ids →
        id ∈ Entries.names (b.inlineDefinitions bodies).definitions := by
    intro s hs id hid hin
    rcases mem_references_inline hid with ⟨href, hnot⟩ | ⟨i, t, -, hget, href⟩
    · exact mem_names_inlineDefinitions.2 ⟨hclosed id (hs id href) hin, hnot⟩
    · have hmem : id ∈ b.references :=
        mem_references.2 (Or.inr ⟨(i, t), Entries.mem_of_get? (h.get?_eq i t hget), href⟩)
      have hnot := h.not_mem (i, t) (Entries.mem_of_get? hget) id href
      exact mem_names_inlineDefinitions.2 ⟨hclosed id hmem hin, hnot⟩
  intro id hid
  rcases mem_references.1 hid with hroot | ⟨e, he, href⟩
  · exact hstep b.root (fun i hi => mem_references.2 (Or.inl hi)) id hroot
  · obtain ⟨t, ht, heq⟩ := mem_definitions_inlineDefinitions he
    rw [heq] at href
    exact hstep t (fun i hi => mem_references.2 (Or.inr ⟨_, ht, hi⟩)) id href

lemma closedFor_inlineSingleUse (rounds : Nat) {b : Bundle}
    (hmap : (Entries.names b.definitions).Nodup) (hclosed : b.ClosedFor ids) :
    (b.inlineSingleUse rounds).ClosedFor ids := by
  induction rounds generalizing b with
  | zero => exact hclosed
  | succ rounds ih =>
    rw [inlineSingleUse]
    split
    · exact hclosed
    · rename_i e he
      exact ih (hmap.sublist (names_inlineDefinitions_sublist _ _))
        ((inlinable_singleUse hmap he).closedFor hclosed)

lemma closedFor_inlined (hmap : (Entries.names b.definitions).Nodup) (hclosed : b.ClosedFor ids)
    (inlineSingle : Bool) : (b.inlined inlineSingle).ClosedFor ids := by
  cases inlineSingle with
  | false => exact hclosed
  | true => exact closedFor_inlineSingleUse _ hmap hclosed

/-- Pruning keeps a schema closed: what is kept leads only to what is kept. -/
lemma closedFor_prune (hmap : (Entries.names b.definitions).Nodup) (hclosed : b.ClosedFor ids) :
    b.prune.ClosedFor ids := by
  intro id hid hin
  rw [mem_names_prune_iff]
  rcases mem_references.1 hid with hroot | ⟨e, he, href⟩
  · rw [prune_root] at hroot
    exact .root hroot (hclosed id (mem_references.2 (Or.inl hroot)) hin)
  · have hkept := (mem_names_prune_iff b e.1).1 (Entries.mem_names_of_mem he)
    have hmem : e ∈ b.definitions := List.mem_of_mem_filter he
    exact .step hkept (Entries.get?_of_mem hmap hmem) href
      (hclosed id (mem_references.2 (Or.inr ⟨e, hmem, href⟩)) hin)

/-! ## The rounds of trivial definitions -/

/-- No round comes across a trivial definition that is a reference to another one. -/
def AliasFree (b : Bundle) : Prop :=
  ∀ rounds, ∀ e ∈ (b.inlineTrivial rounds).trivialDefinitions, ∀ id, e.2.reference? = some id →
    id ∉ Entries.names (b.inlineTrivial rounds).trivialDefinitions

lemma AliasFree.congr {c : Bundle} (h : b.AliasFree) (heq : b.definitions = c.definitions) :
    c.AliasFree := by
  intro rounds
  rw [← trivialDefinitions_inlineTrivial_congr rounds heq]
  exact h rounds

lemma AliasFree.inlinable (h : b.AliasFree) (hmap : (Entries.names b.definitions).Nodup) :
    b.Inlinable b.trivialDefinitions := by
  constructor
  · intro id t hget
    have hmem := mem_trivialDefinitions.1 (Entries.mem_of_get? hget)
    exact Entries.get?_of_mem hmap hmem.1
  · intro e he id hid
    exact h 0 e he id (reference?_of_isTrivial (mem_trivialDefinitions.1 he).2.1 hid)

/-- Without aliases of aliases the rounds keep a schema closed. -/
lemma AliasFree.closedFor_inlineTrivial (rounds : Nat) {b : Bundle} (h : b.AliasFree)
    (hmap : (Entries.names b.definitions).Nodup) (hclosed : b.ClosedFor ids) :
    (b.inlineTrivial rounds).ClosedFor ids := by
  induction rounds generalizing b with
  | zero => exact hclosed
  | succ rounds ih =>
    by_cases hnil : b.trivialDefinitions = []
    · rwa [inlineTrivial_of_trivial_eq_nil _ hnil]
    · rw [inlineTrivial_succ _ b hnil]
      refine ih (fun n => ?_) (hmap.sublist (names_inlineDefinitions_sublist _ _))
        ((h.inlinable hmap).closedFor hclosed)
      rw [← inlineTrivial_succ n b hnil]
      exact h (n + 1)

/-! ## An alias of an alias -/

/-- A schema that is a reference to a definition stays one as long as the definition is there. -/
lemma root_inlineTrivial (rounds : Nat) {b : Bundle} {i : String}
    (hroot : b.root = .reference "" [] i)
    (hi : i ∈ Entries.names (b.inlineTrivial rounds).definitions) :
    (b.inlineTrivial rounds).root = .reference "" [] i := by
  induction rounds generalizing b with
  | zero => exact hroot
  | succ rounds ih =>
    by_cases hnil : b.trivialDefinitions = []
    · rwa [inlineTrivial_of_trivial_eq_nil _ hnil]
    · rw [inlineTrivial_succ _ b hnil] at hi ⊢
      refine ih ?_ hi
      have hkept := (names_inlineTrivial_sublist rounds _).subset hi
      rw [inlineDefinitions, hroot]
      refine inline_eq_self fun id hid => ?_
      obtain rfl : i = id := Option.some.inj (reference?_of_isTrivial rfl hid)
      exact (mem_names_inlineDefinitions.1 hkept).2

/-- A schema that refers to no definition stays as it is while definitions are inlined. -/
lemma root_inlineDefinitions_of_not_mem {bodies : Entries Schema}
    (hbodies : ∀ e ∈ bodies, e ∈ b.definitions)
    (hroot : ∀ id ∈ b.root.references, id ∉ Entries.names b.definitions) :
    (b.inlineDefinitions bodies).root = b.root := by
  refine inline_eq_self fun id hid hin => hroot id hid ?_
  obtain ⟨e, he, rfl⟩ := List.mem_map.1 hin
  exact Entries.mem_names_of_mem (hbodies e he)

lemma root_inlineTrivial_of_not_mem (rounds : Nat) {b : Bundle}
    (hroot : ∀ id ∈ b.root.references, id ∉ Entries.names b.definitions) :
    (b.inlineTrivial rounds).root = b.root := by
  induction rounds generalizing b with
  | zero => rfl
  | succ rounds ih =>
    by_cases hnil : b.trivialDefinitions = []
    · rw [inlineTrivial_of_trivial_eq_nil _ hnil]
    · have hkeep := root_inlineDefinitions_of_not_mem
        (fun e he => (mem_trivialDefinitions.1 he).1) hroot
      rw [inlineTrivial_succ _ b hnil, ih, hkeep]
      rw [hkeep]
      exact fun id hid hin => hroot id hid ((names_inlineDefinitions_sublist _ _).subset hin)

lemma root_inlineSingleUse_of_not_mem (rounds : Nat) {b : Bundle}
    (hroot : ∀ id ∈ b.root.references, id ∉ Entries.names b.definitions) :
    (b.inlineSingleUse rounds).root = b.root := by
  induction rounds generalizing b with
  | zero => rfl
  | succ rounds ih =>
    rw [inlineSingleUse]
    split
    · rfl
    · rename_i e he
      have hkeep : (b.inlineDefinitions [e]).root = b.root :=
        root_inlineDefinitions_of_not_mem
          (fun d hd => List.mem_singleton.1 hd ▸ (mem_of_singleUse? he).1) hroot
      rw [ih, hkeep]
      rw [hkeep]
      exact fun id hid hin => hroot id hid ((names_inlineDefinitions_sublist _ _).subset hin)

lemma root_inlined_of_not_mem
    (hroot : ∀ id ∈ b.root.references, id ∉ Entries.names b.definitions) (inlineSingle : Bool) :
    (b.inlined inlineSingle).root = b.root := by
  cases inlineSingle with
  | false => rfl
  | true => exact root_inlineSingleUse_of_not_mem _ hroot

/-- A root that refers to no definition stays as it is through the rest of a reduction. -/
lemma root_prune_inlined_of_not_mem (rounds : Nat)
    (hroot : ∀ id ∈ b.root.references, id ∉ Entries.names b.definitions) (inlineSingle : Bool) :
    ((b.inlineTrivial rounds).inlined inlineSingle).prune.root = b.root := by
  have hkeep := root_inlineTrivial_of_not_mem rounds hroot
  rw [prune_root, root_inlined_of_not_mem _ inlineSingle, hkeep]
  rw [hkeep]
  exact fun id hid hin => hroot id hid ((names_inlineTrivial_sublist _ _).subset hin)

section

variable {n : Nat} {e : String × Schema} {id : String}

/-- From a reference to the first alias, the round that comes across an alias of an alias makes one
to the second, which is gone. -/
lemma root_inlineTrivial_of_alias (hmap : (Entries.names b.definitions).Nodup)
    (he : e ∈ (b.inlineTrivial n).trivialDefinitions)
    (hin : id ∈ Entries.names (b.inlineTrivial n).trivialDefinitions)
    (hroot : b.root = .reference "" [] e.1) :
    (b.inlineTrivial (n + 1)).root = e.2 ∧
      id ∉ Entries.names (b.inlineTrivial (n + 1)).definitions := by
  have hmem := mem_trivialDefinitions.1 he
  have hcroot := root_inlineTrivial n hroot (Entries.mem_names_of_mem hmem.1)
  have hnodup : (Entries.names (b.inlineTrivial n).trivialDefinitions).Nodup :=
    (hmap.sublist (names_inlineTrivial_sublist n b)).sublist
      (List.Sublist.map _ List.filter_sublist)
  have hnext : b.inlineTrivial (n + 1) =
      (b.inlineTrivial n).inlineDefinitions (b.inlineTrivial n).trivialDefinitions := by
    rw [inlineTrivial_add, inlineTrivial_succ 0 _ (List.ne_nil_of_mem he), inlineTrivial]
  rw [hnext]
  constructor
  · rw [inlineDefinitions, hcroot]
    exact inline_of_body? (body?_eq_some_iff.2 ⟨e.1, rfl, Entries.get?_of_mem hnodup he⟩)
  · exact fun h => (mem_names_inlineDefinitions.1 h).2 hin

/-- A round that comes across an alias of an alias gives a schema that is not closed. -/
lemma not_closedFor_reduce (hmap : (Entries.names b.definitions).Nodup)
    (he : e ∈ (b.inlineTrivial n).trivialDefinitions) (hid : e.2.reference? = some id)
    (hin : id ∈ Entries.names (b.inlineTrivial n).trivialDefinitions)
    (hroot : b.root = .reference "" [] e.1) (inlineSingle : Bool) :
    ¬ (b.reduce inlineSingle).ClosedFor (Entries.names b.definitions) := by
  have hmem := mem_trivialDefinitions.1 he
  obtain ⟨hbody, hgone⟩ := root_inlineTrivial_of_alias hmap he hin hroot
  have hfree : ∀ i ∈ (b.inlineTrivial (n + 1)).root.references,
      i ∉ Entries.names (b.inlineTrivial (n + 1)).definitions := by
    intro i hi
    rw [hbody] at hi
    obtain rfl : i = id :=
      Option.some.inj ((reference?_of_isTrivial hmem.2.1 hi).symm.trans hid)
    exact hgone
  -- each round takes a definition at least, so the reduction comes as far as this round
  have hrounds : n + 1 ≤ b.definitions.length := by
    have hlen := add_length_inlineTrivial_le n (List.ne_nil_of_mem he)
    have hpos : 0 < (b.inlineTrivial n).definitions.length := List.length_pos_of_mem hmem.1
    omega
  obtain ⟨rest, hrest⟩ := Nat.exists_eq_add_of_le hrounds
  have hlast : b.reduce inlineSingle =
      ((b.inlineTrivial (n + 1)).inlineTrivial rest |>.inlined inlineSingle).prune := by
    rw [reduce_eq, hrest, inlineTrivial_add]
  have hsub : (Entries.names (b.reduce inlineSingle).definitions).Sublist
      (Entries.names (b.inlineTrivial (n + 1)).definitions) := by
    rw [hlast]
    exact ((names_prune_sublist _).trans (names_inlined_sublist _ _)).trans
      (names_inlineTrivial_sublist _ _)
  have hend : (b.reduce inlineSingle).root = e.2 := by
    rw [hlast, root_prune_inlined_of_not_mem rest hfree, hbody]
  intro hclosed
  refine hgone (hsub.subset (hclosed id (mem_references.2 (Or.inl ?_)) ?_))
  · rw [hend]
    exact mem_references_iff.2 (Or.inl hid)
  · obtain ⟨d, hd, rfl⟩ := List.mem_map.1 hin
    exact (names_inlineTrivial_sublist n b).subset
      (Entries.mem_names_of_mem (mem_trivialDefinitions.1 hd).1)

end

/-- The reduction of every schema with some definitions is closed, exactly if the definitions have
no alias of an alias.  This is so with and without inlining of what is used once. -/
theorem closedFor_reduce_iff (b : Bundle) (hmap : (Entries.names b.definitions).Nodup)
    (inlineSingle : Bool) :
    (∀ root, (({ b with root } : Bundle).reduce inlineSingle).ClosedFor
      (Entries.names b.definitions)) ↔ b.AliasFree := by
  constructor
  · intro hall n e he id hid hin
    rw [trivialDefinitions_inlineTrivial_congr n (b := b)
      (c := { b with root := .reference "" [] e.1 }) rfl] at he hin
    exact not_closedFor_reduce (b := { b with root := .reference "" [] e.1 }) hmap he hid hin rfl
      inlineSingle (hall _)
  · intro h root
    have hstart : ({ b with root } : Bundle).ClosedFor (Entries.names b.definitions) :=
      fun _ _ hin => hin
    have hrounds := (h.congr (c := { b with root }) rfl).closedFor_inlineTrivial
      b.definitions.length hmap hstart
    have hnodup := hmap.sublist (names_inlineTrivial_sublist b.definitions.length { b with root })
    rw [reduce_eq]
    exact closedFor_prune (hnodup.sublist (names_inlined_sublist _ _))
      (closedFor_inlined hnodup hrounds inlineSingle)

/-- An alias `A` of an alias `B` of a definition `C` that mentions itself. -/
def aliasChain : Bundle where
  root := .reference "A" [] "A"
  definitions :=
    [("A", .reference "B" [] "B"), ("B", .reference "C" [] "C"),
      ("C", .object [("next", .reference "C" [] "C")] [])]

/-- Both aliases go in the first round, and so does `C`, which nothing refers to afterwards. -/
example : aliasChain.reduce false = { root := .reference "B" [] "B", definitions := [] } := by
  rfl

theorem not_closedFor_reduce_aliasChain :
    (Entries.names aliasChain.definitions).Nodup ∧
      ¬ ∀ root, (({ aliasChain with root } : Bundle).reduce false).ClosedFor
        (Entries.names aliasChain.definitions) := by
  have hmap : (Entries.names aliasChain.definitions).Nodup := by decide
  refine ⟨hmap, fun hall => ?_⟩
  have hfree := (closedFor_reduce_iff aliasChain hmap false).1 hall
  exact hfree 0 ("A", .reference "B" [] "B") (List.Mem.head _) "B" rfl (by decide)

end Bundle

end ValueSchema
