/-
# Definitions that can be reached

A definition is reachable if the schema refers to it, or the body of a reachable definition does.
`Bundle.reachable` finds these definitions by rounds, each of which follows the references of
everything found so far; as many rounds as there are definitions are enough, because a round that
finds nothing new is the last one.

The main results are

* `Bundle.mem_reachable_iff`: the search finds exactly the reachable definitions;
* `Bundle.mem_names_prune_iff`: these are the ones that pruning keeps.
-/
import Mathlib.Data.List.Perm.Subperm
import ValueSchema.Proofs.Definition.Inlining

namespace ValueSchema

/-- Each item of a list is kept once. -/
lemma nodup_eraseDups {α : Type} [BEq α] [LawfulBEq α] (items : List α) :
    items.eraseDups.Nodup := by
  cases items with
  | nil => simp
  | cons a rest =>
    have hshort := List.length_filter_le (fun b => !b == a) rest
    rw [List.eraseDups_cons, List.nodup_cons]
    refine ⟨fun ha => ?_, nodup_eraseDups _⟩
    simp at ha
termination_by items.length
decreasing_by
  simp only [List.length_cons]
  omega

namespace Bundle

/-- A definition that a schema leads to: the schema refers to it, or the body of another such
definition does. -/
inductive Reaches (definitions : Entries Schema) (root : Schema) : String → Prop where
  | root {id : String} (href : id ∈ root.references) (hdef : id ∈ Entries.names definitions) :
      Reaches definitions root id
  | step {i id : String} {body : Schema} (hi : Reaches definitions root i)
      (hbody : Entries.get? i definitions = some body) (href : id ∈ body.references)
      (hdef : id ∈ Entries.names definitions) : Reaches definitions root id

lemma Reaches.mem_names {definitions : Entries Schema} {root : Schema} {id : String}
    (h : Reaches definitions root id) : id ∈ Entries.names definitions := by
  cases h with
  | root _ hdef => exact hdef
  | step _ _ _ hdef => exact hdef

/-- Some ids are closed if the bodies of their definitions lead to no other definitions. -/
def ClosedIds (definitions : Entries Schema) (ids : List String) : Prop :=
  ∀ i ∈ ids, ∀ body, Entries.get? i definitions = some body →
    ∀ id ∈ body.references, id ∈ Entries.names definitions → id ∈ ids

variable {definitions : Entries Schema}

/-- The definitions that the bodies of some definitions refer to, and that are not among them. -/
def freshIds (definitions : Entries Schema) (ids : List String) : List String :=
  ((ids.flatMap fun id =>
    match Entries.get? id definitions with
    | some body => body.references
    | none => []).filter fun id =>
      Entries.contains id definitions && !ids.contains id).eraseDups

lemma reachable_succ (definitions : Entries Schema) (rounds : Nat) (ids : List String) :
    reachable definitions (rounds + 1) ids =
      if (freshIds definitions ids).isEmpty then ids
      else reachable definitions rounds (ids ++ freshIds definitions ids) := rfl

lemma mem_freshIds_iff {ids : List String} {id : String} :
    id ∈ freshIds definitions ids ↔
      (∃ i ∈ ids, ∃ body, Entries.get? i definitions = some body ∧ id ∈ body.references) ∧
        id ∈ Entries.names definitions ∧ id ∉ ids := by
  simp only [freshIds, List.mem_eraseDups, List.mem_filter, List.mem_flatMap, Bool.and_eq_true,
    Entries.contains_eq_true_iff, Bool.not_eq_true', List.contains_eq_mem, decide_eq_false_iff_not]
  refine and_congr_left fun _ => ?_
  constructor
  · rintro ⟨i, hi, hid⟩
    rcases hbody : Entries.get? i definitions with _ | body
    · simp [hbody] at hid
    · exact ⟨i, hi, body, hbody, by simpa [hbody] using hid⟩
  · rintro ⟨i, hi, body, hbody, hid⟩
    exact ⟨i, hi, by simpa [hbody] using hid⟩

lemma subset_reachable (rounds : Nat) (ids : List String) :
    ids ⊆ reachable definitions rounds ids := by
  induction rounds generalizing ids with
  | zero => exact fun _ h => h
  | succ rounds ih =>
    rw [reachable_succ]
    split
    · exact fun _ h => h
    · exact fun _ h => ih _ (List.mem_append_left _ h)

/-- The search finds nothing but what the ids it starts from lead to. -/
lemma reaches_of_mem_reachable {root : Schema} (rounds : Nat) {ids : List String}
    (hids : ∀ id ∈ ids, Reaches definitions root id) :
    ∀ id ∈ reachable definitions rounds ids, Reaches definitions root id := by
  induction rounds generalizing ids with
  | zero => exact hids
  | succ rounds ih =>
    rw [reachable_succ]
    split
    · exact hids
    · refine ih fun id hid => ?_
      rcases List.mem_append.1 hid with hid | hid
      · exact hids id hid
      · obtain ⟨⟨i, hi, body, hbody, href⟩, hdef, -⟩ := mem_freshIds_iff.1 hid
        exact .step (hids i hi) hbody href hdef

/-- The search ends with closed ids if there are rounds enough to find all definitions one by
one. -/
lemma closedIds_reachable (rounds : Nat) {ids : List String} (hnodup : ids.Nodup)
    (hsub : ids ⊆ Entries.names definitions)
    (enough : (Entries.names definitions).length ≤ ids.length + rounds) :
    ClosedIds definitions (reachable definitions rounds ids) := by
  induction rounds generalizing ids with
  | zero =>
    -- no round is left, but then all definitions have been found
    have hperm := (hnodup.subperm hsub).perm_of_length_le (by simpa using enough)
    intro i _ body _ id _ hdef
    exact hperm.mem_iff.2 hdef
  | succ rounds ih =>
    rw [reachable_succ]
    split
    · rename_i hempty
      intro i hi body hbody id href hdef
      by_contra hnot
      have hfresh : id ∈ freshIds definitions ids :=
        mem_freshIds_iff.2 ⟨⟨i, hi, body, hbody, href⟩, hdef, hnot⟩
      rw [List.isEmpty_iff.1 hempty] at hfresh
      exact List.not_mem_nil hfresh
    · rename_i hempty
      have hgrow : 0 < (freshIds definitions ids).length := by
        rw [List.length_pos_iff]
        exact fun h => hempty (List.isEmpty_iff.2 h)
      refine ih ?_ ?_ ?_
      · refine hnodup.append (nodup_eraseDups _) fun id hid hfresh => ?_
        exact (mem_freshIds_iff.1 hfresh).2.2 hid
      · exact List.append_subset.2 ⟨hsub, fun id hid => (mem_freshIds_iff.1 hid).2.1⟩
      · rw [List.length_append]
        omega

/-- The definitions that a schema itself refers to. -/
def startIds (definitions : Entries Schema) (root : Schema) : List String :=
  (root.references.filter fun id => Entries.contains id definitions).eraseDups

lemma mem_startIds_iff {root : Schema} {id : String} :
    id ∈ startIds definitions root ↔ id ∈ root.references ∧ id ∈ Entries.names definitions := by
  simp [startIds]

/-- The search from a schema finds exactly the definitions that the schema leads to. -/
theorem mem_reachable_iff (definitions : Entries Schema) (root : Schema) (id : String) :
    id ∈ reachable definitions definitions.length (startIds definitions root) ↔
      Reaches definitions root id := by
  constructor
  · refine fun h => reaches_of_mem_reachable _ (fun i hi => ?_) id h
    exact .root (mem_startIds_iff.1 hi).1 (mem_startIds_iff.1 hi).2
  · have hclosed : ClosedIds definitions
        (reachable definitions definitions.length (startIds definitions root)) :=
      closedIds_reachable _ (nodup_eraseDups _) (fun i hi => (mem_startIds_iff.1 hi).2)
        (by simp [Entries.names])
    intro h
    induction h with
    | root href hdef => exact subset_reachable _ _ (mem_startIds_iff.2 ⟨href, hdef⟩)
    | step _ hbody href hdef ih => exact hclosed _ ih _ hbody _ href hdef

/-! ## Pruning -/

lemma prune_definitions (b : Bundle) :
    b.prune.definitions = b.definitions.filter fun e =>
      (reachable b.definitions b.definitions.length
        (startIds b.definitions b.root)).contains e.1 := rfl

@[simp] lemma prune_root (b : Bundle) : b.prune.root = b.root := rfl

/-- Pruning keeps the definitions that the schema leads to. -/
theorem mem_names_prune_iff (b : Bundle) (id : String) :
    id ∈ Entries.names b.prune.definitions ↔ Reaches b.definitions b.root id := by
  rw [prune_definitions, Entries.mem_names_filter (p := fun name =>
    (reachable b.definitions b.definitions.length
      (startIds b.definitions b.root)).contains name), List.contains_iff_mem, mem_reachable_iff]
  exact ⟨fun h => h.2, fun h => ⟨h.mem_names, h⟩⟩

/-- Pruning leaves the bodies of the definitions it keeps as they are. -/
lemma get?_prune {b : Bundle} {id : String} (h : Reaches b.definitions b.root id) :
    Entries.get? id b.prune.definitions = Entries.get? id b.definitions := by
  rw [prune_definitions, Entries.get?_filter fun name =>
    (reachable b.definitions b.definitions.length
      (startIds b.definitions b.root)).contains name, if_pos]
  exact List.contains_iff_mem.2 ((mem_reachable_iff _ _ _).2 h)

lemma names_prune_sublist (b : Bundle) :
    (Entries.names b.prune.definitions).Sublist (Entries.names b.definitions) :=
  Entries.names_filter_sublist _ _

end Bundle

end ValueSchema
