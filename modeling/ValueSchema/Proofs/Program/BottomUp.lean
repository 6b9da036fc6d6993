/-
# Trees built from the leaves up

Nodes are added after their children.  A node may be added under several others, one after the
other, and each of them takes it away from the one before.  Whatever is added, parents come after
their children, the parent of a node is the last one that lists it, and the span of a node covers
what is in it: `Layered`.  So every walk to the parents ends at a node without a parent, and it
visits exactly the nodes around the one that it starts from.
-/
import ValueSchema.Proofs.Program.Forest

namespace ValueSchema

namespace Span

/-- A span that was widened to cover others covers them, and what it covered before. -/
lemma covers_foldl_cover {α : Type} (f : α → Span) (others : List α) (s : Span) :
    (others.foldl (fun s x => s.cover (f x)) s).Covers s ∧
      ∀ x ∈ others, (others.foldl (fun s x => s.cover (f x)) s).Covers (f x) := by
  induction others generalizing s with
  | nil => exact ⟨⟨Nat.le_refl _, Nat.le_refl _⟩, fun x hx => by cases hx⟩
  | cons x rest ih =>
    obtain ⟨hwidened, hrest⟩ := ih (s.cover (f x))
    refine ⟨hwidened.trans (cover_covers_left ..), fun y hy => ?_⟩
    rcases List.mem_cons.1 hy with rfl | hy
    · exact hwidened.trans (cover_covers_right ..)
    · exact hrest y hy

end Span

namespace Tree

/-- A tree that was made by adding nodes, each of them after its children. -/
inductive BottomUp : Tree → Prop
  | empty : BottomUp {}
  | add {t : Tree} {form : Form} {span : Span} (h : BottomUp t)
      (hchildren : ∀ c ∈ form.children, c.index < t.size) : BottomUp (t.add form span).2

/-- A tree in which a node comes after its children, its parent is the last node that lists it, and
spans cover those of the children. -/
structure Layered (t : Tree) : Prop where
  older : ∀ {n c : NodeId}, c ∈ t.children n → c.index < n.index
  parent_iff : ∀ {c p : NodeId},
    t.parent? c = some p ↔ c ∈ t.children p ∧ ∀ n, c ∈ t.children n → n.index ≤ p.index
  parent_none_iff : ∀ {c : NodeId}, t.parent? c = none ↔ ∀ n, c ∉ t.children n
  covers : ∀ {n c : NodeId}, c ∈ t.children n → (t.span n).Covers (t.span c)

variable {t : Tree} {n c a b p : NodeId} {test : Form → Bool}

/-! ## Adding a node -/

lemma span_add (t : Tree) (form : Form) (span : Span) (n : NodeId) :
    (t.add form span).2.span n =
      if n = ⟨t.size⟩ then form.children.foldl (fun s c => s.cover (t.span c)) span
      else t.span n := by
  rw [Tree.span, get?, add]
  dsimp only
  rw [getElem?_foldl_link, Array.getElem?_push]
  by_cases hn : n = ⟨t.size⟩
  · have hindex : n.index = t.nodes.size := congrArg NodeId.index hn
    rw [if_pos hindex, if_pos hn]
    split <;> rfl
  · have hindex : n.index ≠ t.nodes.size := fun h => hn (congrArg NodeId.mk h)
    rw [if_neg hindex, if_neg hn, Tree.span, get?]
    rcases t.nodes[n.index]? with _ | node
    · rfl
    · simp only [Option.map_some]
      split <;> rfl

/-- Adding a node above nodes that are there keeps a tree layered. -/
lemma Layered.add (h : t.Layered) {form : Form} (hchildren : ∀ c ∈ form.children, c.index < t.size)
    (span : Span) : (t.add form span).2.Layered := by
  have hnew : ∀ c, c ∉ t.children ⟨t.size⟩ := fun c hc =>
    absurd (index_lt_of_mem_children hc) (Nat.lt_irrefl _)
  have hchild : ∀ {n c}, c ∈ (t.add form span).2.children n ↔
      (n = ⟨t.size⟩ ∧ c ∈ form.children) ∨ c ∈ t.children n := by
    intro n c
    rw [children_add]
    by_cases hn : n = ⟨t.size⟩
    · simp [hn, hnew]
    · simp [hn]
  refine ⟨fun {n c} hc => ?_, fun {c p} => ?_, fun {c} => ?_, fun {n c} hc => ?_⟩
  · rcases hchild.1 hc with ⟨rfl, hmem⟩ | hmem
    · exact hchildren c hmem
    · exact h.older hmem
  · rw [parent?_add hchildren]
    by_cases hc : c ∈ form.children
    · -- the new node comes after all others, and so it is the only last one
      rw [if_pos hc]
      constructor
      · rintro ⟨⟩
        refine ⟨hchild.2 (Or.inl ⟨rfl, hc⟩), fun n hn => ?_⟩
        rcases hchild.1 hn with ⟨rfl, -⟩ | hn
        · exact Nat.le_refl _
        · exact Nat.le_of_lt (index_lt_of_mem_children hn)
      · rintro ⟨hp, hlast⟩
        have hle : t.size ≤ p.index := hlast ⟨t.size⟩ (hchild.2 (Or.inl ⟨rfl, hc⟩))
        rcases hchild.1 hp with ⟨rfl, -⟩ | hp
        · rfl
        · exact absurd (index_lt_of_mem_children hp) (Nat.not_lt.2 hle)
    · have hsame : ∀ n, c ∈ (t.add form span).2.children n ↔ c ∈ t.children n := fun n => by
        rw [hchild]
        simp [hc]
      rw [if_neg hc, h.parent_iff]
      simp only [hsame]
  · rw [parent?_add hchildren]
    by_cases hc : c ∈ form.children
    · rw [if_pos hc]
      exact iff_of_false (by simp) fun hnone => hnone ⟨t.size⟩ (hchild.2 (Or.inl ⟨rfl, hc⟩))
    · rw [if_neg hc, h.parent_none_iff]
      simp only [hchild, hc, and_false, false_or]
  · have hold : ∀ {n : NodeId}, n.index < t.size → n ≠ ⟨t.size⟩ := by
      rintro n hlt rfl
      exact Nat.lt_irrefl _ hlt
    rcases hchild.1 hc with ⟨rfl, hmem⟩ | hmem
    · rw [span_add, span_add, if_pos rfl, if_neg (hold (hchildren c hmem))]
      exact (Span.covers_foldl_cover t.span form.children span).2 c hmem
    · have hlt := index_lt_of_mem_children hmem
      rw [span_add, span_add, if_neg (hold hlt), if_neg (hold (Nat.lt_trans (h.older hmem) hlt))]
      exact h.covers hmem

lemma BottomUp.layered (h : t.BottomUp) : t.Layered := by
  induction h with
  | empty =>
    have hget : ∀ n, ({} : Tree).get? n = none := fun n => by simp [get?]
    have hchild : ∀ {n c : NodeId}, c ∉ ({} : Tree).children n := fun {n c} => by
      simp [children, form?, hget]
    refine ⟨fun hc => absurd hc hchild, fun {c p} => ?_, fun {c} => ?_,
      fun hc => absurd hc hchild⟩
    · simp [parent?, hget, hchild]
    · simp [parent?, hget, hchild]
  | add _ hchildren ih => exact ih.add hchildren _

/-- No node is used as a child more than once. -/
structure UsesOnce (t : Tree) : Prop where
  nodup_children : ∀ n, (t.children n).Nodup
  eq_of_mem_children : ∀ {m n c : NodeId}, c ∈ t.children m → c ∈ t.children n → m = n

/-- If no node is shared, then the last node that lists it is the only one. -/
lemma Layered.tidy (h : t.Layered) (honce : t.UsesOnce) : t.Tidy := by
  refine ⟨fun {n c} => ⟨fun hp => (h.parent_iff.1 hp).1, fun hc => ?_⟩, h.older,
    honce.nodup_children⟩
  refine h.parent_iff.2 ⟨hc, fun m hm => ?_⟩
  obtain rfl := honce.eq_of_mem_children hm hc
  exact Nat.le_refl _

lemma Orderly.bottomUp {files : List NodeId} (h : t.Orderly files) : t.BottomUp := by
  induction h with
  | empty => exact .empty
  | add _ hfree _ ih => exact ih.add fun c hc => (hfree c hc).index_lt

lemma Orderly.usesOnce {files : List NodeId} (h : t.Orderly files) : t.UsesOnce where
  nodup_children := h.forest.nodup_children
  eq_of_mem_children hm hn := by
    rw [← h.forest.parent_iff] at hm hn
    exact Option.some.inj (hm.symm.trans hn)

/-! ## The way up -/

/-- A walk from a node to its parent, from there to the next one, and so on, until there is no
parent; with the nodes that it visits on its way. -/
inductive Walk (t : Tree) : NodeId → List NodeId → Prop
  | stop {n : NodeId} (h : t.parent? n = none) : Walk t n []
  | step {n p : NodeId} {visited : List NodeId} (h : t.parent? n = some p)
      (hwalk : Walk t p visited) : Walk t n (p :: visited)

/-- A node is a proper ancestor of another one: its parent, the parent of that, and so on. -/
def Above (t : Tree) (a n : NodeId) : Prop :=
  Relation.TransGen (fun c p => t.parent? c = some p) n a

/-- The innermost proper ancestor of a node that passes a test. -/
structure Innermost (t : Tree) (test : Form → Bool) (n a : NodeId) : Prop where
  above : t.Above a n
  passes : (t.form? a).any test = true
  first : ∀ b, t.Above b n → (t.form? b).any test = true → a.index ≤ b.index

/-- A walk is determined by where it starts. -/
lemma Walk.unique {visited visited' : List NodeId} (h : t.Walk n visited)
    (h' : t.Walk n visited') : visited = visited' := by
  induction h generalizing visited' with
  | stop hnone =>
    cases h' with
    | stop => rfl
    | step hp => cases hnone.symm.trans hp
  | step hp _ ih =>
    cases h' with
    | stop hnone => cases hnone.symm.trans hp
    | step hp' hwalk' =>
      obtain rfl := Option.some.inj (hp.symm.trans hp')
      exact congrArg _ (ih hwalk')

/-- A walk visits the proper ancestors. -/
lemma Walk.mem_iff_above {visited : List NodeId} (h : t.Walk n visited) :
    a ∈ visited ↔ t.Above a n := by
  induction h with
  | stop hnone =>
    refine iff_of_false (by simp) fun ha => ?_
    obtain ⟨p, hp, -⟩ := Relation.TransGen.head'_iff.1 ha
    cases hnone.symm.trans hp
  | step hp _ ih =>
    rw [List.mem_cons, ih]
    constructor
    · rintro (rfl | ha)
      · exact .single hp
      · exact .head hp ha
    · intro ha
      obtain ⟨q, hq, ha⟩ := Relation.TransGen.head'_iff.1 ha
      obtain rfl := Option.some.inj (hp.symm.trans hq)
      rcases Relation.reflTransGen_iff_eq_or_transGen.1 ha with rfl | ha
      · exact Or.inl rfl
      · exact Or.inr ha

namespace Layered

variable (h : t.Layered)

include h

lemma index_lt_of_parent (hp : t.parent? c = some p) : c.index < p.index :=
  h.older (h.parent_iff.1 hp).1

lemma index_lt_of_above (ha : t.Above a n) : n.index < a.index := by
  induction ha with
  | single hp => exact h.index_lt_of_parent hp
  | tail _ hp ih => exact Nat.lt_trans ih (h.index_lt_of_parent hp)

/-- A walk to the parents ends, and visits the proper ancestors, in order. -/
lemma walk_ancestors (n : NodeId) : t.Walk n (t.ancestors n) := by
  -- the walk gets closer to the last node with each step
  induction hk : t.size - n.index using Nat.strongRecOn generalizing n with
  | ind k ih =>
    rw [ancestors_eq_of_older h.index_lt_of_parent]
    cases hp : t.parent? n with
    | none => exact .stop hp
    | some p =>
      have hlt := h.index_lt_of_parent hp
      have hsize := index_lt_of_mem_children (h.parent_iff.1 hp).1
      exact .step hp (ih _ (by omega) p rfl)

lemma mem_ancestors_iff : a ∈ t.ancestors n ↔ t.Above a n :=
  (h.walk_ancestors n).mem_iff_above

/-- A walk goes to later nodes only, so that it visits none of them twice. -/
lemma pairwise_of_walk {visited : List NodeId} (hwalk : t.Walk n visited) :
    visited.Pairwise fun a b => a.index < b.index := by
  induction hwalk with
  | stop => exact .nil
  | step _ hwalk ih => exact .cons (fun b hb => h.index_lt_of_above (hwalk.mem_iff_above.1 hb)) ih

/-- What is found is the innermost proper ancestor that passes the test. -/
lemma findAncestor?_eq_some_iff : t.findAncestor? test n = some a ↔ t.Innermost test n a := by
  have hsorted := h.pairwise_of_walk (h.walk_ancestors n)
  rw [findAncestor?, List.find?_eq_some_iff_append]
  constructor
  · rintro ⟨htest, before, after, heq, hbefore⟩
    rw [heq, List.pairwise_append] at hsorted
    refine ⟨h.mem_ancestors_iff.1 (heq ▸ by simp), htest, fun b hb hpass => ?_⟩
    rw [← h.mem_ancestors_iff, heq, List.mem_append, List.mem_cons] at hb
    rcases hb with hb | rfl | hb
    · have hfails := hbefore b hb
      rw [hpass] at hfails
      cases hfails
    · exact Nat.le_refl _
    · exact Nat.le_of_lt ((List.pairwise_cons.1 hsorted.2.1).1 b hb)
  · rintro ⟨habove, hpass, hfirst⟩
    obtain ⟨before, after, heq⟩ := List.append_of_mem (h.mem_ancestors_iff.2 habove)
    refine ⟨hpass, before, after, heq, fun b hb => ?_⟩
    rw [heq, List.pairwise_append] at hsorted
    have hlt := hsorted.2.2 b hb a List.mem_cons_self
    rw [Bool.not_eq_true', Bool.eq_false_iff]
    intro hpass'
    have hle := hfirst b (h.mem_ancestors_iff.1 (heq ▸ List.mem_append_left _ hb)) hpass'
    omega

lemma findAncestor?_eq_none_iff :
    t.findAncestor? test n = none ↔ ∀ a, t.Above a n → (t.form? a).any test = false := by
  rw [findAncestor?, List.find?_eq_none]
  simp only [h.mem_ancestors_iff, Bool.not_eq_true]

/-- What is found is the node itself, if it is a source file, and else the innermost one around
it. -/
lemma sourceFile?_eq_some_iff :
    t.sourceFile? n = some a ↔
      if (t.form? n).any isSourceFile = true then a = n else t.Innermost isSourceFile n a := by
  rw [sourceFile?]
  split
  · rw [Option.some.injEq, eq_comm]
  · exact h.findAncestor?_eq_some_iff

end Layered

/-- A tree that is built from the leaves up is layered, even if children are shared: a node has the
last one that lists it as its parent, and none only if no node lists it; the parent was added after
it; and spans cover those of the children.  So the walk to the parents ends from every node.  It
visits the proper ancestors, in order and each once, and the searches along it find the innermost
one that passes their test. -/
theorem layered_of_bottomUp (h : t.BottomUp) :
    (∀ c, match t.parent? c with
      | some p =>
        c.index < p.index ∧ c ∈ t.children p ∧ ∀ n, c ∈ t.children n → n.index ≤ p.index
      | none => ∀ n, c ∉ t.children n) ∧
    (∀ n, ∀ c ∈ t.children n, (t.span n).Covers (t.span c)) ∧
    ∀ n, t.Walk n (t.ancestors n) ∧ (∀ visited, t.Walk n visited → visited = t.ancestors n) ∧
      (∀ a, a ∈ t.ancestors n ↔ t.Above a n) ∧
      (t.ancestors n).Pairwise (fun a b => a.index < b.index) ∧
      (∀ test, (∀ a, t.findAncestor? test n = some a ↔ t.Innermost test n a) ∧
        (t.findAncestor? test n = none ↔
          ∀ a, t.Above a n → (t.form? a).any test = false)) ∧
      (∀ a, t.sourceFile? n = some a ↔
        if (t.form? n).any isSourceFile = true then a = n else t.Innermost isSourceFile n a) ∧
      ∀ a, t.enclosingFunction? n = some a ↔ t.Innermost Form.isFunction n a := by
  have hlayered := h.layered
  refine ⟨fun c => ?_, fun n c hc => hlayered.covers hc, fun n => ?_⟩
  · cases hp : t.parent? c with
    | none => exact hlayered.parent_none_iff.1 hp
    | some p => exact ⟨hlayered.index_lt_of_parent hp, hlayered.parent_iff.1 hp⟩
  · have hwalk := hlayered.walk_ancestors n
    exact ⟨hwalk, fun _ hwalk' => hwalk'.unique hwalk, fun _ => hlayered.mem_ancestors_iff,
      hlayered.pairwise_of_walk hwalk,
      fun _ => ⟨fun _ => hlayered.findAncestor?_eq_some_iff, hlayered.findAncestor?_eq_none_iff⟩,
      fun _ => hlayered.sourceFile?_eq_some_iff, fun _ => hlayered.findAncestor?_eq_some_iff⟩

/-- A file with `x + y` and, after it, `(x)`, which takes the first name out of the sum. -/
def shared : Tree :=
  let t := (({} : Tree).add (.identifier "x") ⟨0, 1⟩).2
  let t := (t.add (.identifier "y") ⟨4, 5⟩).2
  let t := (t.add (.binary .add ⟨0⟩ ⟨1⟩) ⟨2, 3⟩).2
  let t := (t.add (.parenthesized ⟨0⟩) ⟨7, 9⟩).2
  (t.add (.sourceFile "main.ts" [⟨2⟩, ⟨3⟩]) ⟨5, 6⟩).2

/-- The first name of the file is still a child of the sum, which covers it, but the way up goes
through the parentheses. -/
theorem layered_of_bottomUp_shared :
    shared.BottomUp ∧ shared.children ⟨2⟩ = [⟨0⟩, ⟨1⟩] ∧ shared.parent? ⟨0⟩ = some ⟨3⟩ ∧
      (shared.span ⟨2⟩).Covers (shared.span ⟨0⟩) ∧ shared.Walk ⟨0⟩ [⟨3⟩, ⟨4⟩] ∧
      shared.Innermost isSourceFile ⟨0⟩ ⟨4⟩ ∧ ¬ shared.Above ⟨2⟩ ⟨0⟩ := by
  have hbuilt : shared.BottomUp :=
    .add (.add (.add (.add (.add .empty (by decide)) (by decide)) (by decide)) (by decide))
      (by decide)
  obtain ⟨-, hcovers, hwalks⟩ := layered_of_bottomUp hbuilt
  obtain ⟨hwalk, -, hmem, -, hfind, -⟩ := hwalks ⟨0⟩
  have hancestors : shared.ancestors ⟨0⟩ = [⟨3⟩, ⟨4⟩] := by decide
  refine ⟨hbuilt, by decide, by decide, hcovers ⟨2⟩ ⟨0⟩ (by decide), hancestors ▸ hwalk,
    ((hfind isSourceFile).1 ⟨4⟩).1 (by decide), ?_⟩
  rw [← hmem, hancestors]
  decide

end Tree

end ValueSchema
