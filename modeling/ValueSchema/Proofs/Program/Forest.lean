/-
# Orderly trees

A program is put together from the leaves up.  In an orderly tree every node that became a child was
there before its parent, had no parent yet and was no source file.  Such a tree is a forest: the
children of a node are the nodes that have it as their parent, and no node stands twice in the order
of the source, which lists a node before what is in it.
-/
import Mathlib.Data.List.Nodup
import Mathlib.Logic.Relation
import Mathlib.Tactic.Common
import ValueSchema.Syntax.Tree

namespace ValueSchema.Tree

/-- A node that may become a child: it is there, it has no parent, and it is no source file. -/
def IsFree (t : Tree) (n : NodeId) : Prop :=
  (t.form? n).any (fun form => !isSourceFile form) = true ∧ t.parent? n = none

/-- A tree, with its source files, that was made by adding nodes, each used as a child at most
once. -/
inductive Orderly : Tree → List NodeId → Prop
  | empty : Orderly {} []
  | add {t : Tree} {files : List NodeId} {form : Form} {span : Span} (h : Orderly t files)
      (hfree : ∀ c ∈ form.children, t.IsFree c) (hnodup : form.children.Nodup) :
      Orderly (t.add form span).2
        (if isSourceFile form then files ++ [(t.add form span).1] else files)

/-- A tree in which a node is younger than its children and the only one that lists them, each of them
once. -/
structure Tidy (t : Tree) : Prop where
  parent_iff : ∀ {n c : NodeId}, t.parent? c = some n ↔ c ∈ t.children n
  older : ∀ {n c : NodeId}, c ∈ t.children n → c.index < n.index
  nodup_children : ∀ n, (t.children n).Nodup

/-- A tree in which parents and children fit together, with its source files. -/
structure Forest (t : Tree) (files : List NodeId) : Prop where
  parent_iff : ∀ {n c : NodeId}, t.parent? c = some n ↔ c ∈ t.children n
  older : ∀ {n c : NodeId}, c ∈ t.children n → c.index < n.index
  nodup_children : ∀ n, (t.children n).Nodup
  parent_sourceFile : ∀ {n form}, t.form? n = some form → isSourceFile form = true →
    t.parent? n = none
  nodup_files : files.Nodup
  form_of_mem_files : ∀ n ∈ files, ∃ form, t.form? n = some form ∧ isSourceFile form = true

variable {t : Tree} {files : List NodeId} {m n c p : NodeId}

/-! ## Adding a node -/

lemma children_of_form {form : Form} (h : t.form? n = some form) :
    t.children n = form.children := by
  rw [children, h]
  rfl

lemma index_lt_of_form {form : Form} (h : t.form? n = some form) : n.index < t.size := by
  rw [form?, get?, Option.map_eq_some_iff] at h
  obtain ⟨node, hnode, -⟩ := h
  exact (Array.getElem?_eq_some_iff.1 hnode).1

lemma index_lt_of_mem_children (h : c ∈ t.children n) : n.index < t.size := by
  rcases hform : t.form? n with _ | form
  · rw [children, hform] at h
    cases h
  · exact index_lt_of_form hform

lemma parent?_of_size_le (h : t.size ≤ n.index) : t.parent? n = none := by
  have hnone : t.get? n = none := Array.getElem?_eq_none h
  rw [parent?, hnone]
  rfl

lemma parent?_size (t : Tree) : t.parent? ⟨t.size⟩ = none := parent?_of_size_le (Nat.le_refl _)

lemma notMem_of_index_lt {nodes : List NodeId} (h : ∀ c ∈ nodes, c.index < t.size) :
    (⟨t.size⟩ : NodeId) ∉ nodes := fun hmem => Nat.lt_irrefl _ (h _ hmem)

lemma getElem?_foldl_link (parent : NodeId) (children : List NodeId) (nodes : Array Node)
    (i : Nat) :
    (children.foldl (link parent) nodes)[i]? =
      nodes[i]?.map fun node =>
        if (⟨i⟩ : NodeId) ∈ children then { node with parent := some parent } else node := by
  induction children generalizing nodes with
  | nil => simp
  | cons c rest ih =>
    rw [List.foldl_cons, ih, link, Array.getElem?_modify]
    by_cases hc : c.index = i
    · subst hc
      rw [if_pos rfl]
      cases nodes[c.index]? <;> simp
    · have hne : (⟨i⟩ : NodeId) ≠ c := fun h => hc (congrArg NodeId.index h).symm
      rw [if_neg hc]
      simp only [List.mem_cons, hne, false_or]

lemma get?_add (t : Tree) (form : Form) (span : Span) (n : NodeId) :
    ((t.add form span).2.get? n).map (fun node => (node.form, node.parent)) =
      if n = ⟨t.size⟩ then
        some (form, if n ∈ form.children then some ⟨t.size⟩ else none)
      else (t.get? n).map fun node =>
        (node.form, if n ∈ form.children then some ⟨t.size⟩ else node.parent) := by
  rw [get?, add]
  dsimp only
  rw [getElem?_foldl_link, Array.getElem?_push]
  by_cases hn : n = ⟨t.size⟩
  · have hindex : n.index = t.nodes.size := congrArg NodeId.index hn
    rw [if_pos hindex, if_pos hn]
    by_cases hmem : n ∈ form.children <;> simp [hmem]
  · have hindex : n.index ≠ t.nodes.size := fun h => hn (congrArg NodeId.mk h)
    rw [if_neg hindex, if_neg hn, get?]
    rcases t.nodes[n.index]? with _ | node
    · rfl
    · by_cases hmem : n ∈ form.children <;> simp [hmem]

lemma size_add (t : Tree) (form : Form) (span : Span) :
    (t.add form span).2.size = t.size + 1 := by
  have hlink : ∀ (parent : NodeId) (children : List NodeId) (nodes : Array Node),
      (children.foldl (link parent) nodes).size = nodes.size := by
    intro parent children
    induction children with
    | nil => exact fun _ => rfl
    | cons c rest ih => exact fun nodes => (ih _).trans Array.size_modify
  exact (hlink _ _ _).trans (Array.size_push _)

lemma form?_add (t : Tree) (form : Form) (span : Span) (n : NodeId) :
    (t.add form span).2.form? n = if n = ⟨t.size⟩ then some form else t.form? n := by
  have h := congrArg (Option.map Prod.fst) (get?_add t form span n)
  rw [Option.map_map] at h
  rw [form?, form?]
  refine h.trans ?_
  split
  · rfl
  · rw [Option.map_map]
    rfl

lemma children_add (t : Tree) (form : Form) (span : Span) (n : NodeId) :
    (t.add form span).2.children n = if n = ⟨t.size⟩ then form.children else t.children n := by
  rw [children, form?_add]
  split <;> rfl

lemma parent?_add {form : Form} (h : ∀ c ∈ form.children, c.index < t.size) (span : Span)
    (n : NodeId) :
    (t.add form span).2.parent? n =
      if n ∈ form.children then some ⟨t.size⟩ else t.parent? n := by
  have hnode := congrArg (fun o => o.bind Prod.snd) (get?_add t form span n)
  have hparent : (t.add form span).2.parent? n =
      (((t.add form span).2.get? n).map fun node => (node.form, node.parent)).bind Prod.snd := by
    rw [parent?, Option.bind_map]
    rfl
  rw [hparent]
  refine hnode.trans ?_
  by_cases hn : n = ⟨t.size⟩
  · subst hn
    rw [if_pos rfl, if_neg (notMem_of_index_lt h), parent?_size]
    simp [notMem_of_index_lt h]
  · rw [if_neg hn, parent?]
    by_cases hmem : n ∈ form.children
    · have hlt : n.index < t.nodes.size := h n hmem
      rw [if_pos hmem, get?, Array.getElem?_eq_getElem hlt]
      simp [hmem]
    · rw [if_neg hmem]
      cases t.get? n <;> simp [hmem]

lemma IsFree.exists_form (h : t.IsFree n) :
    ∃ form, t.form? n = some form ∧ isSourceFile form = false := by
  obtain ⟨form, hform, hsource⟩ := (Option.any_eq_true _ _).1 h.1
  exact ⟨form, hform, by simpa using hsource⟩

lemma IsFree.index_lt (h : t.IsFree n) : n.index < t.size := by
  obtain ⟨form, hform, -⟩ := h.exists_form
  exact index_lt_of_form hform

/-- Adding a node above free nodes makes a forest of a forest. -/
lemma Forest.add (h : t.Forest files) {form : Form} (hfree : ∀ c ∈ form.children, t.IsFree c)
    (hnodup : form.children.Nodup) (span : Span) :
    (t.add form span).2.Forest
      (if isSourceFile form then files ++ [(t.add form span).1] else files) := by
  have hindex : ∀ c ∈ form.children, c.index < t.size := fun c hc => (hfree c hc).index_lt
  have hnew : ∀ {c}, c ∉ t.children ⟨t.size⟩ := fun hc =>
    absurd (index_lt_of_mem_children hc) (Nat.lt_irrefl _)
  have hfiles : (⟨t.size⟩ : NodeId) ∉ files := notMem_of_index_lt fun n hn => by
    obtain ⟨_, hform, -⟩ := h.form_of_mem_files n hn
    exact index_lt_of_form hform
  refine ⟨fun {n c} => ?_, fun {n c} hc => ?_, fun n => ?_, fun {n form'} hform hsource => ?_, ?_,
    fun n hn => ?_⟩
  · rw [parent?_add hindex, children_add]
    by_cases hc : c ∈ form.children
    · -- the node had no parent before
      have hold : c ∉ t.children n := fun hmem => by
        rw [← h.parent_iff, (hfree c hc).2] at hmem
        cases hmem
      rw [if_pos hc]
      by_cases hn : n = ⟨t.size⟩
      · simp [hn, hc]
      · simp [hn, hold, Ne.symm hn]
    · rw [if_neg hc, h.parent_iff]
      by_cases hn : n = ⟨t.size⟩
      · simp [hn, hc, hnew]
      · rw [if_neg hn]
  · rw [children_add] at hc
    split at hc
    · rename_i hn
      rw [hn]
      exact hindex c hc
    · exact h.older hc
  · rw [children_add]
    split
    · exact hnodup
    · exact h.nodup_children n
  · rw [form?_add] at hform
    rw [parent?_add hindex]
    by_cases hn : n = ⟨t.size⟩
    · subst hn
      rw [if_neg (notMem_of_index_lt hindex), parent?_size]
    · rw [if_neg hn] at hform
      have hmem : n ∉ form.children := fun hmem => by
        obtain ⟨form'', hform'', hsource'⟩ := (hfree n hmem).exists_form
        obtain rfl := Option.some.inj (hform.symm.trans hform'')
        rw [hsource] at hsource'
        cases hsource'
      rw [if_neg hmem]
      exact h.parent_sourceFile hform hsource
  · split
    · rw [← List.concat_eq_append]
      exact h.nodup_files.concat hfiles
    · exact h.nodup_files
  · rw [form?_add]
    split at hn
    · rename_i hsource
      rcases List.mem_append.1 hn with hold | hlast
      · have hne : n ≠ ⟨t.size⟩ := fun heq => hfiles (heq ▸ hold)
        rw [if_neg hne]
        exact h.form_of_mem_files n hold
      · exact ⟨form, if_pos (List.mem_singleton.1 hlast), hsource⟩
    · have hne : n ≠ ⟨t.size⟩ := fun heq => hfiles (heq ▸ hn)
      rw [if_neg hne]
      exact h.form_of_mem_files n hn

lemma Orderly.forest (h : Orderly t files) : t.Forest files := by
  induction h with
  | empty =>
    have hget : ∀ n, ({} : Tree).get? n = none := fun n => by simp [get?]
    refine ⟨fun {n c} => ?_, fun hc => ?_, fun n => ?_, fun hform _ => ?_, List.nodup_nil,
      fun _ hn => by cases hn⟩
    · simp [parent?, children, form?, hget]
    · simp [children, form?, hget] at hc
    · simp [children, form?, hget]
    · simp [form?, hget] at hform
  | add _ hfree hnodup ih => exact ih.add hfree hnodup _

/-! ## The way up -/

/-- If parents come after their children, then the nodes around a node are its parent and those
around that: the walk does not end early. -/
lemma ancestors_eq_of_older (h : ∀ {c p : NodeId}, t.parent? c = some p → c.index < p.index)
    (n : NodeId) :
    t.ancestors n = match t.parent? n with
      | some p => p :: t.ancestors p
      | none => [] := by
  have hsame : ∀ fuel fuel' (n : NodeId), t.size ≤ n.index + fuel → t.size ≤ n.index + fuel' →
      t.ancestorsWithin fuel n = t.ancestorsWithin fuel' n := by
    -- behind the last node there are no parents, however much fuel there is
    have hzero : ∀ fuel (n : NodeId), t.size ≤ n.index → t.ancestorsWithin fuel n = [] := by
      intro fuel n hle
      have hnone : t.parent? n = none := parent?_of_size_le hle
      cases fuel with
      | zero => rfl
      | succ fuel => rw [ancestorsWithin, hnone]
    intro fuel
    induction fuel with
    | zero => exact fun fuel' n hfuel _ => (hzero fuel' n hfuel).symm
    | succ fuel ih =>
      intro fuel' n hfuel hfuel'
      cases fuel' with
      | zero => exact hzero _ n hfuel'
      | succ fuel' =>
        rw [ancestorsWithin, ancestorsWithin]
        cases hp : t.parent? n with
        | none => rfl
        | some p =>
          have hlt := h hp
          exact congrArg _ (ih fuel' p (by omega) (by omega))
  cases hp : t.parent? n with
  | none =>
    rw [ancestors]
    cases t.size with
    | zero => rfl
    | succ k => rw [ancestorsWithin, hp]
  | some p =>
    have hlt := h hp
    have hsize : n.index < t.size := by
      by_contra hle
      rw [parent?_of_size_le (Nat.le_of_not_lt hle)] at hp
      cases hp
    obtain ⟨k, hk⟩ : ∃ k, t.size = k + 1 := ⟨t.size - 1, by omega⟩
    rw [ancestors, hk, ancestorsWithin, hp]
    refine congrArg (p :: ·) (hsame k t.size p (by omega) (by omega))

/-! ## The order of the source -/

/-- A node and everything in it, at most `fuel` levels deep, in the order of the source. -/
def preorderWithin (t : Tree) : Nat → NodeId → List NodeId
  | 0, _ => []
  | fuel + 1, n => n :: (t.children n).flatMap (t.preorderWithin fuel)

/-- A node and everything in it, in the order of the source. -/
def preorder (t : Tree) (n : NodeId) : List NodeId := t.preorderWithin (n.index + 1) n

/-- A node stands in another one, or is it. -/
def Under (t : Tree) : NodeId → NodeId → Prop :=
  Relation.ReflTransGen fun c p => t.parent? c = some p

namespace Tidy

variable (h : t.Tidy)

include h

lemma preorderWithin_eq {fuel : Nat} (hfuel : n.index < fuel) :
    t.preorderWithin fuel n = t.preorder n := by
  have hsame : ∀ fuel fuel' (n : NodeId), n.index < fuel → n.index < fuel' →
      t.preorderWithin fuel n = t.preorderWithin fuel' n := by
    intro fuel
    induction fuel with
    | zero => exact fun _ n hlt => absurd hlt (Nat.not_lt_zero _)
    | succ fuel ih =>
      intro fuel' n hfuel hfuel'
      obtain ⟨k, rfl⟩ : ∃ k, fuel' = k + 1 := ⟨fuel' - 1, by omega⟩
      rw [preorderWithin, preorderWithin]
      refine congrArg _ (List.flatMap_congr fun c hc => ?_)
      have := h.older hc
      exact ih k c (by omega) (by omega)
  exact hsame fuel _ n hfuel (Nat.lt_succ_self _)

lemma preorder_eq (n : NodeId) : t.preorder n = n :: (t.children n).flatMap t.preorder := by
  rw [preorder, preorderWithin]
  exact congrArg _ (List.flatMap_congr fun c hc => h.preorderWithin_eq (h.older hc))

lemma index_lt_of_parent (hp : t.parent? c = some p) : c.index < p.index :=
  h.older (h.parent_iff.1 hp)

lemma index_le_of_under (hm : t.Under m n) : m.index ≤ n.index := by
  induction hm with
  | refl => exact Nat.le_refl _
  | tail _ hp ih => exact Nat.le_trans ih (Nat.le_of_lt (h.index_lt_of_parent hp))

/-- What the order of the source lists for a node stands in it. -/
lemma under_of_mem_preorder (hm : m ∈ t.preorder n) : t.Under m n := by
  induction hk : n.index using Nat.strongRecOn generalizing n with
  | ind k ih =>
    rw [h.preorder_eq, List.mem_cons, List.mem_flatMap] at hm
    rcases hm with rfl | ⟨c, hc, hm⟩
    · exact .refl
    · have hlt := h.older hc
      exact (ih c.index (by omega) hm rfl).tail (h.parent_iff.2 hc)

/-- Nothing stands in two different children of one node, nor in two nodes without parents. -/
lemma eq_of_under (hm : t.Under m c) (hm' : t.Under m p) (hparent : t.parent? c = t.parent? p) :
    c = p := by
  have hsame : ∀ {c p : NodeId}, t.Under c p → t.parent? c = t.parent? p → c = p := by
    intro c p hunder hparent
    rcases Relation.ReflTransGen.cases_head hunder with rfl | ⟨q, hq, hunder⟩
    · rfl
    · have hle := h.index_le_of_under hunder
      have hlt := h.index_lt_of_parent (hparent ▸ hq)
      omega
  have hunique : Relator.RightUnique fun c p => t.parent? c = some p := fun a b d hb hd =>
    Option.some.inj (hb.symm.trans hd)
  -- the way up from a node is unique, so that one of the two is on the way to the other
  rcases Relation.ReflTransGen.total_of_right_unique hunique hm hm' with hunder | hunder
  · exact hsame hunder hparent
  · exact (hsame hunder hparent.symm).symm

/-- The nodes of different siblings are different. -/
lemma nodup_flatMap_preorder {nodes : List NodeId} {parent : Option NodeId} (hnodup : nodes.Nodup)
    (hparent : ∀ c ∈ nodes, t.parent? c = parent) (heach : ∀ c ∈ nodes, (t.preorder c).Nodup) :
    (nodes.flatMap t.preorder).Nodup := by
  rw [List.nodup_flatMap]
  refine ⟨heach, ?_⟩
  refine hnodup.imp_of_mem fun {c p} hc hp hne m hm hm' => hne ?_
  exact h.eq_of_under (h.under_of_mem_preorder hm) (h.under_of_mem_preorder hm')
    ((hparent c hc).trans (hparent p hp).symm)

/-- No node stands twice in the order of the source. -/
lemma nodup_preorder (n : NodeId) : (t.preorder n).Nodup := by
  induction hk : n.index using Nat.strongRecOn generalizing n with
  | ind k ih =>
    rw [h.preorder_eq, List.nodup_cons]
    constructor
    · intro hmem
      obtain ⟨c, hc, hm⟩ := List.mem_flatMap.1 hmem
      have hle := h.index_le_of_under (h.under_of_mem_preorder hm)
      have hlt := h.older hc
      omega
    · refine h.nodup_flatMap_preorder (h.nodup_children n) (fun c hc => h.parent_iff.2 hc)
        fun c hc => ?_
      have hlt := h.older hc
      exact ih c.index (by omega) c rfl

lemma ancestors_eq (n : NodeId) :
    t.ancestors n = match t.parent? n with
      | some p => p :: t.ancestors p
      | none => [] := ancestors_eq_of_older h.index_lt_of_parent n

end Tidy

namespace Forest

variable (h : t.Forest files)

include h

lemma tidy : t.Tidy := ⟨h.parent_iff, h.older, h.nodup_children⟩

lemma parent_of_mem_files (hn : n ∈ files) : t.parent? n = none := by
  obtain ⟨form, hform, hsource⟩ := h.form_of_mem_files n hn
  exact h.parent_sourceFile hform hsource

lemma nodup_preorder_files : (files.flatMap t.preorder).Nodup :=
  h.tidy.nodup_flatMap_preorder h.nodup_files (fun _ hn => h.parent_of_mem_files hn)
    fun n _ => h.tidy.nodup_preorder n

end Forest

end ValueSchema.Tree
