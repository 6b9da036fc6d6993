/-
# The types that forms imply

When a program is completed, every node whose form implies a type, and which has none yet, gets that
type.  What was there stays: types are only added, and no node gets another type.
-/
import ValueSchema.Proofs.Program.Declaration
import ValueSchema.Proofs.Program.Forest

namespace ValueSchema.Draft

/-- A node has a type with a given structure. -/
def HasType (d : Draft) (n : NodeId) (type : TypeForm) : Prop :=
  ∃ id, d.nodeTypes.get? n = some id ∧ d.types.get? id = some type

/-- A draft with a type for a node, which is added unless it is intrinsic. -/
def given (d : Draft) (n : NodeId) : TypeForm → Draft
  | .intrinsic kind => { d with nodeTypes := d.nodeTypes.put n kind.id }
  | type =>
    { d with types := (d.types.add type).2, nodeTypes := d.nodeTypes.put n (d.types.add type).1 }

variable {d : Draft} {m n : NodeId} {form : Form} {type : TypeForm} {id : TypeId}

/-- Nothing is given to a node that has a type, or whose form implies none. -/
lemma giveType_eq_self
    (h : (d.nodeTypes.get? n).isSome = true ∨ (d.tree.form? n).bind impliedType? = none) :
    d.giveType n = d := by
  rw [giveType]
  split
  · rfl
  · rename_i hnone
    rw [h.resolve_left hnone]

lemma giveType_eq (hnone : d.nodeTypes.get? n = none) (hform : d.tree.form? n = some form)
    (himplied : impliedType? form = some type) : d.giveType n = d.given n type := by
  rw [giveType, hnone, if_neg (by simp), hform, Option.bind_some, himplied]
  cases type <;> rfl

lemma types_get?_add (h : d.types.get? id = some type) (new : TypeForm) :
    (d.types.add new).2.get? id = some type := by
  rw [TypeTable.get?] at h
  rw [TypeTable.add, TypeTable.get?, Array.getElem?_push,
    if_neg (Nat.ne_of_lt (Array.getElem?_eq_some_iff.1 h).1)]
  exact h

/-- Giving a type to a node changes neither the types that are there nor those of other nodes, nor
that of a node that has one. -/
lemma giveType_preserves (d : Draft) (n : NodeId) :
    (∀ id type, d.types.get? id = some type → (d.giveType n).types.get? id = some type) ∧
    (∀ m, m ≠ n → (d.giveType n).nodeTypes.get? m = d.nodeTypes.get? m) ∧
    ∀ m id, d.nodeTypes.get? m = some id → (d.giveType n).nodeTypes.get? m = some id := by
  by_cases h : (d.nodeTypes.get? n).isSome = true ∨ (d.tree.form? n).bind impliedType? = none
  · rw [giveType_eq_self h]
    exact ⟨fun _ _ => id, fun _ _ => rfl, fun _ _ => id⟩
  · obtain ⟨hnone, himplied⟩ := not_or.1 h
    obtain ⟨type, himplied⟩ := Option.ne_none_iff_exists'.1 himplied
    obtain ⟨form, hform, himplied⟩ := Option.bind_eq_some_iff.1 himplied
    rw [Option.not_isSome_iff_eq_none] at hnone
    have hother : ∀ m id, d.nodeTypes.get? m = some id → m ≠ n := by
      rintro m id hm rfl
      cases hnone.symm.trans hm
    have hput : ∀ (id : TypeId) m, m ≠ n → (d.nodeTypes.put n id).get? m = d.nodeTypes.get? m :=
      fun id m hm => Table.get?_put_of_ne _ hm.symm _
    have hput' : ∀ id' m id, d.nodeTypes.get? m = some id →
        (d.nodeTypes.put n id').get? m = some id :=
      fun id' m id hm => (hput id' m (hother m id hm)).trans hm
    rw [giveType_eq hnone hform himplied, given.eq_def]
    split
    · exact ⟨fun _ _ => id, hput _, hput' _⟩
    · exact ⟨fun _ _ h => types_get?_add h _, hput _, hput' _⟩

lemma HasType.giveType (h : d.HasType m type) (n : NodeId) : (d.giveType n).HasType m type := by
  obtain ⟨id, hnode, htype⟩ := h
  obtain ⟨htypes, -, hnodes⟩ := giveType_preserves d n
  exact ⟨id, hnodes m id hnode, htypes id type htype⟩

/-- A node without a type is given the one that its form implies. -/
lemma hasType_giveType (hnone : d.nodeTypes.get? n = none) (hform : d.tree.form? n = some form)
    (himplied : impliedType? form = some type)
    (hintrinsic : ∀ kind, type = .intrinsic kind → d.types.get? kind.id = some type) :
    (d.giveType n).HasType n type := by
  rw [giveType_eq hnone hform himplied, given.eq_def]
  split
  · exact ⟨_, Table.get?_put_self .., hintrinsic _ rfl⟩
  · exact ⟨_, Table.get?_put_self .., Array.getElem?_push_size⟩

/-- In a complete program a node whose form implies a type has that type, unless it was given
another one. -/
lemma hasType_finish (hnone : d.nodeTypes.get? n = none) (hform : d.tree.form? n = some form)
    (himplied : impliedType? form = some type)
    (hintrinsic : ∀ kind, type = .intrinsic kind → d.types.get? kind.id = some type) :
    d.finish.draft.HasType n type := by
  have hkeep : ∀ (items : List Nat) (d : Draft), d.HasType n type →
      (items.foldl (fun d i => d.giveType ⟨i⟩) d).HasType n type := by
    intro items
    induction items with
    | nil => exact fun _ => id
    | cons i rest ih => exact fun d h => ih _ (h.giveType _)
  have hrun : ∀ (items : List Nat) (d : Draft), n.index ∈ items → d.nodeTypes.get? n = none →
      d.tree.form? n = some form →
      (∀ kind, type = .intrinsic kind → d.types.get? kind.id = some type) →
      (items.foldl (fun d i => d.giveType ⟨i⟩) d).HasType n type := by
    intro items
    induction items with
    | nil => exact fun _ hmem => by cases hmem
    | cons i rest ih =>
      intro d hmem hnone hform hintrinsic
      rw [List.foldl_cons]
      by_cases hi : n = ⟨i⟩
      · subst hi
        exact hkeep rest _ (hasType_giveType hnone hform himplied hintrinsic)
      · -- another node has its turn, and the conditions stay as they are
        obtain ⟨htypes, hothers, -⟩ := giveType_preserves d ⟨i⟩
        refine ih _ ?_ ((hothers n hi).trans hnone) (by rw [tree_giveType, hform])
          fun kind hkind => htypes _ _ (hintrinsic kind hkind)
        exact (List.mem_cons.1 hmem).resolve_left fun h => hi (congrArg NodeId.mk h)
  exact hrun _ d (List.mem_range.2 (Tree.index_lt_of_form hform)) hnone hform hintrinsic

end ValueSchema.Draft
