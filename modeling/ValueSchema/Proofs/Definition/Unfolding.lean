/-
# The meaning of a schema with definitions

A schema with definitions stands for its unfolding: every reference to a definition is replaced by
the unfolding of the body.  Definitions may lead back to themselves, so the unfolding is infinite in
general, and a reference that leads only to references has none.  It is described by what stands at
its finite paths, `Schema.Reads`.

Inlining definitions that do not mention each other keeps the unfolding of every schema, and so does
removing what a schema does not lead to.  The two together are the part of the reduction that comes
after the trivial definitions are gone; its meaning and the definitions that it leaves are the main
result, `Bundle.reads_reduce_iff`.
-/
import ValueSchema.Proofs.Definition.Reachability

namespace ValueSchema

namespace Schema

/-- A schema without its children: its kind, and what it says besides them. -/
def shape (s : Schema) : Schema := s.mapChildren fun _ => never

/-- What stands at a path of the unfolding of a schema.  A path names children by their positions;
going from a reference to the body of its definition takes no step. -/
inductive Reads (definitions : Entries Schema) : Schema → List Nat → Schema → Prop where
  /-- A schema that is no reference to a definition stands where it is. -/
  | here {s : Schema} (hs : s.body? definitions = none) : Reads definitions s [] s.shape
  /-- A path goes on in a child. -/
  | child {s t result : Schema} {i : Nat} {path : List Nat} (hs : s.body? definitions = none)
      (ht : s.children[i]? = some t) (h : Reads definitions t path result) :
      Reads definitions s (i :: path) result
  /-- A reference to a definition is its body. -/
  | unfold {s t result : Schema} {path : List Nat} (hs : s.body? definitions = some t)
      (h : Reads definitions t path result) : Reads definitions s path result

@[simp] lemma shape_mapChildren (f : Schema → Schema) (s : Schema) :
    (s.mapChildren f).shape = s.shape := by
  rw [shape, shape, mapChildren_mapChildren]
  rfl

/-- Two maps of definitions give the same unfolding of a schema if they agree on everything that
the unfolding comes across. -/
lemma Reads.congr {definitions others : Entries Schema} {Inv : Schema → Prop}
    (hchild : ∀ s, Inv s → ∀ t ∈ s.children, Inv t)
    (hbody : ∀ s t, Inv s → s.body? definitions = some t → Inv t)
    (hagree : ∀ s, Inv s → s.body? others = s.body? definitions)
    {s result : Schema} {path : List Nat} (h : Reads definitions s path result) (hs : Inv s) :
    Reads others s path result := by
  induction h with
  | here hnone => exact .here (by rw [hagree _ hs, hnone])
  | child hnone ht _ ih =>
    exact .child (by rw [hagree _ hs, hnone]) ht (ih (hchild _ hs _ (List.mem_of_getElem? ht)))
  | unfold hsome _ ih => exact .unfold (by rw [hagree _ hs, hsome]) (ih (hbody _ _ hs hsome))

end Schema

namespace Bundle

open Schema

/-! ## Inlining -/

namespace Inlinable

variable {b : Bundle} {bodies : Entries Schema} {s t : Schema}

/-- What a schema reads as before inlining, it reads as afterwards. -/
lemma reads_inline (h : b.Inlinable bodies) {path : List Nat} {result : Schema}
    (hr : Reads b.definitions s path result) :
    Reads (b.inlineDefinitions bodies).definitions (s.inline bodies) path result := by
  induction hr with
  | here hs =>
    have hnone := h.body?_eq_none hs
    rw [inline_of_body?_eq_none hnone, ← shape_mapChildren (inline bodies)]
    exact .here (by rw [body?_mapChildren, body?_inlineDefinitions hnone, hs, Option.map_none])
  | @child s t result i path hs ht hr ih =>
    have hnone := h.body?_eq_none hs
    rw [inline_of_body?_eq_none hnone]
    refine .child (t := t.inline bodies) ?_ ?_ ih
    · rw [body?_mapChildren, body?_inlineDefinitions hnone, hs, Option.map_none]
    · rw [children_mapChildren, List.getElem?_map, ht, Option.map_some]
  | @unfold s t result path hs hr ih =>
    rcases hbody : s.body? bodies with _ | u
    · rw [inline_of_body?_eq_none hbody]
      refine .unfold (t := t.inline bodies) ?_ ih
      rw [body?_mapChildren, body?_inlineDefinitions hbody, hs, Option.map_some]
    · -- the reference has become its body, so there is no step to take
      have hut : u = t := Option.some.inj ((h.body?_eq hbody).symm.trans hs)
      subst hut
      rw [inline_of_body? hbody]
      rwa [h.inline_body hbody] at ih

/-- Every schema is inlined like one that is no reference to a body, and reads as that one does. -/
lemma exists_settled (h : b.Inlinable bodies) (s : Schema) :
    ∃ t, t.body? bodies = none ∧ s.inline bodies = t.mapChildren (inline bodies) ∧
      ∀ path result, Reads b.definitions t path result → Reads b.definitions s path result := by
  rcases hbody : s.body? bodies with _ | t
  · exact ⟨s, hbody, inline_of_body?_eq_none hbody, fun _ _ hr => hr⟩
  · refine ⟨t, h.body?_body hbody, ?_, fun _ _ hr => .unfold (h.body?_eq hbody) hr⟩
    rw [inline_of_body? hbody, ← inline_of_body?_eq_none (h.body?_body hbody),
      h.inline_body hbody]

/-- What a schema reads as after inlining, it reads as before. -/
lemma reads_of_inline (h : b.Inlinable bodies) {u result : Schema} {path : List Nat}
    (hr : Reads (b.inlineDefinitions bodies).definitions u path result) :
    ∀ s, u = s.inline bodies → Reads b.definitions s path result := by
  induction hr with
  | here hu =>
    intro s hs
    obtain ⟨t, hnone, heq, hback⟩ := h.exists_settled s
    subst hs
    rw [heq, body?_mapChildren, body?_inlineDefinitions hnone, Option.map_eq_none_iff] at hu
    rw [heq, shape_mapChildren]
    exact hback _ _ (.here hu)
  | child hu hchild _ ih =>
    intro s hs
    obtain ⟨t, hnone, heq, hback⟩ := h.exists_settled s
    subst hs
    rw [heq, body?_mapChildren, body?_inlineDefinitions hnone, Option.map_eq_none_iff] at hu
    rw [heq, children_mapChildren, List.getElem?_map, Option.map_eq_some_iff] at hchild
    obtain ⟨v, hv, rfl⟩ := hchild
    exact hback _ _ (.child hu hv (ih v rfl))
  | unfold hu _ ih =>
    intro s hs
    obtain ⟨t, hnone, heq, hback⟩ := h.exists_settled s
    subst hs
    rw [heq, body?_mapChildren, body?_inlineDefinitions hnone, Option.map_eq_some_iff] at hu
    obtain ⟨v, hv, rfl⟩ := hu
    exact hback _ _ (.unfold hv (ih v rfl))

/-- Inlining keeps the unfolding of every schema. -/
theorem reads_inline_iff (h : b.Inlinable bodies) (path : List Nat) (result : Schema) :
    Reads (b.inlineDefinitions bodies).definitions (s.inline bodies) path result ↔
      Reads b.definitions s path result :=
  ⟨fun hr => h.reads_of_inline hr s rfl, h.reads_inline⟩

end Inlinable

/-! ## Definitions that are used once -/

/-- Inlining definitions that are used once, one after the other, keeps the unfolding. -/
lemma reads_inlineSingleUse_iff (rounds : Nat) {b : Bundle}
    (hmap : (Entries.names b.definitions).Nodup) (path : List Nat) (result : Schema) :
    Reads (b.inlineSingleUse rounds).definitions (b.inlineSingleUse rounds).root path result ↔
      Reads b.definitions b.root path result := by
  induction rounds generalizing b with
  | zero => exact Iff.rfl
  | succ rounds ih =>
    rw [inlineSingleUse]
    split
    · exact Iff.rfl
    · rename_i e he
      rw [ih (hmap.sublist (names_inlineDefinitions_sublist _ _))]
      exact (inlinable_singleUse hmap he).reads_inline_iff path result

/-! ## Pruning -/

/-- Pruning keeps the unfolding of the schema. -/
lemma reads_prune_iff (b : Bundle) (path : List Nat) (result : Schema) :
    Reads b.prune.definitions b.prune.root path result ↔
      Reads b.definitions b.root path result := by
  -- what is met on the way from the root refers to nothing that the root does not lead to
  let Inv : Schema → Prop := fun s =>
    ∀ id ∈ s.references, id ∈ Entries.names b.definitions → Reaches b.definitions b.root id
  have hroot : Inv b.root := fun id href hdef => .root href hdef
  have hchild : ∀ s, Inv s → ∀ t ∈ s.children, Inv t := fun s hs t ht id href =>
    hs id (mem_references_iff.2 (Or.inr ⟨t, ht, href⟩))
  have hbody : ∀ s t, Inv s → s.body? b.definitions = some t → Inv t := by
    intro s t hs ht id href hdef
    obtain ⟨i, hi, hget⟩ := body?_eq_some_iff.1 ht
    have hreach := hs i (mem_references_iff.2 (Or.inl hi))
      (Entries.mem_names_of_mem (Entries.mem_of_get? hget))
    exact .step hreach hget href hdef
  have hagree : ∀ s, Inv s → s.body? b.prune.definitions = s.body? b.definitions := by
    intro s hs
    rcases hid : s.reference? with _ | id
    · simp [body?, hid]
    · by_cases hdef : id ∈ Entries.names b.definitions
      · simp [body?, hid, get?_prune (hs id (mem_references_iff.2 (Or.inl hid)) hdef)]
      · have hout : id ∉ Entries.names b.prune.definitions := fun h =>
          hdef (names_prune_sublist b |>.subset h)
        simp [body?, hid, Entries.get?_eq_none_iff.2 hdef, Entries.get?_eq_none_iff.2 hout]
  constructor
  · intro h
    refine h.congr hchild (fun s t hs ht => hbody s t hs ?_) (fun s hs => (hagree s hs).symm) hroot
    rw [← hagree s hs, ht]
  · exact fun h => h.congr hchild hbody hagree hroot

/-! ## The reduction once trivial definitions are gone -/

lemma reads_inlined_iff {b : Bundle} (hmap : (Entries.names b.definitions).Nodup)
    (inlineSingle : Bool) (path : List Nat) (result : Schema) :
    Reads (b.inlined inlineSingle).definitions (b.inlined inlineSingle).root path result ↔
      Reads b.definitions b.root path result := by
  cases inlineSingle with
  | false => exact Iff.rfl
  | true => exact reads_inlineSingleUse_iff _ hmap path result

/-- Without trivial definitions there is nothing to do for `inlineTrivial`. -/
lemma inlineTrivial_of_settled {b : Bundle}
    (hexit : ∀ e ∈ b.definitions, e.2.isTrivial = false ∨ e.2.mentions e.1 = true) (rounds : Nat) :
    b.inlineTrivial rounds = b := by
  refine inlineTrivial_of_trivial_eq_nil rounds (List.filter_eq_nil_iff.2 fun e he => ?_)
  rcases hexit e he with h | h <;> simp [h]

/-- If every definition is non-trivial or mentions itself, the reduction keeps the unfolding of the
schema, at every path; and the definitions it leaves are, in their order, those of the inlined ones
that the reduced schema leads to. -/
theorem reads_reduce_iff (b : Bundle) (hmap : (Entries.names b.definitions).Nodup)
    (hexit : ∀ e ∈ b.definitions, e.2.isTrivial = false ∨ e.2.mentions e.1 = true)
    (inlineSingle : Bool) :
    (∀ path result,
      Reads (b.reduce inlineSingle).definitions (b.reduce inlineSingle).root path result ↔
        Reads b.definitions b.root path result) ∧
    (Entries.names (b.reduce inlineSingle).definitions).Sublist (Entries.names b.definitions) ∧
    ∀ id, id ∈ Entries.names (b.reduce inlineSingle).definitions ↔
      id ∈ Entries.names (b.inlined inlineSingle).definitions ∧
        Reaches (b.inlined inlineSingle).definitions (b.reduce inlineSingle).root id := by
  rw [reduce_eq, inlineTrivial_of_settled hexit]
  refine ⟨fun path result => ?_, ?_, fun id => ?_⟩
  · rw [reads_prune_iff, reads_inlined_iff hmap]
  · exact (names_prune_sublist _).trans (names_inlined_sublist b inlineSingle)
  · rw [mem_names_prune_iff, prune_root]
    exact ⟨fun h => ⟨h.mem_names, h⟩, fun h => h.2⟩

/-- A list of entries.  `Box` is used once, and the only reference to `Key` is an argument of that
reference; `List` mentions itself. -/
def entryList : Bundle where
  root := .object [("first", .reference "Box" [.reference "Key" [] "Key"] "Box"),
    ("rest", .reference "List" [] "List")] []
  definitions :=
    [("Box", .object [("content", .plain .string)] []), ("Key", .array (.plain .string)),
      ("List", .union [.literal .null, .object [("next", .reference "List" [] "List")] []])]

theorem reads_reduce_entryList :
    (Entries.names entryList.definitions).Nodup ∧
      (∀ e ∈ entryList.definitions, e.2.isTrivial = false ∨ e.2.mentions e.1 = true) ∧
      Entries.names (entryList.reduce true).definitions = ["List"] ∧
      ∀ path result,
        Reads (entryList.reduce true).definitions (entryList.reduce true).root path result ↔
          Reads entryList.definitions entryList.root path result := by
  have hmap : (Entries.names entryList.definitions).Nodup := by decide
  have hexit : ∀ e ∈ entryList.definitions, e.2.isTrivial = false ∨ e.2.mentions e.1 = true := by
    decide
  exact ⟨hmap, hexit, by decide, (reads_reduce_iff entryList hmap hexit true).1⟩

end Bundle

end ValueSchema
