/-
# Unions inside unions

A union in normal form is flat: no member of it is a union or `never`.  A reduction puts bodies in
the place of references and does not look at what stands around them.  A reference that is a member
of a union may become a union or `never` that way, and then the union around it is flat no longer.

Nothing else makes a union that is not flat.  A reduction is a run of *rounds*, each of which inlines
some definitions at once; what it makes of a schema is what all rounds make of it, one after the
other (`Bundle.settle`).  Every union that is left comes from a union that was there, and its members
are what became of the members (`Inlines.exists_union`).  So the unions of the result are flat exactly
if no member of a union that stays is a reference that becomes a union or `never`:
`Bundle.flat_reduce_iff`.  It is enough that no member of a union leads to a union or to `never`
along the definitions: `Bundle.flat_reduce_of_not_leads`.
-/
import ValueSchema.Proofs.Definition.Closedness

namespace ValueSchema

namespace Schema

/-- Whether a union has no place for a schema as a member: a union comes apart, and `never` goes. -/
def dissolves : Schema → Bool
  | union _ => true
  | s => s.isPrimitive .never

/-- The members of a union; any other schema has none. -/
def unionMembers : Schema → List Schema
  | union items => items
  | _ => []

/-- Whether a schema, if it is a union, is flat. -/
def FlatUnion (s : Schema) : Prop := ∀ m ∈ s.unionMembers, m.dissolves = false

instance (s : Schema) : Decidable s.FlatUnion :=
  inferInstanceAs (Decidable (∀ m ∈ s.unionMembers, m.dissolves = false))

/-- What several rounds of inlining make of a schema. -/
def inlineAll (rounds : List (Entries Schema)) (s : Schema) : Schema :=
  rounds.foldl (fun s bodies => s.inline bodies) s

@[simp] lemma inlineAll_cons (bodies : Entries Schema) (rounds : List (Entries Schema))
    (s : Schema) : inlineAll (bodies :: rounds) s = inlineAll rounds (s.inline bodies) := rfl

@[simp] lemma dissolves_mapChildren (f : Schema → Schema) (s : Schema) :
    (s.mapChildren f).dissolves = s.dissolves := by
  cases s <;> rfl

variable {bodies : Entries Schema} {s t : Schema}

/-- Inlining makes a union or `never` out of nothing but a reference. -/
lemma dissolves_inlineAll (rounds : List (Entries Schema)) (h : s.reference? = none) :
    (s.inlineAll rounds).dissolves = s.dissolves := by
  induction rounds generalizing s with
  | nil => rfl
  | cons bodies rest ih =>
    have hs : s.body? bodies = none := by rw [body?, h, Option.bind_none]
    rw [inlineAll_cons, inline_of_body?_eq_none hs, ih, dissolves_mapChildren]
    rw [reference?_mapChildren, h]

/-- What stands inside a schema after inlining stood there before, or it came with a body. -/
lemma mem_subterms_inline (h : t ∈ (s.inline bodies).subterms) :
    (∃ u ∈ s.subterms, t = u.mapChildren (inline bodies)) ∨ ∃ e ∈ bodies, t ∈ e.2.subterms := by
  induction s using induction with
  | step s ih =>
    rcases hbody : s.body? bodies with _ | body
    · rw [inline_of_body?_eq_none hbody] at h
      rcases mem_subterms.1 h with rfl | ⟨c, hc, htc⟩
      · exact Or.inl ⟨s, self_mem_subterms s, rfl⟩
      · rw [children_mapChildren] at hc
        obtain ⟨u, hu, rfl⟩ := List.mem_map.1 hc
        refine (ih u hu htc).imp_left ?_
        rintro ⟨v, hv, rfl⟩
        exact ⟨v, mem_subterms_of_mem_children hu hv, rfl⟩
    · rw [inline_of_body? hbody] at h
      obtain ⟨id, -, hget⟩ := body?_eq_some_iff.1 hbody
      exact Or.inr ⟨(id, body), Entries.mem_of_get? hget, h⟩

lemma subterms_trans {u : Schema} (hu : u ∈ s.subterms) (ht : t ∈ u.subterms) :
    t ∈ s.subterms := by
  induction s using induction with
  | step s ih =>
    rcases mem_subterms.1 hu with rfl | ⟨c, hc, huc⟩
    · exact ht
    · exact mem_subterms_of_mem_children hc (ih c hc huc)

lemma eq_union_of_mapChildren_eq {f : Schema → Schema} {items : List Schema}
    (h : union items = s.mapChildren f) : ∃ members, s = union members ∧ items = members.map f := by
  cases s with
  | union members => exact ⟨members, rfl, union.inj h⟩
  | _ => cases h

end Schema

namespace Bundle

open Schema

/-- Everything inside a schema and its definitions. -/
def subterms (b : Bundle) : List Schema :=
  b.root.subterms ++ b.definitions.flatMap fun e => e.2.subterms

/-- No union anywhere has a member that is a union or `never`. -/
def Flat (b : Bundle) : Prop := ∀ s ∈ b.subterms, s.FlatUnion

instance (b : Bundle) : Decidable b.Flat :=
  inferInstanceAs (Decidable (∀ s ∈ b.subterms, s.FlatUnion))

lemma mem_subterms {b : Bundle} {s : Schema} :
    s ∈ b.subterms ↔ s ∈ b.root.subterms ∨ ∃ e ∈ b.definitions, s ∈ e.2.subterms := by
  simp [subterms]

lemma mem_subterms_of_prune {b : Bundle} {s : Schema} (h : s ∈ b.prune.subterms) :
    s ∈ b.subterms := by
  rcases mem_subterms.1 h with hroot | ⟨e, he, hs⟩
  · exact mem_subterms.2 (Or.inl hroot)
  · exact mem_subterms.2 (Or.inr ⟨e, List.mem_of_mem_filter he, hs⟩)

/-! ## One round -/

/-- Definitions that one round inlines: no union inside them refers to any of them, so it comes into
its place as it is going to stay in this round. -/
structure Round (b : Bundle) (bodies : Entries Schema) : Prop where
  /-- The bodies are definitions. -/
  mem : ∀ e ∈ bodies, e ∈ b.definitions
  /-- No union inside the bodies refers to a body. -/
  not_mem : ∀ e ∈ bodies, ∀ items, union items ∈ e.2.subterms →
    ∀ id ∈ (union items).references, id ∉ Entries.names bodies

/-- A trivial schema has nothing inside it. -/
lemma subterms_of_isTrivial {s : Schema} (h : s.isTrivial = true) : s.subterms = [s] := by
  cases s with
  | reference name arguments id =>
    obtain rfl : arguments = [] := by simpa [isTrivial] using h
    rfl
  | primitive | literal | error => rfl
  | _ => cases h

lemma round_trivialDefinitions (b : Bundle) : b.Round b.trivialDefinitions where
  mem e he := (mem_trivialDefinitions.1 he).1
  not_mem e he items hitems := by
    have htrivial := (mem_trivialDefinitions.1 he).2.1
    rw [subterms_of_isTrivial htrivial, List.mem_singleton] at hitems
    rw [← hitems] at htrivial
    cases htrivial

lemma round_singleUse {b : Bundle} {e : String × Schema} (h : b.singleUse? = some e) :
    b.Round [e] where
  mem d hd := List.mem_singleton.1 hd ▸ (mem_of_singleUse? h).1
  not_mem d hd items hitems id hid := by
    obtain rfl := List.mem_singleton.1 hd
    rw [Entries.names, List.map_singleton, List.mem_singleton]
    rintro rfl
    obtain ⟨t, ht, href⟩ := Schema.mem_references.1 hid
    refine (mem_of_singleUse? h).2 (Schema.mem_references.2 ⟨t, ?_, href⟩)
    exact subterms_trans hitems ht

/-- A union after a round comes from a union before it, and its members are what became of the
members. -/
lemma Round.exists_union {b : Bundle} {bodies : Entries Schema} (h : b.Round bodies)
    {items : List Schema} (hitems : union items ∈ (b.inlineDefinitions bodies).subterms) :
    ∃ members, union members ∈ b.subterms ∧ items = members.map (inline bodies) := by
  have hinline : ∀ s : Schema, (∀ t ∈ s.subterms, t ∈ b.subterms) →
      union items ∈ (s.inline bodies).subterms →
        ∃ members, union members ∈ b.subterms ∧ items = members.map (inline bodies) := by
    intro s hs hmem
    rcases mem_subterms_inline hmem with ⟨u, hu, heq⟩ | ⟨e, he, hin⟩
    · obtain ⟨members, rfl, rfl⟩ := eq_union_of_mapChildren_eq heq
      exact ⟨members, hs _ hu, rfl⟩
    · -- the union came in with a body, and the round does not change it
      refine ⟨items, mem_subterms.2 (Or.inr ⟨e, h.mem e he, hin⟩), ?_⟩
      have hkeep : ∀ m ∈ items, m.inline bodies = m := fun m hm => inline_eq_self fun id hid =>
        h.not_mem e he items hin id (mem_references_iff.2 (Or.inr ⟨m, hm, hid⟩))
      rw [List.map_congr_left hkeep, List.map_id']
  rcases mem_subterms.1 hitems with hroot | ⟨e, he, hin⟩
  · exact hinline b.root (fun t ht => mem_subterms.2 (Or.inl ht)) hroot
  · obtain ⟨body, hbody, heq⟩ := mem_definitions_inlineDefinitions he
    rw [heq] at hin
    exact hinline body (fun t ht => mem_subterms.2 (Or.inr ⟨_, hbody, ht⟩)) hin

/-! ## A run of rounds -/

/-- From one bundle to another one by rounds of inlining. -/
inductive Inlines : Bundle → List (Entries Schema) → Bundle → Prop where
  | done (b : Bundle) : Inlines b [] b
  | round {b c : Bundle} {bodies : Entries Schema} {rest : List (Entries Schema)}
      (h : b.Round bodies) (hrest : Inlines (b.inlineDefinitions bodies) rest c) :
      Inlines b (bodies :: rest) c

namespace Inlines

variable {b c d : Bundle} {rounds more : List (Entries Schema)}

lemma trans (h : Inlines b rounds c) (h' : Inlines c more d) : Inlines b (rounds ++ more) d := by
  induction h with
  | done => exact h'
  | round hround _ ih => exact .round hround (ih h')

/-- A union after a run comes from a union before it, and its members are what became of the
members. -/
theorem exists_union (h : Inlines b rounds c) {items : List Schema}
    (hitems : union items ∈ c.subterms) :
    ∃ members, union members ∈ b.subterms ∧ items = members.map (inlineAll rounds) := by
  induction h with
  | done => exact ⟨items, hitems, (List.map_id' items).symm⟩
  | @round b c bodies rest hround _ ih =>
    obtain ⟨middle, hmiddle, rfl⟩ := ih hitems
    obtain ⟨members, hmembers, rfl⟩ := hround.exists_union hmiddle
    exact ⟨members, hmembers, by rw [List.map_map]; rfl⟩

end Inlines

/-- The rounds of trivial definitions, as `inlineTrivial` goes through them. -/
def trivialRounds (rounds : Nat) (b : Bundle) : List (Entries Schema) :=
  match rounds with
  | 0 => []
  | rounds + 1 =>
    let trivial := b.trivialDefinitions
    if trivial.isEmpty then [] else trivial :: (b.inlineDefinitions trivial).trivialRounds rounds

/-- The rounds of definitions that are used once, as `inlineSingleUse` goes through them. -/
def singleUseRounds (rounds : Nat) (b : Bundle) : List (Entries Schema) :=
  match rounds with
  | 0 => []
  | rounds + 1 =>
    match b.singleUse? with
    | none => []
    | some e => [e] :: (b.inlineDefinitions [e]).singleUseRounds rounds

/-- The rounds of a reduction. -/
def rounds (b : Bundle) (inlineSingle : Bool) : List (Entries Schema) :=
  let c := b.inlineTrivial b.definitions.length
  b.trivialRounds b.definitions.length ++
    if inlineSingle then c.singleUseRounds c.definitions.length else []

/-- What a reduction makes of a schema. -/
def settle (b : Bundle) (inlineSingle : Bool) (s : Schema) : Schema :=
  s.inlineAll (b.rounds inlineSingle)

lemma inlines_trivialRounds (rounds : Nat) (b : Bundle) :
    Inlines b (b.trivialRounds rounds) (b.inlineTrivial rounds) := by
  induction rounds generalizing b with
  | zero => exact .done b
  | succ rounds ih =>
    rw [trivialRounds, inlineTrivial]
    split
    · exact .done b
    · exact .round b.round_trivialDefinitions (ih _)

lemma inlines_singleUseRounds (rounds : Nat) (b : Bundle) :
    Inlines b (b.singleUseRounds rounds) (b.inlineSingleUse rounds) := by
  induction rounds generalizing b with
  | zero => exact .done b
  | succ rounds ih =>
    rcases huse : b.singleUse? with _ | e
    · simp only [singleUseRounds, inlineSingleUse, huse]
      exact .done b
    · simp only [singleUseRounds, inlineSingleUse, huse]
      exact .round (round_singleUse huse) (ih _)

/-- A reduction is the run of its rounds, and then what is not needed goes. -/
lemma inlines_rounds (b : Bundle) (inlineSingle : Bool) :
    Inlines b (b.rounds inlineSingle)
      ((b.inlineTrivial b.definitions.length).inlined inlineSingle) := by
  refine (inlines_trivialRounds _ b).trans ?_
  cases inlineSingle with
  | false => exact .done _
  | true => exact inlines_singleUseRounds _ _

/-- Every union that a reduction leaves comes from a union that was there. -/
lemma exists_union_of_reduce {b : Bundle} {inlineSingle : Bool} {items : List Schema}
    (h : union items ∈ (b.reduce inlineSingle).subterms) :
    ∃ members, union members ∈ b.subterms ∧ items = members.map (b.settle inlineSingle) := by
  rw [reduce_eq] at h
  exact (inlines_rounds b inlineSingle).exists_union (mem_subterms_of_prune h)

/-! ## Members that lead to unions -/

/-- A schema is a union or `never`, or a reference to a definition that leads to one. -/
inductive Leads (definitions : Entries Schema) : Schema → Prop where
  | here {s : Schema} (h : s.dissolves = true) : Leads definitions s
  | step {s t : Schema} {id : String} (hs : s.reference? = some id) (ht : (id, t) ∈ definitions)
      (h : Leads definitions t) : Leads definitions s

/-- What leads to a union after a round did so before. -/
lemma Leads.of_inline {b : Bundle} {bodies : Entries Schema} (hround : b.Round bodies) {s : Schema}
    (h : Leads (b.inlineDefinitions bodies).definitions (s.inline bodies)) :
    Leads b.definitions s := by
  generalize hresult : s.inline bodies = result at h
  induction h generalizing s with
  | here hdissolves =>
    subst hresult
    rcases hbody : s.body? bodies with _ | t
    · rw [inline_of_body?_eq_none hbody, dissolves_mapChildren] at hdissolves
      exact .here hdissolves
    · rw [inline_of_body? hbody] at hdissolves
      obtain ⟨id, hid, hget⟩ := body?_eq_some_iff.1 hbody
      exact .step hid (hround.mem _ (Entries.mem_of_get? hget)) (.here hdissolves)
  | @step result t id hs ht _ ih =>
    subst hresult
    obtain ⟨body, hmem, heq⟩ := mem_definitions_inlineDefinitions ht
    have hlater : Leads b.definitions body := ih heq.symm
    rcases hbody : s.body? bodies with _ | u
    · rw [inline_of_body?_eq_none hbody, reference?_mapChildren] at hs
      exact .step hs hmem hlater
    · -- the reference became another one, which leads on
      rw [inline_of_body? hbody] at hs
      obtain ⟨i, hi, hget⟩ := body?_eq_some_iff.1 hbody
      exact .step hi (hround.mem _ (Entries.mem_of_get? hget)) (.step hs hmem hlater)

lemma Inlines.leads {b c : Bundle} {rounds : List (Entries Schema)} (h : Inlines b rounds c)
    {s : Schema} (hs : (s.inlineAll rounds).dissolves = true) : Leads b.definitions s := by
  induction h generalizing s with
  | done => exact .here hs
  | round hround _ ih => exact .of_inline hround (ih hs)

/-! ## The reduction -/

/-- The unions that a reduction leaves are flat if no member of a union leads to a union or to
`never`. -/
theorem flat_reduce_of_not_leads {b : Bundle}
    (h : ∀ items, union items ∈ b.subterms → ∀ m ∈ items, ¬ Leads b.definitions m)
    (inlineSingle : Bool) : (b.reduce inlineSingle).Flat := by
  intro s hs m hm
  cases s with
  | union items =>
    obtain ⟨members, hmembers, rfl⟩ := exists_union_of_reduce hs
    obtain ⟨n, hn, rfl⟩ := List.mem_map.1 hm
    by_contra hdissolves
    exact h members hmembers n hn
      ((inlines_rounds b inlineSingle).leads (Bool.not_eq_false _ ▸ hdissolves))
  | _ => cases hm

/-- From flat unions a reduction makes flat unions exactly if no reference becomes a union or `never`
as a member of a union that stays. -/
theorem flat_reduce_iff {b : Bundle} (h : b.Flat) (inlineSingle : Bool) :
    (b.reduce inlineSingle).Flat ↔
      ∀ items, union items ∈ b.subterms →
        union (items.map (b.settle inlineSingle)) ∈ (b.reduce inlineSingle).subterms →
        ∀ m ∈ items, m.reference?.isSome → (b.settle inlineSingle m).dissolves = false := by
  constructor
  · intro hflat items _ hstays m hm _
    exact hflat _ hstays _ (List.mem_map_of_mem hm)
  · intro hkept s hs m hm
    cases s with
    | union items =>
      obtain ⟨members, hmembers, rfl⟩ := exists_union_of_reduce hs
      obtain ⟨n, hn, rfl⟩ := List.mem_map.1 hm
      rcases hreference : n.reference? with _ | id
      · -- only a reference changes its kind
        rw [settle, dissolves_inlineAll _ hreference]
        exact h _ hmembers n hn
      · exact hkept members hmembers hs n hn (by rw [hreference, Option.isSome_some])
    | _ => cases hm

/-- An object with one property, `null` or an optional text; the latter is a definition. -/
def optionalText : Bundle where
  root := .object [("p", .union [.reference "Maybe" [] "Maybe", .null])] []
  definitions := [("Maybe", .union [.plain .string, .undefined])]

/-- The definition is used once, and its body comes to stand in the union. -/
example : optionalText.reduce true =
    { root := .object [("p", .union [.union [.plain .string, .undefined], .null])] []
      definitions := [] } := by
  rfl

theorem not_flat_reduce_optionalText : optionalText.Flat ∧ ¬ (optionalText.reduce true).Flat := by
  have hflat : optionalText.Flat := by decide
  refine ⟨hflat, fun hreduced => ?_⟩
  have hmember := (flat_reduce_iff hflat true).1 hreduced [.reference "Maybe" [] "Maybe", .null]
    (.tail _ (.head _)) (.tail _ (.head _)) _ (.head _) rfl
  cases hmember

end Bundle

end ValueSchema
