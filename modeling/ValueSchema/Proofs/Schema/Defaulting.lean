/-
# Initial values in the place of `undefined`

A parameter with an initial value takes this for `undefined`, and any other argument as it is
(`Schema.orInitial`).  If the members of a union are taken one by one, then the union of what comes
from them has the initial value in the place of the member `undefined`.  It has the alternatives of
the union itself exactly if nothing changes in this way: `undefined` is not among the members, or it
is an alternative of the initial value and all other ones add nothing to the union.
-/
import ValueSchema.Proofs.Schema.UnionForm

namespace ValueSchema.Schema

/-- What a parameter with an initial value takes for an argument. -/
def orInitial (initial argument : Schema) : Schema :=
  if argument.isUndefined then initial else argument

variable {v : Vocabulary} {s initial : Schema} {items members : List Schema}

lemma isUndefined_iff : s.isUndefined = true ↔ s = undefined := by
  constructor
  · intro h
    cases s with
    | literal value =>
      cases value with
      | undefined => rfl
      | _ => cases h
    | _ => cases h
  · rintro rfl
    rfl

lemma orInitial_of_ne (h : s ≠ undefined) : orInitial initial s = s :=
  if_neg (mt isUndefined_iff.1 h)

lemma eq_undefined_of_like (h : sameMember s undefined = true) : s = undefined := by
  have hequal := (Bool.and_eq_true_iff.1 h).1
  cases s with
  | literal value =>
    cases value with
    | undefined => rfl
    | _ => cases hequal
  | _ => cases hequal

/-- The members that come from each member of a union: those other than `undefined`, and in its
place the alternatives of the initial value. -/
lemma mem_alternatives_map_orInitial (hmembers : ∀ t ∈ members, t.isUnion = false) :
    s ∈ (members.map (orInitial initial)).flatMap alternatives ↔
      (s ∈ members ∧ s ≠ undefined) ∨ (undefined ∈ members ∧ s ∈ initial.alternatives) := by
  simp only [List.mem_flatMap, List.mem_map, exists_exists_and_eq_and]
  constructor
  · rintro ⟨t, ht, hs⟩
    by_cases h : t = undefined
    · subst h
      exact Or.inr ⟨ht, hs⟩
    · rw [orInitial_of_ne h, alternatives_of_isUnion (hmembers t ht), List.mem_singleton] at hs
      subst hs
      exact Or.inl ⟨ht, h⟩
  · rintro (⟨hs, hne⟩ | ⟨hundefined, hs⟩)
    · refine ⟨s, hs, ?_⟩
      rw [orInitial_of_ne hne, alternatives_of_isUnion (hmembers s hs)]
      exact List.mem_singleton_self s
    · exact ⟨undefined, hundefined, hs⟩

lemma InUnionForm.irredundant (h : InUnionForm (Schema.union members)) : Irredundant members := by
  cases h with
  | single hunion _ => cases hunion
  | union h => exact h

/-- Only an argument brings `undefined` into a union. -/
lemma undefined_mem_of_mem_unionOf (hitems : ∀ s ∈ items, ∀ t ∈ s.alternatives, t.isUnion = false)
    (h : undefined ∈ (unionOf items).alternatives) : undefined ∈ items.flatMap alternatives := by
  rcases unionOf_cases items with ⟨s, hs, hplain, heq⟩ | ⟨-, heq⟩
  · rw [heq, alternatives_of_isUnion (isUnion_of_mem_flatMembers hitems hs),
      List.mem_singleton] at h
    rw [← h] at hplain
    rcases hplain with hplain | hplain <;> cases hplain
  · rw [heq, ← keptMembers] at h
    have hkept : undefined ∈ keptMembers items := by
      rcases hmembers : keptMembers items with _ | ⟨s, rest⟩
      · rw [hmembers] at h
        cases List.mem_singleton.1 h
      · have hs : s ∈ keptMembers items := hmembers ▸ List.mem_cons_self ..
        rw [← hmembers]
        rwa [alternatives_ofMembers_of_mem hs
          (alternatives_of_isUnion (isUnion_of_mem_keptMembers hitems hs))] at h
    rcases mem_of_mem_joinTruthValues ((dropCovered_sublist _).subset hkept) with hflat | hplain
    · exact List.mem_flatMap.2 (mem_of_mem_flatMembers hflat)
    · cases hplain

/-- What holds of the members and of the initial value holds of what comes from the members. -/
lemma forall_mem_map_orInitial {P : Schema → Prop} (hmembers : ∀ t ∈ members, P t)
    (hinitial : P initial) : ∀ t ∈ members.map (orInitial initial), P t := by
  rw [List.forall_mem_map]
  intro t ht
  rw [orInitial]
  split
  · exact hinitial
  · exact hmembers t ht

section

variable (hmembers : Irredundant members) (hwithin : ∀ t ∈ members, t.Within v)
  (hinitial : initial.Within v) (hflat : ∀ t ∈ initial.alternatives, t.isUnion = false)

include hmembers hflat

lemma isUnion_of_mem_map_orInitial :
    ∀ t ∈ members.map (orInitial initial), ∀ u ∈ t.alternatives, u.isUnion = false := by
  refine forall_mem_map_orInitial (fun t ht u hu => ?_) hflat
  have hunion := hmembers.isUnion t ht
  rw [alternatives_of_isUnion hunion, List.mem_singleton] at hu
  exact hu ▸ hunion

include hwithin hinitial

/-- An initial value that has `undefined` among its alternatives takes the place of nothing: what
comes from the members one by one are all members and all alternatives of the initial value. -/
lemma agree_map_orInitial (hundefined : undefined ∈ members)
    (h : undefined ∈ initial.alternatives) :
    Agree v (unionOf (members.map (orInitial initial))).alternatives
      (unionOf [union members, initial]).alternatives := by
  have hmem : ∀ t, t ∈ (members.map (orInitial initial)).flatMap alternatives ↔
      t ∈ [union members, initial].flatMap alternatives := by
    intro t
    have hpair : t ∈ [union members, initial].flatMap alternatives ↔
        t ∈ members ∨ t ∈ initial.alternatives := by simp [alternatives]
    rw [mem_alternatives_map_orInitial hmembers.isUnion, hpair]
    constructor
    · rintro (⟨ht, -⟩ | ⟨-, ht⟩)
      · exact Or.inl ht
      · exact Or.inr ht
    · rintro (ht | ht)
      · by_cases heq : t = undefined
        · exact Or.inr ⟨hundefined, heq ▸ h⟩
        · exact Or.inl ⟨ht, heq⟩
      · exact Or.inr ⟨hundefined, ht⟩
  have hleft := forall_mem_map_orInitial hwithin hinitial
  have hright : ∀ t ∈ [union members, initial], t.Within v :=
    forall_mem_pair.2 ⟨within_union.2 hwithin, hinitial⟩
  exact agree_alternatives ⟨covers_flatMembers hleft hright fun t => (hmem t).1,
      covers_flatMembers hright hleft fun t => (hmem t).2⟩
    (isUnion_of_mem_map_orInitial hmembers hflat) (forall_mem_pair.2 ⟨hmembers.isUnion, hflat⟩)

/-- A union has the alternatives that come from its members one by one, with an initial value in the
place of `undefined`, exactly if `undefined` is not among the members, or if it is an alternative of
the initial value and this adds nothing else. -/
lemma agree_orInitial_iff :
    Agree v members (unionOf (members.map (orInitial initial))).alternatives ↔
      (undefined ∈ members → undefined ∈ initial.alternatives ∧
        Agree v members (unionOf [union members, initial]).alternatives) := by
  constructor
  · intro h hundefined
    obtain ⟨t, ht, htwins⟩ := h.left undefined hundefined
    obtain rfl := eq_undefined_of_like htwins.symm.same
    have hmem := undefined_mem_of_mem_unionOf (isUnion_of_mem_map_orInitial hmembers hflat) ht
    rw [mem_alternatives_map_orInitial hmembers.isUnion] at hmem
    rcases hmem with ⟨-, hne⟩ | ⟨-, hinside⟩
    · exact absurd rfl hne
    · have hall := agree_map_orInitial hmembers hwithin hinitial hflat hundefined hinside
      exact ⟨hinside, h.trans hall⟩
  · intro h
    by_cases hundefined : undefined ∈ members
    · obtain ⟨hinside, hnothing⟩ := h hundefined
      have hall := agree_map_orInitial hmembers hwithin hinitial hflat hundefined hinside
      exact hnothing.trans hall.symm
    · have hmap : members.map (orInitial initial) = members := by
        refine (List.map_congr_left fun t ht => orInitial_of_ne ?_).trans (List.map_id _)
        rintro rfl
        exact hundefined ht
      obtain ⟨⟨hlength, hnormal⟩, -⟩ := irredundant_iff.1 hmembers
      rw [hmap, unionOf_of_unionNormal hnormal fun t ht =>
        alternatives_of_isUnion (hmembers.isUnion t ht), ofMembers_of_two_le_length hlength]
      exact agree_self hwithin

end

end ValueSchema.Schema
