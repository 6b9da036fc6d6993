/-
# The life of a definition

A definition waits, is being converted, and is ready.  Seen from outside of a computation it never
goes back, and only a definition that waits goes on: one that is being converted is left to whoever
converts it, and the body of one that is ready never changes.  `Registry.Advances` says this of two
registries of which one comes after the other.

A computation that ends with a result has no conversion left open: `Registry.Settles`.
-/
import ValueSchema.Proofs.Definition.Numbering

namespace ValueSchema

/-- How the state of a definition may change. -/
inductive Definition.State.Leads : Definition.State → Definition.State → Prop
  | refl (state : Definition.State) : Leads state state
  | claimed (body : TypeId) : Leads (.pending body) .resolving
  | converted (body : TypeId) (schema : Schema) : Leads (.pending body) (.ready schema)

lemma Definition.State.Leads.trans {first second third : Definition.State}
    (h : first.Leads second) (h' : second.Leads third) : first.Leads third := by
  cases h with
  | refl => exact h'
  | claimed body =>
    cases h' with
    | refl => exact .claimed body
  | converted body schema =>
    cases h' with
    | refl => exact .converted body schema

lemma Definition.State.Leads.eq_resolving {state : Definition.State}
    (h : Definition.State.resolving.Leads state) : state = .resolving := by
  cases h with
  | refl => rfl

lemma Definition.State.Leads.eq_ready {state : Definition.State} {schema : Schema}
    (h : (Definition.State.ready schema).Leads state) : state = .ready schema := by
  cases h with
  | refl => rfl

namespace Registry

variable {r r' r'' : Registry} {id other : String}

/-- A registry that comes later: every definition stays what it is an instance of, and goes forward
if at all. -/
def Advances (r r' : Registry) : Prop :=
  ∀ id d, r.get? id = some d →
    ∃ d', r'.get? id = some d' ∧ d'.target = d.target ∧ d.state.Leads d'.state

/-- No conversion has been left open. -/
def Settles (r r' : Registry) : Prop :=
  ∀ id d', r'.get? id = some d' → d'.state = .resolving →
    ∃ d, r.get? id = some d ∧ d.state = .resolving

lemma Advances.refl (r : Registry) : r.Advances r := fun _ d hd => ⟨d, hd, rfl, .refl _⟩

lemma Advances.trans (h : r.Advances r') (h' : r'.Advances r'') : r.Advances r'' := by
  intro id d hd
  obtain ⟨d', hd', htarget, hstate⟩ := h id d hd
  obtain ⟨d'', hd'', htarget', hstate'⟩ := h' id d' hd'
  exact ⟨d'', hd'', htarget'.trans htarget, hstate.trans hstate'⟩

lemma Settles.refl (r : Registry) : r.Settles r := fun _ d hd hstate => ⟨d, hd, hstate⟩

lemma Settles.trans (h : r.Settles r') (h' : r'.Settles r'') : r.Settles r'' := by
  intro id d'' hd'' hstate
  obtain ⟨d', hd', hstate'⟩ := h' id d'' hd'' hstate
  exact h id d' hd' hstate'

lemma Advances.keepsTargets (h : r.Advances r') : r.KeepsTargets r' := by
  intro id d hd
  obtain ⟨d', hd', htarget, -⟩ := h id d hd
  exact ⟨d', hd', htarget⟩

/-- A definition that is being converted stays so, for all but the one that converts it. -/
lemma Advances.resolving (h : r.Advances r') {d : Definition} (hd : r.get? id = some d)
    (hstate : d.state = .resolving) : ∃ d', r'.get? id = some d' ∧ d'.state = .resolving := by
  obtain ⟨d', hd', -, hleads⟩ := h id d hd
  rw [hstate] at hleads
  exact ⟨d', hd', hleads.eq_resolving⟩

/-! ## Operations -/

section

variable {name display : String} {target body : TypeId}

lemma advances_register (h : r.register name display target body = (id, r')) : r.Advances r' := by
  rcases register_cases h with ⟨rfl, -⟩ | ⟨-, rfl, -⟩
  · exact .refl r'
  · intro other d hd
    exact ⟨d, by rw [get?_concat, hd]; rfl, rfl, .refl _⟩

lemma settles_register (h : r.register name display target body = (id, r')) : r.Settles r' := by
  rcases register_cases h with ⟨rfl, -⟩ | ⟨-, rfl, -⟩
  · exact .refl r'
  · intro other d' hd' hstate
    rw [get?_concat] at hd'
    rcases hold : r.get? other with _ | d
    · rw [hold] at hd'
      split at hd'
      · obtain rfl := Option.some.inj hd'
        cases hstate
      · cases hd'
    · rw [hold] at hd'
      obtain rfl := Option.some.inj hd'
      exact ⟨d, rfl, hstate⟩

end

/-- Only a definition that waits can be claimed; it is then being converted. -/
lemma begin?_cases {body : TypeId} (h : r.begin? id = some (body, r')) :
    (∃ d, r.get? id = some d ∧ d.state = .pending body) ∧ r' = r.setState id .resolving := by
  refine ⟨?_, begin?_eq_some h⟩
  rw [begin?] at h
  split at h
  · rename_i body' hstate
    obtain ⟨d, hd, hpending⟩ := Option.map_eq_some_iff.1 hstate
    obtain ⟨rfl, -⟩ := Prod.mk.inj (Option.some.inj h)
    exact ⟨d, hd, hpending⟩
  · cases h

lemma get?_setState_self {d : Definition} (hd : r.get? id = some d) (state : Definition.State) :
    (r.setState id state).get? id = some { d with state } := by
  rw [get?_setState, hd]
  simp

lemma get?_setState_of_ne (r : Registry) (state : Definition.State) (h : other ≠ id) :
    (r.setState id state).get? other = r.get? other := by
  simp [get?_setState, h]

lemma keepsTargets_setState (r : Registry) (id : String) (state : Definition.State) :
    r.KeepsTargets (r.setState id state) := by
  intro other d hd
  by_cases hother : other = id
  · subst hother
    exact ⟨_, get?_setState_self hd state, rfl⟩
  · exact ⟨d, by rw [get?_setState_of_ne r _ hother, hd], rfl⟩

/-- A claim goes forward, -/
lemma advances_claim {body : TypeId} (h : r.begin? id = some (body, r')) : r.Advances r' := by
  obtain ⟨⟨d, hd, hstate⟩, rfl⟩ := begin?_cases h
  intro other e he
  by_cases hother : other = id
  · subst hother
    obtain rfl := Option.some.inj (hd.symm.trans he)
    exact ⟨_, get?_setState_self hd _, rfl, by rw [hstate]; exact .claimed body⟩
  · exact ⟨e, by rw [get?_setState_of_ne r _ hother, he], rfl, .refl _⟩

/-- and so do a claim, what comes after it, and the completion of what was claimed. -/
lemma advances_complete {body : TypeId} (hclaim : r.begin? id = some (body, r'))
    (h : r'.Advances r'') (schema : Schema) : r.Advances (r''.complete id schema) := by
  obtain ⟨⟨d, hd, hstate⟩, rfl⟩ := begin?_cases hclaim
  intro other e he
  by_cases hother : other = id
  · subst hother
    obtain rfl := Option.some.inj (hd.symm.trans he)
    obtain ⟨d', hd', htarget, -⟩ := h other _ (get?_setState_self hd _)
    exact ⟨_, get?_setState_self hd' _, htarget, by rw [hstate]; exact .converted body schema⟩
  · obtain ⟨e', he', htarget, hleads⟩ := h other e (by rw [get?_setState_of_ne r _ hother, he])
    exact ⟨e', by rw [complete, get?_setState_of_ne r'' _ hother, he'], htarget, hleads⟩

/-- What was claimed is ready once it is completed. -/
lemma ready?_complete_self {body : TypeId} (hclaim : r.begin? id = some (body, r'))
    (h : r'.Advances r'') (schema : Schema) :
    (r''.complete id schema).ready? id = some schema := by
  obtain ⟨⟨d, hd, -⟩, rfl⟩ := begin?_cases hclaim
  obtain ⟨d', hd', -, -⟩ := h id _ (get?_setState_self hd _)
  exact ready?_eq_some_iff.2 ⟨_, get?_setState_self hd' _, rfl⟩

/-- What was claimed is no longer open once it is completed. -/
lemma settles_complete {body : TypeId} (hclaim : r.begin? id = some (body, r'))
    (h : r'.Settles r'') (schema : Schema) : r.Settles (r''.complete id schema) := by
  obtain ⟨-, rfl⟩ := begin?_cases hclaim
  intro other e he hstate
  by_cases hother : other = id
  · subst hother
    rw [complete, get?_setState] at he
    obtain ⟨e', -, rfl⟩ := Option.map_eq_some_iff.1 he
    simp at hstate
  · rw [complete, get?_setState_of_ne r'' _ hother] at he
    obtain ⟨d, hd, hresolving⟩ := h other e he hstate
    rw [get?_setState_of_ne r _ hother] at hd
    exact ⟨d, hd, hresolving⟩

end Registry

end ValueSchema
