/-
# Operations of the registry

Registering a definition adds its id and changes nothing else; claiming and completing one change
its state and nothing else.
-/
import ValueSchema.Definition.Registry
import ValueSchema.Proofs.Entries

namespace ValueSchema

namespace Entries

lemma get?_append {α : Type} (name : String) (first rest : Entries α) :
    get? name (first ++ rest) = (get? name first).or (get? name rest) := by
  induction first with
  | nil => rfl
  | cons e first ih =>
    obtain ⟨k, v⟩ := e
    by_cases h : k = name <;> simp [get?, h, ih]

end Entries

namespace Registry

variable {r : Registry} {id other : String}

lemma names_register_subset (r : Registry) (name display : String) (target body : TypeId) :
    Entries.names r.entries ⊆
      Entries.names (r.register name display target body).2.entries := by
  rw [register]
  split
  · exact fun _ h => h
  · intro i hi
    simp only [Entries.names, List.map_append, List.mem_append] at hi ⊢
    exact Or.inl hi

/-- The id that a registration gives is registered. -/
lemma mem_names_register (r : Registry) (name display : String) (target body : TypeId) :
    (r.register name display target body).1 ∈
      Entries.names (r.register name display target body).2.entries := by
  rw [register]
  split
  · exact Entries.contains_eq_true_iff.1 ‹_›
  · simp [Entries.names]

/-- A definition that has just been registered is not ready. -/
lemma ready?_register (r : Registry) (name display : String) (target body : TypeId)
    (id : String) :
    (r.register name display target body).2.ready? id = r.ready? id := by
  rw [register]
  split
  · rfl
  · rename_i hnew
    simp only [ready?, get?, Entries.get?_append, Entries.get?]
    rcases hold : Entries.get? id r.entries with _ | d
    · split_ifs <;> rfl
    · rfl

lemma names_setState (r : Registry) (id : String) (state : Definition.State) :
    Entries.names (r.setState id state).entries = Entries.names r.entries := by
  simp only [setState, Entries.names, List.map_map]
  refine List.map_congr_left fun e _ => ?_
  simp only [Function.comp_apply]
  split_ifs <;> rfl

lemma get?_setState (r : Registry) (id : String) (state : Definition.State) (other : String) :
    (r.setState id state).get? other =
      (r.get? other).map fun d => if other = id then { d with state } else d := by
  obtain ⟨entries⟩ := r
  simp only [setState, get?]
  induction entries with
  | nil => rfl
  | cons e rest ih =>
    obtain ⟨k, d⟩ := e
    by_cases hk : k = id <;> by_cases ho : k = other
    · subst hk ho
      simp [Entries.get?]
    · subst hk
      simpa [Entries.get?, ho] using ih
    · subst ho
      simp [Entries.get?, hk]
    · simpa [Entries.get?, hk, ho] using ih

lemma ready?_eq_some_iff {schema : Schema} :
    r.ready? id = some schema ↔ ∃ d, r.get? id = some d ∧ d.state = .ready schema := by
  rw [ready?]
  rcases r.get? id with _ | ⟨name, target, state⟩
  · simp
  · cases state <;> simp

lemma ready?_setState_of_ne (r : Registry) (state : Definition.State) (h : other ≠ id) :
    (r.setState id state).ready? other = r.ready? other := by
  simp only [ready?, get?_setState, h, if_false, Option.map_id']

/-- A definition that has been claimed is being converted. -/
lemma begin?_eq_some {body : TypeId} {r' : Registry} (h : r.begin? id = some (body, r')) :
    r' = r.setState id .resolving := by
  rw [begin?] at h
  split at h
  · exact (Prod.mk.inj (Option.some.inj h)).2.symm
  · simp at h

lemma ready?_of_setState_resolving {schema : Schema}
    (h : (r.setState id .resolving).ready? other = some schema) :
    r.ready? other = some schema := by
  by_cases heq : other = id
  · subst heq
    rcases hget : r.get? other with _ | d <;> simp [ready?, get?_setState, hget] at h
  · rwa [ready?_setState_of_ne r _ heq] at h

lemma ready?_of_complete {schema schema' : Schema}
    (h : (r.complete id schema).ready? other = some schema') :
    other = id ∧ schema' = schema ∨ r.ready? other = some schema' := by
  by_cases heq : other = id
  · subst heq
    rcases hget : r.get? other with _ | d
    · simp [complete, ready?, get?_setState, hget] at h
    · exact Or.inl ⟨rfl, by simpa [complete, ready?, get?_setState, hget] using h.symm⟩
  · rw [complete, ready?_setState_of_ne r _ heq] at h
    exact Or.inr h

end Registry

end ValueSchema
