/-
# Tables

What is found in a table after entries have been put into it, one after the other: nothing but these
entries and what was there, and the last one under each key.
-/
import Mathlib.Tactic.Common
import ValueSchema.Program.Host

namespace ValueSchema.Table

variable {α β : Type} {table : Table α β} {entries : List (α × β)} {key : α} {value : β}

lemma mem_of_mem_foldl_put {e : α × β}
    (h : e ∈ entries.foldl (fun t e => t.put e.1 e.2) table) : e ∈ table ∨ e ∈ entries := by
  induction entries generalizing table with
  | nil => exact Or.inl h
  | cons d rest ih =>
    rcases ih h with hput | hrest
    · rcases List.mem_cons.1 hput with rfl | hin
      · exact Or.inr (List.mem_cons_self ..)
      · exact Or.inl hin
    · exact Or.inr (List.mem_cons_of_mem _ hrest)

variable [DecidableEq α]

lemma mem_of_get? (h : table.get? key = some value) : (key, value) ∈ table := by
  induction table with
  | nil => cases h
  | cons e rest ih =>
    rw [get?] at h
    split at h
    · rename_i hkey
      obtain rfl := Option.some.inj h
      obtain rfl := hkey
      exact List.mem_cons_self ..
    · exact List.mem_cons_of_mem _ (ih h)

lemma get?_foldl_put_of_not_mem (h : key ∉ entries.map Prod.fst) (table : Table α β) :
    (entries.foldl (fun t e => t.put e.1 e.2) table).get? key = table.get? key := by
  induction entries generalizing table with
  | nil => rfl
  | cons e rest ih =>
    obtain ⟨hne, hrest⟩ : key ≠ e.1 ∧ key ∉ rest.map Prod.fst := by simpa using h
    rw [List.foldl_cons, ih hrest, get?_put_of_ne table hne.symm]

/-- Any entry under a key counts if all of them say the same. -/
lemma get?_foldl_put_of_mem (h : (key, value) ∈ entries)
    (hsame : ∀ e ∈ entries, e.1 = key → e.2 = value) (table : Table α β) :
    (entries.foldl (fun t e => t.put e.1 e.2) table).get? key = some value := by
  induction entries generalizing table with
  | nil => cases h
  | cons e rest ih =>
    obtain ⟨he, hrest⟩ := List.forall_mem_cons.1 hsame
    rw [List.foldl_cons]
    by_cases hkey : key ∈ rest.map Prod.fst
    · obtain ⟨e', he', rfl⟩ := List.mem_map.1 hkey
      obtain rfl := hrest e' he' rfl
      exact ih he' hrest _
    · obtain rfl : (key, value) = e := by
        rcases List.mem_cons.1 h with heq | hin
        · exact heq
        · exact absurd (List.mem_map.2 ⟨_, hin, rfl⟩) hkey
      rw [get?_foldl_put_of_not_mem hkey]
      exact get?_put_self ..

/-- The last entry under a key counts. -/
lemma get?_foldl_put {i : Nat} (hi : entries[i]? = some (key, value))
    (hlast : key ∉ (entries.drop (i + 1)).map Prod.fst) (table : Table α β) :
    (entries.foldl (fun t e => t.put e.1 e.2) table).get? key = some value := by
  induction entries generalizing i table with
  | nil => simp at hi
  | cons e rest ih =>
    rw [List.foldl_cons]
    cases i with
    | zero =>
      obtain rfl : e = (key, value) := by simpa using hi
      rw [get?_foldl_put_of_not_mem (by simpa using hlast)]
      exact get?_put_self ..
    | succ i => exact ih (by simpa using hi) (by simpa using hlast) _

end ValueSchema.Table
