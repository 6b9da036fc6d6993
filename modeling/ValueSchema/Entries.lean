/-
# Maps in order of insertion

A map from names to values is a list of entries in which no name occurs twice.  Inserting under a
name that is there replaces its value in place; a new name goes to the end.
-/

namespace ValueSchema

/-- The entries of a map, in the order in which their names were first inserted. -/
abbrev Entries (α : Type) := List (String × α)

namespace Entries

variable {α β : Type}

/-- Puts a value under a name: in the place of the name if it is there, else at the end. -/
def insert (name : String) (value : α) : Entries α → Entries α
  | [] => [(name, value)]
  | (k, v) :: rest => if k = name then (k, value) :: rest else (k, v) :: insert name value rest

/-- The map with given entries; a later value replaces an earlier one under the same name. -/
def ofList (entries : List (String × α)) : Entries α :=
  entries.foldl (fun m e => insert e.1 e.2 m) []

/-- The value under a name. -/
def get? (name : String) : Entries α → Option α
  | [] => none
  | (k, v) :: rest => if k = name then some v else get? name rest

/-- The names of a map, in order. -/
def names (entries : Entries α) : List String := entries.map (·.1)

/-- The values of a map, in order. -/
def values (entries : Entries α) : List α := entries.map (·.2)

/-- Whether a name is in a map. -/
def contains (name : String) (entries : Entries α) : Bool := (get? name entries).isSome

/-- A map without one name. -/
def erase (name : String) (entries : Entries α) : Entries α := entries.filter fun e => e.1 ≠ name

/-- Applies a function to every value. -/
def mapValues (f : α → β) (entries : Entries α) : Entries β := entries.map fun e => (e.1, f e.2)

@[simp] theorem names_mapValues (f : α → β) (entries : Entries α) :
    names (mapValues f entries) = names entries := by
  simp [names, mapValues]

theorem get?_insert_self (name : String) (value : α) (entries : Entries α) :
    get? name (insert name value entries) = some value := by
  induction entries with
  | nil => simp [insert, get?]
  | cons e rest ih =>
    obtain ⟨k, v⟩ := e
    by_cases h : k = name <;> simp [insert, get?, h, ih]

theorem get?_insert_of_ne {name other : String} (h : other ≠ name) (value : α)
    (entries : Entries α) : get? other (insert name value entries) = get? other entries := by
  induction entries with
  | nil => simp [insert, get?, Ne.symm h]
  | cons e rest ih =>
    obtain ⟨k, v⟩ := e
    by_cases hk : k = name
    · subst hk
      simp [insert, get?, Ne.symm h]
    · by_cases ho : k = other
      · subst ho
        simp [insert, get?, hk]
      · simp [insert, get?, hk, ho, ih]

end Entries

end ValueSchema
