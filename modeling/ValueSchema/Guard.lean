/-
# Guarded paths

A guard keeps the path of a search through a graph.  It refuses to enter what is on the path
already, which would close a cycle, and to go deeper than a limit.

The keys of the path are kept a second time, as a set to look them up.  Both agree as long as every
key that is left is the innermost one.
-/

namespace ValueSchema

/-- The answer of a guard. -/
inductive Guard.Answer where
  /-- The key is now the innermost one of the path. -/
  | entered
  /-- The key is on the path already. -/
  | cycle
  /-- The path is as long as it may be. -/
  | depthExceeded
deriving DecidableEq, Repr, Inhabited

/-- The path of a search. -/
structure Guard (α : Type) where
  /-- How long the path may be. -/
  limit : Nat
  /-- The keys of the path, the outermost first. -/
  path : List α := []
  /-- The keys to look up, in no particular order. -/
  active : List α := []
  /-- Whether the limit has ever been reached. -/
  exceeded : Bool := false
deriving Repr

namespace Guard

variable {α : Type} [DecidableEq α]

/-- The length of the path. -/
def depth (g : Guard α) : Nat := g.path.length

/-- Whether a key is among those to look up. -/
def isActive (g : Guard α) (key : α) : Bool := g.active.contains key

/-- Enters a key. -/
def enter (g : Guard α) (key : α) : Answer × Guard α :=
  if g.isActive key then (.cycle, g)
  else if g.limit ≤ g.depth then (.depthExceeded, { g with exceeded := true })
  else (.entered, { g with path := g.path ++ [key], active := key :: g.active })

/-- Leaves a key, which has to be the innermost one of the path. -/
def leave (g : Guard α) (key : α) : Guard α :=
  { g with path := g.path.dropLast, active := g.active.filter (· ≠ key) }

/-- The keys from a given one to the innermost one; none if it is not on the path. -/
def cycleFrom (g : Guard α) (key : α) : List α := g.path.dropWhile (· ≠ key)

@[simp] theorem path_leave (g : Guard α) (key : α) : (g.leave key).path = g.path.dropLast := rfl

@[simp] theorem exceeded_leave (g : Guard α) (key : α) : (g.leave key).exceeded = g.exceeded := rfl

@[simp] theorem mem_active_leave (g : Guard α) (key other : α) :
    other ∈ (g.leave key).active ↔ other ∈ g.active ∧ other ≠ key := by
  simp [leave]

/-- A guard answers that a key is active, or that the path is full, or it adds the key. -/
theorem enter_cases (g : Guard α) (key : α) :
    (g.isActive key = true ∧ g.enter key = (.cycle, g)) ∨
    (g.isActive key = false ∧ g.limit ≤ g.depth ∧
      g.enter key = (.depthExceeded, { g with exceeded := true })) ∨
    (g.isActive key = false ∧ g.depth < g.limit ∧
      g.enter key = (.entered, { g with path := g.path ++ [key], active := key :: g.active })) := by
  rw [enter]
  split
  · exact .inl ⟨‹_›, rfl⟩
  · rename_i hactive
    rw [Bool.not_eq_true] at hactive
    split
    · exact .inr (.inl ⟨hactive, ‹_›, rfl⟩)
    · exact .inr (.inr ⟨hactive, Nat.lt_of_not_le ‹_›, rfl⟩)

/-- A key that is entered was not active before, and becomes the innermost one of the path. -/
theorem enter_of_entered (g : Guard α) (key : α) (h : (g.enter key).1 = .entered) :
    g.isActive key = false ∧ g.depth < g.limit ∧
      (g.enter key).2 = { g with path := g.path ++ [key], active := key :: g.active } := by
  obtain ⟨-, henter⟩ | ⟨-, -, henter⟩ | ⟨hactive, hdepth, henter⟩ := g.enter_cases key
  · rw [henter] at h
    cases h
  · rw [henter] at h
    cases h
  · exact ⟨hactive, hdepth, by rw [henter]⟩

end Guard

end ValueSchema
