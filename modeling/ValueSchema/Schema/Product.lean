/-
# Combinations of alternatives

An operation on several unions is an operation on every choice of one alternative from each.  The
number of choices is bounded; beyond the bound the operation stays symbolic.
-/

namespace ValueSchema

variable {α : Type}

/-- All choices of one item from each list, in lexicographic order of positions. -/
def choices : List (List α) → List (List α)
  | [] => [[]]
  | items :: rest => items.flatMap fun a => (choices rest).map (a :: ·)

/-- The number of choices after each list stays within the bound. -/
def withinCap (cap : Nat) : Nat → List (List α) → Bool
  | _, [] => true
  | total, items :: rest =>
    let total := total * items.length
    total ≤ cap && withinCap cap total rest

/-- All choices of one item from each list, unless there are more than `cap`. -/
def cartesian? (lists : List (List α)) (cap : Nat) : Option (List (List α)) :=
  if withinCap cap 1 lists then some (choices lists) else none

end ValueSchema
