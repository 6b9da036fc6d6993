/-
# Order by sixteen-bit units

Texts are compared by their UTF-16 code units, so a character outside the basic plane sorts by its
leading surrogate and stands before U+E000.
-/

namespace ValueSchema.Text

/-- The UTF-16 code units of a character: itself, or a surrogate pair. -/
def units (c : Char) : List Nat :=
  if c.toNat < 0x10000 then [c.toNat]
  else [0xd800 + (c.toNat - 0x10000) / 0x400, 0xdc00 + (c.toNat - 0x10000) % 0x400]

/-- The lexicographic order of two lists of numbers; a proper initial part is smaller. -/
def compareLists : List Nat → List Nat → Ordering
  | [], [] => .eq
  | [], _ :: _ => .lt
  | _ :: _, [] => .gt
  | a :: x, b :: y => (compare a b).then (compareLists x y)

/-- The order of two texts by their UTF-16 code units. -/
def compareUnits (a b : String) : Ordering :=
  compareLists (a.toList.flatMap units) (b.toList.flatMap units)

end ValueSchema.Text
