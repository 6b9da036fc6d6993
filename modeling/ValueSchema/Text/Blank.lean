/-
# Blank characters

The blanks that are stripped from both ends of a text before it is read as a number: the code
points with the property *White_Space*.  The byte order mark and the zero-width space are not
among them.
-/
import ValueSchema.Text.Range

namespace ValueSchema.Text

/-- The ranges of code points with the property *White_Space*. -/
def blankRanges : List (Nat × Nat) :=
  [(0x09, 0x0d), (0x20, 0x20), (0x85, 0x85), (0xa0, 0xa0), (0x1680, 0x1680), (0x2000, 0x200a),
   (0x2028, 0x2029), (0x202f, 0x202f), (0x205f, 0x205f), (0x3000, 0x3000)]

/-- Whether a character is blank. -/
def isBlank (c : Char) : Bool := inRanges blankRanges c

/-- The characters of a text without the blanks at its two ends. -/
def trimBlanks (cs : List Char) : List Char :=
  ((cs.dropWhile isBlank).reverse.dropWhile isBlank).reverse

end ValueSchema.Text
