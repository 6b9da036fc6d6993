/-
# Names of nodes, types and symbols

The parts of a program refer to each other by number.  A node is named by its place in the tree, a
type by its place in the type table, a symbol by its place in the symbol table.
-/

namespace ValueSchema

/-- The number of a node. -/
structure NodeId where
  /-- The place of the node in its tree. -/
  index : Nat
deriving DecidableEq, Repr, Hashable, Inhabited

namespace NodeId

/-- The number that stands for no node.  No tree is as large. -/
def absent : NodeId := ⟨4294967295⟩

/-- Whether a number stands for no node. -/
def isAbsent (n : NodeId) : Bool := n == absent

/-- The text of a node number. -/
def text (n : NodeId) : String := if n.isAbsent then "#none" else "#" ++ toString n.index

/-- Reads the text of a node number. -/
def ofText? (text : String) : Option NodeId :=
  match text.toList with
  | ['#', 'n', 'o', 'n', 'e'] => some absent
  | '#' :: digits =>
    if digits.all Char.isDigit then (String.ofList digits).toNat?.map mk else none
  | _ => none

end NodeId

/-- The number of a type. -/
structure TypeId where
  /-- The place of the type in its table. -/
  index : Nat
deriving DecidableEq, Repr, Hashable, Inhabited

/-- The number of a symbol. -/
structure SymbolId where
  /-- The place of the symbol in its table. -/
  index : Nat
deriving DecidableEq, Repr, Hashable, Inhabited

end ValueSchema
