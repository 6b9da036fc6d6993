/-
# Hosts

What an evaluation knows about a program: its syntax tree, its types, the type of each node, and
which declaration each name refers to.
-/
import ValueSchema.Syntax.Tree
import ValueSchema.Typing.Table

namespace ValueSchema

/-- What a name refers to. -/
structure Resolved where
  /-- The symbol. -/
  symbol : SymbolId
  /-- The node that declares the symbol. -/
  declaration : NodeId
deriving DecidableEq, Repr, Inhabited

/-- A program, as an evaluation sees it. -/
structure Host where
  /-- The nodes of the program. -/
  tree : Tree
  /-- The types of the program. -/
  types : TypeTable
  /-- The type of a node. -/
  typeOfNode : NodeId → Option TypeId
  /-- The type of a symbol. -/
  typeOfSymbol : SymbolId → Option TypeId := fun _ => none
  /-- The signature that a call uses. -/
  signatureOfCall : NodeId → Option Signature := fun _ => none
  /-- What a name refers to. -/
  resolve : NodeId → Option Resolved
  /-- The symbol that a node declares. -/
  symbolOfDeclaration : NodeId → Option SymbolId
  /-- The node that declares a symbol. -/
  declarationOfSymbol : SymbolId → Option NodeId
  /-- The names that refer to a symbol, in the order of the source. -/
  references : SymbolId → List NodeId
  /-- The symbol with a path of names in a file. -/
  symbolAt : String → String → Option SymbolId

/-! ## Tables -/

/-- A finite map, the latest entry first. -/
abbrev Table (α β : Type) := List (α × β)

namespace Table

variable {α β : Type} [DecidableEq α]

/-- The latest value under a key. -/
def get? (t : Table α β) (key : α) : Option β :=
  match t with
  | [] => none
  | (k, v) :: rest => if k = key then some v else get? rest key

/-- Puts a value under a key. -/
def put (t : Table α β) (key : α) (value : β) : Table α β := (key, value) :: t

theorem get?_put_self (t : Table α β) (key : α) (value : β) :
    (t.put key value).get? key = some value := by
  simp [put, get?]

theorem get?_put_of_ne (t : Table α β) {key other : α} (h : key ≠ other) (value : β) :
    (t.put key value).get? other = t.get? other := by
  simp [put, get?, h]

end Table

/-- A host given by tables. -/
structure Tables where
  /-- The nodes. -/
  tree : Tree := {}
  /-- The types. -/
  types : TypeTable := {}
  /-- The type of each node. -/
  nodeTypes : Table NodeId TypeId := []
  /-- What each name refers to. -/
  resolutions : Table NodeId Resolved := []
  /-- The symbol that each node declares. -/
  declaredSymbols : Table NodeId SymbolId := []
  /-- The node that declares each symbol. -/
  declarations : Table SymbolId NodeId := []
  /-- The names that refer to symbols, in order. -/
  uses : List (SymbolId × NodeId) := []
  /-- The symbol of each file and path of names. -/
  paths : Table (String × String) SymbolId := []
deriving Inhabited

/-- The host that tables describe. -/
def Tables.host (t : Tables) : Host where
  tree := t.tree
  types := t.types
  typeOfNode := t.nodeTypes.get?
  resolve := t.resolutions.get?
  symbolOfDeclaration := t.declaredSymbols.get?
  declarationOfSymbol := t.declarations.get?
  references symbol := (t.uses.filter fun u => u.1 = symbol).map (·.2)
  symbolAt file path := t.paths.get? (file, path)

end ValueSchema
