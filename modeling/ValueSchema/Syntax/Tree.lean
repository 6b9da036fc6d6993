/-
# Syntax trees

The nodes of a program, by number.  Nodes are added from the leaves up: adding a node makes it the
parent of its children and widens its span to cover theirs.  From then on one can walk from a node
to its parents.
-/
import ValueSchema.Number.Decimal
import ValueSchema.Source
import ValueSchema.Syntax.Form

namespace ValueSchema

/-- A node of a syntax tree. -/
structure Node where
  /-- What the node is. -/
  form : Form
  /-- Where it stands in the source. -/
  span : Span
  /-- The last node added that has it as a child. -/
  parent : Option NodeId
deriving Inhabited

/-- The nodes of a program. -/
structure Tree where
  /-- The nodes, in the order in which they were added. -/
  nodes : Array Node := #[]
deriving Inhabited

namespace Tree

/-- The number of nodes. -/
def size (t : Tree) : Nat := t.nodes.size

/-- The node with a given number. -/
def get? (t : Tree) (n : NodeId) : Option Node := t.nodes[n.index]?

/-- The form of a node. -/
def form? (t : Tree) (n : NodeId) : Option Form := (t.get? n).map (·.form)

/-- The span of a node; a node that is not there stands at the start. -/
def span (t : Tree) (n : NodeId) : Span := ((t.get? n).map (·.span)).getD {}

/-- The parent of a node. -/
def parent? (t : Tree) (n : NodeId) : Option NodeId := (t.get? n).bind (·.parent)

/-- Makes a node the parent of another one. -/
def link (parent : NodeId) (nodes : Array Node) (child : NodeId) : Array Node :=
  nodes.modify child.index fun node => { node with parent := some parent }

/-- Adds a node. -/
def add (t : Tree) (form : Form) (span : Span) : NodeId × Tree :=
  let id : NodeId := ⟨t.size⟩
  let span := form.children.foldl (fun s child => s.cover (t.span child)) span
  let nodes := t.nodes.push ⟨form, span, none⟩
  (id, ⟨form.children.foldl (link id) nodes⟩)

/-- The name of the kind of a node. -/
def kindName (t : Tree) (n : NodeId) : String := ((t.form? n).map Form.kindName).getD "<missing>"

/-- The children of a node, in the order of the source. -/
def children (t : Tree) (n : NodeId) : List NodeId := ((t.form? n).map Form.children).getD []

/-! ## Names -/

/-- The text of an identifier. -/
def identifier? (t : Tree) (n : NodeId) : Option String :=
  match t.form? n with
  | some (.identifier text) => some text
  | _ => none

/-- What a function is made of. -/
def function? (t : Tree) (n : NodeId) : Option FunctionForm := (t.form? n).bind Form.function?

/-- Whether a node is a function. -/
def isFunction (t : Tree) (n : NodeId) : Bool := (t.function? n).isSome

/-- A number as a property name.  A whole number below `10 ^ 21` is written in digits, cut off at 64
bits; any other is written without an exponent. -/
def propertyNumber (x : Float) : String :=
  match Number.view x with
  | .finite negative m q =>
    let whole := Number.floorScaled m q
    let isWhole := 0 ≤ q || m % Nat.pow 2 (-q).toNat == 0
    if isWhole && whole < Nat.pow 10 21 then
      let n : Int := if negative then max (-whole) (-Int.pow 2 63) else min whole (Int.pow 2 63 - 1)
      toString n
    else Number.toPlain x
  | _ => Number.toPlain x

/-- The text of a property name that is known without evaluation. -/
def propertyName? (t : Tree) (n : NodeId) : Option String :=
  match t.form? n with
  | some (.identifier text) => some text
  | some (.stringLiteral text) => some text
  | some (.numericLiteral x) => some (propertyNumber x)
  | _ => none

/-- The name that a variable, a parameter or a function declares. -/
def declarationName? (t : Tree) (n : NodeId) : Option String :=
  match t.form? n with
  | some (.variableDeclaration name _ _) | some (.parameter name _ _) => t.identifier? name
  | some (.functionDeclaration f) | some (.functionExpression f) | some (.methodDeclaration f) =>
    f.name.bind t.identifier?
  | _ => none

/-! ## Ancestors -/

/-- The parent of a node, its parent, and so on; at most `fuel` of them. -/
def ancestorsWithin (t : Tree) (fuel : Nat) (n : NodeId) : List NodeId :=
  match fuel with
  | 0 => []
  | fuel + 1 =>
    match t.parent? n with
    | some p => p :: t.ancestorsWithin fuel p
    | none => []

/-- The nodes that a node stands in, the innermost first. -/
def ancestors (t : Tree) (n : NodeId) : List NodeId := t.ancestorsWithin t.size n

/-- The innermost node with a property that a node stands in. -/
def findAncestor? (t : Tree) (p : Form → Bool) (n : NodeId) : Option NodeId :=
  (t.ancestors n).find? fun a => (t.form? a).any p

/-- Whether a form is a source file. -/
def isSourceFile : Form → Bool
  | .sourceFile .. => true
  | _ => false

/-- The source file that a node stands in, or is. -/
def sourceFile? (t : Tree) (n : NodeId) : Option NodeId :=
  if (t.form? n).any isSourceFile then some n else t.findAncestor? isSourceFile n

/-- The name of the file that a node stands in. -/
def fileName? (t : Tree) (n : NodeId) : Option String :=
  match (t.sourceFile? n).bind t.form? with
  | some (.sourceFile name _) => some name
  | _ => none

/-- The location of a node. -/
def location (t : Tree) (n : NodeId) : Location := ⟨(t.fileName? n).getD "<unknown>", t.span n⟩

/-- The innermost function that a node stands in. -/
def enclosingFunction? (t : Tree) (n : NodeId) : Option NodeId := t.findAncestor? Form.isFunction n

/-- Whether a node stands in another one. -/
def isAncestor (t : Tree) (ancestor n : NodeId) : Bool := (t.ancestors n).contains ancestor

/-- Strips `fuel` parentheses and type assertions from an expression. -/
def skipWrappersWithin (t : Tree) (fuel : Nat) (n : NodeId) : NodeId :=
  match fuel with
  | 0 => n
  | fuel + 1 =>
    match t.form? n with
    | some (.parenthesized e) | some (.typeAssertion e) => t.skipWrappersWithin fuel e
    | _ => n

/-- An expression without the parentheses and type assertions around it. -/
def skipWrappers (t : Tree) (n : NodeId) : NodeId := t.skipWrappersWithin t.size n

end Tree

end ValueSchema
