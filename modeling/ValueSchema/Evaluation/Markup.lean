/-
# Elements of markup

An element is an object with the name of its tag under `type` and an object of its attributes under
`props`.  What stands between its tags is the property `children` of the latter.
-/
import ValueSchema.Evaluation.ObjectShape
import ValueSchema.Text.Blank

namespace ValueSchema.Evaluation

/-- A text without the blanks around it. -/
def trimmed (text : String) : String := String.ofList (Text.trimBlanks text.toList)

/-- Adds an attribute to all shapes. -/
def addAttribute (host : Host) (e : Evaluator) (b : Branch) (shapes : List ObjectShape)
    (item : NodeId) : Eval (List ObjectShape) := do
  match host.tree.form? item with
  | some (.jsxAttribute name _) =>
    let value ← e.node b item
    return shapes.map (·.set name value)
  | some (.jsxSpreadAttribute expression) =>
    let source ← e.node b expression
    spreadInto host e b source shapes
  | _ => return shapes

/-- Whether a child counts: blank texts and empty expressions do not. -/
def isVisible (host : Host) (child : NodeId) : Bool :=
  match host.tree.form? child with
  | some (.jsxText text) => trimmed text != ""
  | some (.jsxExpression none) => false
  | _ => true

/-- The children of an element as one schema: a single one is itself. -/
def childrenSchema? : List Schema → Option Schema
  | [] => none
  | [s] => some s
  | items => some (.tupleOf items)

/-- An element, from the name of its tag, its attributes and its children. -/
def element (host : Host) (e : Evaluator) (b : Branch) (tag : String)
    (attributes children : List NodeId) : Eval Schema := do
  let shapes : List ObjectShape ← attributes.foldlM (addAttribute host e b) [{}]
  let items ← (children.filter (isVisible host)).mapM (e.node b)
  let shapes : List ObjectShape := match childrenSchema? items with
    | some s => shapes.map (·.set "children" s)
    | none => shapes
  return Schema.unionOf (shapes.map fun o =>
    .objectOf [("type", .string tag), ("props", o.build)])

end ValueSchema.Evaluation
