/-
# Object and array literals

An object literal is built member by member; an array literal is an array of the union of its
elements.
-/
import ValueSchema.Evaluation.ObjectShape
import ValueSchema.Evaluation.PropertyRead

namespace ValueSchema.Evaluation

/-! ## Object literals -/

/-- The keys that a property name stands for. -/
inductive PropertyKeys where
  /-- These names. -/
  | named (names : List String)
  /-- All keys of a schema. -/
  | computed (key : Schema)

/-- Sets a property under its keys. -/
def PropertyKeys.setIn (keys : PropertyKeys) (value : Schema) (o : ObjectShape) : ObjectShape :=
  match keys with
  | .named names => names.foldl (fun o name => o.set name value) o
  | .computed key => o.setOpen key value

/-- The keys of a computed name: one for each alternative if all of them are literals. -/
def keysOf (key : Schema) : PropertyKeys :=
  match key.alternatives.mapM fun s => s.literal?.map Literal.toText with
  | some names => .named names
  | none => .computed key

/-- The keys of a property name. -/
def propertyKeys (host : Host) (e : Evaluator) (b : Branch) (name : NodeId) : Eval PropertyKeys :=
  match host.tree.propertyName? name with
  | some text => return .named [text]
  | none =>
    match host.tree.form? name with
    | some (.computedName expression) => return keysOf (← e.node b expression)
    | _ => return keysOf (← e.node b name)

/-- Adds one member of an object literal to all shapes.  The value of a property is evaluated before
its name. -/
def addMember (host : Host) (e : Evaluator) (b : Branch) (shapes : List ObjectShape)
    (member : NodeId) : Eval (List ObjectShape) := do
  match host.tree.form? member with
  | some (.propertyAssignment name value) =>
    let value ← e.node b value
    let keys ← propertyKeys host e b name
    return shapes.map (keys.setIn value)
  | some (.shorthandProperty name) =>
    let value ← e.node b name
    return shapes.map (·.set ((host.tree.identifier? name).getD "") value)
  | some (.methodDeclaration f) =>
    let value ← e.node b member
    match f.name with
    | some name =>
      let keys ← propertyKeys host e b name
      return shapes.map (keys.setIn value)
    | none => return shapes
  | some (.spreadAssignment expression) =>
    let source ← e.node b expression
    spreadInto host e b source shapes
  | _ => return shapes

/-- An object literal. -/
def objectLiteral (host : Host) (e : Evaluator) (b : Branch) (members : List NodeId) :
    Eval Schema := do
  let shapes ← members.foldlM (addMember host e b) [{}]
  return Schema.unionOf (shapes.map ObjectShape.build)

/-! ## Array literals -/

/-- An element of a tuple that is spread into an array. -/
def spreadElement (item : Schema) (flag : ElementFlag) : Schema :=
  match flag, item with
  | .rest, .array inner => inner
  | .optional, item => Schema.unionOf [item, .undefined]
  | _, item => item

/-- The names of the types of the library that are lists of their argument. -/
def listNames : List String := ["Array", "ReadonlyArray", "Set", "ReadonlySet"]

/-- The elements of a schema without alternatives that is spread at a node, other than a
definition. -/
def elementsOf (spread : NodeId) (source : Schema) : List Schema :=
  match source with
  | .tuple items flags => items.zipWith spreadElement flags
  | .array item => [item]
  | .literal (.string text) => text.toList.map fun c => .string c.toString
  | .primitive .string _ => [.plain .string]
  | .primitive .any _ => [.any]
  | _ => [.primitive .unknown (some spread)]

/-- The elements of a schema without alternatives that is spread at a node. -/
def spreadElements (e : Evaluator) (b : Branch) (spread : NodeId) (source : Schema) :
    Eval (List Schema) := do
  match source with
  | .reference name arguments id =>
    if listNames.contains name && arguments.length == 1 then return arguments
    else return elementsOf spread (← resolve e b (.reference name arguments id))
  | other => return elementsOf spread other

/-- The elements that an element of an array literal contributes. -/
def arrayElements (host : Host) (e : Evaluator) (b : Branch) (element : NodeId) :
    Eval (List Schema) := do
  match host.tree.form? element with
  | some (.spreadElement expression) =>
    let source ← e.node b expression
    return (← source.alternatives.mapM (spreadElements e b element)).flatten
  | _ => return [← e.node b element]

/-- An array literal. -/
def arrayLiteral (host : Host) (e : Evaluator) (b : Branch) (elements : List NodeId) :
    Eval Schema := do
  match (← elements.mapM (arrayElements host e b)).flatten with
  | [] => return .array .never
  | items => return .array (Schema.unionOf items)

/-! ## Access -/

/-- The property with a name of an expression. -/
def propertyAccess (host : Host) (e : Evaluator) (b : Branch) (expression name : NodeId) :
    Eval (Option Schema) := do
  match host.tree.identifier? name with
  | none => return none
  | some key => readProperty host e b (← e.node b expression) key

/-- The properties with the names that an index stands for. -/
def elementsAt (host : Host) (e : Evaluator) (b : Branch) (target : Schema) :
    List Schema → Eval (Option (List Schema))
  | [] => return some []
  | index :: rest => do
    match index.literal? with
    | none => return none
    | some key =>
      match ← readProperty host e b target key.toText with
      | none => return none
      | some value => return (← elementsAt host e b target rest).map (value :: ·)

/-- The element of an expression under an index. -/
def elementAccess (host : Host) (e : Evaluator) (b : Branch) (expression argument : NodeId) :
    Eval (Option Schema) := do
  let target ← e.node b expression
  let index ← e.node b argument
  return (← elementsAt host e b target index.alternatives).map Schema.unionOf

end ValueSchema.Evaluation
