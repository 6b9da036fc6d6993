/-
# Evaluation

The schema of a node is found by evaluating it as far as that is possible, and else from its type.
Evaluating nodes and converting types call each other; each step goes one level deeper, and when no
depth is left the schema is unknown.
-/
import ValueSchema.Evaluation.Conversion
import ValueSchema.Evaluation.Invocation
import ValueSchema.Evaluation.Markup
import ValueSchema.Evaluation.Operation

namespace ValueSchema.Evaluation

/-! ## Names and declarations -/

/-- The type of a node, or of a symbol. -/
def declaredType (host : Host) (n : NodeId) (symbol : Option SymbolId) : Option TypeId :=
  (host.typeOfNode n).or (symbol.bind host.typeOfSymbol)

/-- A parameter: its value, or else its type, which then stands for the parameter. -/
def parameter (host : Host) (e : Evaluator) (b : Branch) (n : NodeId) (symbol : Option SymbolId) :
    Eval Schema := do
  match (symbol.or (host.symbolOfDeclaration n)).bind b.binding? with
  | some value => return value
  | none =>
    match host.typeOfNode n with
    | some type => return (← e.type b type none).overrideOrigin n
    | none => return Schema.unknown.overrideOrigin n

/-- What a declaration declares.  A constant is its initial value; any other variable may have been
assigned another value of its type. -/
def declaration (host : Host) (e : Evaluator) (b : Branch) (n : NodeId) (symbol : Option SymbolId) :
    Eval (Option Schema) := do
  match host.tree.form? n with
  | some (.variableDeclaration _ (some value) .const) => return some (← e.node b value)
  | some (.variableDeclaration ..) =>
    match declaredType host n symbol with
    | some type => return some ((← e.type b type none).withOrigin n)
    | none => return some (Schema.unknown.withOrigin n)
  | some (.parameter ..) => return some (← parameter host e b n symbol)
  | some form => if form.isFunction then function host e b n else return some (← e.node b n)
  | none => Eval.fail (.missingDeclaration n.text)

/-- The value of a name that refers to nothing. -/
def globalValue? : String → Option Schema
  | "undefined" => some .undefined
  | "NaN" => some (.number Number.nan)
  | "Infinity" => some (.number Number.infinity)
  | _ => none

/-- A name: the value of a parameter, or what it refers to. -/
def identifier (host : Host) (e : Evaluator) (b : Branch) (n : NodeId) (text : String) :
    Eval (Option Schema) := do
  match host.resolve n with
  | none => return globalValue? text
  | some resolved =>
    match b.binding? resolved.symbol with
    | some value => return some value
    | none => declaration host e b resolved.declaration (some resolved.symbol)

/-! ## Nodes -/

/-- Evaluates a node by its form.  Where that says nothing, its type has to. -/
def form (host : Host) (e : Evaluator) (b : Branch) (n : NodeId) (form : Form) :
    Eval (Option Schema) := do
  match form with
  | .numericLiteral x => return some (.number x)
  | .stringLiteral s => return some (.string s)
  | .bigIntLiteral text => return some (.literal (.bigint (Integer.normalize text)))
  | .trueKeyword => return some (.boolean true)
  | .falseKeyword => return some (.boolean false)
  | .nullKeyword => return some .null
  | .omittedExpression => return some .undefined
  | .templateExpression head spans => return some (← template e b head spans)
  | .identifier text => identifier host e b n text
  | .objectLiteral members => return some (← objectLiteral host e b members)
  | .arrayLiteral elements => return some (← arrayLiteral host e b elements)
  | .propertyAssignment _ inner | .shorthandProperty inner | .spreadAssignment inner
  | .computedName inner | .parenthesized inner | .typeAssertion inner
  | .expressionStatement inner => return some (← e.node b inner)
  | .binary op left right => return some (← binary e b op left right)
  | .unary op fixity operand => return some (← unary e b op fixity operand)
  | .conditional condition whenTrue whenFalse =>
    return some (← conditional e b condition whenTrue whenFalse)
  | .functionDeclaration _ | .functionExpression _ | .arrowFunction _ | .methodDeclaration _ =>
    function host e b n
  | .parameter .. => return some (← parameter host e b n none)
  | .call callee arguments => call host e b callee arguments
  | .await expression => return some (← await e b expression)
  | .propertyAccess expression name => propertyAccess host e b expression name
  | .elementAccess expression argument => elementAccess host e b expression argument
  | .variableDeclaration .. => declaration host e b n (host.symbolOfDeclaration n)
  | .returnStatement (some inner) | .jsxExpression (some inner) | .jsxAttribute _ (some inner) =>
    return some (← e.node b inner)
  | .returnStatement none | .jsxExpression none => return some .undefined
  | .jsxAttribute _ none => return some (.boolean true)
  | .jsxElement tag attributes children => return some (← element host e b tag attributes children)
  | .jsxFragment children => return some (← element host e b "Fragment" [] children)
  | .jsxText text => return some (.string (trimmed text))
  | .sourceFile .. | .block _ | .variableStatement _ | .ifStatement .. | .spreadElement _
  | .jsxSpreadAttribute _ =>
    if (← Eval.options).permissive then return none
    else Eval.fail (.unsupportedNode form.kindName)

/-- The schema of a node by its type; what it leaves open stands for the node. -/
def fallback (host : Host) (e : Evaluator) (b : Branch) (n : NodeId) : Eval Schema := do
  match host.typeOfNode n with
  | some type => return (← e.type b type (some n)).withOrigin n
  | none => return .primitive .unknown (some n)

/-- The schema of a node: by evaluation if possible, and else by its type. -/
def node (host : Host) (e : Evaluator) (b : Branch) (n : NodeId) : Eval Schema :=
  let b := b.withTrace n
  Eval.within host.tree n do
    let value ← match host.tree.form? n with
      | some f => form host e b n f
      | none => pure none
    match value with
    | some schema => return schema
    | none => fallback host e b n

mutual

/-- The schema of a node, going at most `depth` levels deep. -/
def schemaOfNode (host : Host) (depth : Nat) (b : Branch) (n : NodeId) : Eval Schema :=
  match depth with
  | 0 => Eval.degrade
  | depth + 1 =>
    let evaluator : Evaluator :=
      { node := fun b n => schemaOfNode host depth b n
        type := fun b id node => convertType host depth b id node
        called := match depth with
          | 0 => fun _ _ => Eval.degrade
          | deeper + 1 => fun b n => schemaOfNode host deeper b n }
    node host evaluator b n
  termination_by structural depth

/-- The schema of a type, going at most `depth` levels deep. -/
def convertType (host : Host) (depth : Nat) (b : Branch) (id : TypeId) (node : Option NodeId) :
    Eval Schema :=
  match depth with
  | 0 => Eval.degrade
  | depth + 1 =>
    let evaluator : Evaluator :=
      { node := fun b n => schemaOfNode host depth b n
        type := fun b id node => convertType host depth b id node
        called := match depth with
          | 0 => fun _ _ => Eval.degrade
          | deeper + 1 => fun b n => schemaOfNode host deeper b n }
    convert host evaluator b id node
  termination_by structural depth

end

/-- The evaluator with `depth` levels left. -/
def evaluator (host : Host) (depth : Nat) : Evaluator where
  node := schemaOfNode host depth
  type := convertType host depth
  called := schemaOfNode host (depth - 1)

end ValueSchema.Evaluation
