/-
# Operators, conditions and templates

Expressions that compute from the schemas of their parts.
-/
import ValueSchema.Evaluation.Context
import ValueSchema.Schema.Fold

namespace ValueSchema

namespace Schema

/-- Whether all values of a schema without alternatives count as true, or none does. -/
def truthOf? : Schema → Option Bool
  | literal value => some value.isTruthy
  | object .. | array .. | tuple .. | function .. => some true
  | _ => none

/-- Whether all values of a schema count as true, or none does. -/
def truth? (s : Schema) : Option Bool :=
  match s.alternatives.map truthOf? with
  | [] => none
  | first :: rest => if rest.all (· == first) then first else none

end Schema

namespace Evaluation

/-- What a logical operator selects when its left operand decides: the left operand, or the right
one. -/
inductive Selection where
  | left
  | right
deriving DecidableEq, Repr

/-- What an operator selects if all values of its left operand are objects and so count as true.
Literals and unions are left to the folding of alternatives. -/
def selection? (op : BinaryOperator) (left : Schema) : Option Selection :=
  match left with
  | .literal _ | .union _ => none
  | _ =>
    match op, left.truth? with
    | .logicalAnd, some false | .logicalOr, some true | .nullishCoalescing, some _ => some .left
    | .logicalAnd, some true | .logicalOr, some false | .comma, some _ => some .right
    | _, _ => none

/-- A binary operation.  The right operand is not evaluated if the left one decides. -/
def binary (e : Evaluator) (b : Branch) (op : BinaryOperator) (left right : NodeId) :
    Eval Schema := do
  let l ← e.node b left
  match selection? op l with
  | some .left => return l
  | some .right => e.node b right
  | none =>
    let r ← e.node b right
    return Schema.foldBinary op l r (← Eval.cap)

/-- A unary operation. -/
def unary (e : Evaluator) (b : Branch) (op : UnaryOperator) (fixity : Fixity) (operand : NodeId) :
    Eval Schema :=
  return Schema.foldUnary op fixity (← e.node b operand)

/-- A conditional expression: the branch that the condition decides for, or both. -/
def conditional (e : Evaluator) (b : Branch) (condition whenTrue whenFalse : NodeId) :
    Eval Schema := do
  match (← e.node b condition).truth? with
  | some true => e.node b whenTrue
  | some false => e.node b whenFalse
  | none =>
    let yes ← e.node b whenTrue
    let no ← e.node b whenFalse
    return Schema.unionOf [yes, no]

/-- The parts of a template: its texts and expressions in turn. -/
def templateParts (e : Evaluator) (b : Branch) : List (NodeId × String) → Eval (List Schema)
  | [] => return []
  | (expression, text) :: rest => do
    let value ← e.node b expression
    return value :: .string text :: (← templateParts e b rest)

/-- A template. -/
def template (e : Evaluator) (b : Branch) (head : String) (spans : List (NodeId × String)) :
    Eval Schema := do
  let parts ← templateParts e b spans
  return Schema.templateOf (.string head :: parts) (← Eval.cap)

end Evaluation

end ValueSchema
