/-
# Folding operators over schemas

An operator on unions is applied to every combination of alternatives.  On literals it is computed;
anything else stays symbolic, so that it can be computed once the inputs are known.
-/
import ValueSchema.Literal.Fold
import ValueSchema.Schema.Intersection
import ValueSchema.Schema.Product

namespace ValueSchema.Schema

/-! ## Binary operators -/

/-- A binary operator on two alternatives.  A logical operator needs only its left operand. -/
def foldPair (op : BinaryOperator) (left right : Schema) : Schema :=
  match left.literal? with
  | none => binary op left right
  | some l =>
    match op with
    | .logicalAnd => if l.isTruthy then right else left
    | .logicalOr => if l.isTruthy then left else right
    | .nullishCoalescing => if l.isNullish then right else left
    | _ =>
      match right.literal?.bind fun r => Literal.foldBinary op l r with
      | some v => literal v
      | none => binary op left right

/-- A binary operator on two schemas.  Beyond `cap` combinations it stays as it is. -/
def foldBinary (op : BinaryOperator) (left right : Schema) (cap : Nat) : Schema :=
  if op = .comma then right
  else
    match cartesian? [left.alternatives, right.alternatives] cap with
    | none => binary op left right
    | some pairs =>
      unionOf (pairs.map fun
        | [a, b] => foldPair op a b
        | _ => unknown)

/-! ## Unary operators -/

/-- A unary operator on a literal. -/
def foldUnaryLiteral (op : UnaryOperator) (fixity : Fixity) (value : Literal) : Schema :=
  match Literal.foldUnary op fixity value with
  | some v => literal v
  | none => failure ("Cannot apply `" ++ op.text ++ "` to " ++ value.typeName)

/-- A unary operator on an object, a list or a function: they count as true, and in arithmetic as
not a number. -/
def foldUnaryObject (op : UnaryOperator) (fixity : Fixity) (typeName : String) : Schema :=
  match op with
  | .exclamation => boolean false
  | .typeOf => string typeName
  | .void => undefined
  | _ => foldUnaryLiteral op fixity (.number Number.nan)

/-- What `typeof` answers for all values of a primitive type. -/
def typeNameOf? : Primitive → Option String
  | .string => some "string"
  | .number => some "number"
  | .boolean => some "boolean"
  | .bigint => some "bigint"
  | .symbol => some "symbol"
  | .object => some "object"
  | .void => some "undefined"
  | .any | .unknown | .never => none

/-- A unary operator on something unknown, as a binary operation of the same value where there is
one, and else as the type of its result. -/
def reexpressUnary (op : UnaryOperator) (fixity : Fixity) (operand : Schema) : Schema :=
  match op, fixity with
  | .minus, _ => binary .subtract (number 0) operand
  | .tilde, _ => binary .bitwiseXor operand (number (-1))
  | .plusPlus, .before => binary .subtract operand (number (-1))
  | .minusMinus, .before => binary .subtract operand (number 1)
  | .plus, _ | .plusPlus, .after | .minusMinus, .after => binary .multiply operand (number 1)
  | .void, _ => undefined
  | .exclamation, _ => primitive .boolean operand.origin?
  | .typeOf, _ =>
    match operand with
    | primitive kind _ =>
      match typeNameOf? kind with
      | some name => string name
      | none => primitive .string operand.origin?
    | _ => primitive .string operand.origin?

mutual

/-- A unary operator on a schema. -/
def foldUnary (op : UnaryOperator) (fixity : Fixity) (operand : Schema) : Schema :=
  match operand with
  | union items => unionOf (foldUnaryAll op fixity items)
  | intersection items => intersectionOf (foldUnaryAll op fixity items)
  | literal value => foldUnaryLiteral op fixity value
  | object .. | array .. | tuple .. => foldUnaryObject op fixity "object"
  | function .. => foldUnaryObject op fixity "function"
  | other => reexpressUnary op fixity other
  termination_by structural operand

/-- A unary operator on each of several schemas. -/
def foldUnaryAll (op : UnaryOperator) (fixity : Fixity) (items : List Schema) : List Schema :=
  match items with
  | [] => []
  | s :: rest => foldUnary op fixity s :: foldUnaryAll op fixity rest
  termination_by structural items

end

/-! ## Templates -/

/-- The parts of a template, with those of templates inside it in their place. -/
def parts : Schema → List Schema
  | template items => items
  | s => [s]

/-- Joins literals that stand next to each other into one text. -/
def joinTexts : List Schema → List Schema
  | [] => []
  | s :: rest =>
    match s.literal? with
    | none => s :: joinTexts rest
    | some value =>
      match joinTexts rest with
      | literal (.string text) :: more => string (value.toText ++ text) :: more
      | more => string value.toText :: more

/-- Whether a schema is the empty text. -/
def isEmptyText : Schema → Bool
  | literal (.string text) => text == ""
  | _ => false

/-- The text of a combination of literals. -/
def concatenation (combination : List Schema) : String :=
  String.join (combination.filterMap fun s => s.literal?.map Literal.toText)

/-- The texts put together from those of the parts.  If every part is a literal or a union of
literals and there are at most `cap` combinations, it is the union of their texts. -/
def templateOf (items : List Schema) (cap : Nat) : Schema :=
  let flat := items.flatMap parts
  let lists := flat.map alternatives
  let symbolic :=
    match (joinTexts flat).filter fun s => !s.isEmptyText with
    | [] => string ""
    | items => template items
  if lists.all fun l => l.all isLiteral then
    match cartesian? lists cap with
    | some combinations => unionOf (combinations.map fun c => string (concatenation c))
    | none => symbolic
  else symbolic

/-! ## Folding again -/

/-- Computes an operation whose operands have been computed, and brings unions and intersections
into normal form. -/
def refoldStep (cap : Nat) : Schema → Schema
  | binary op left right => foldBinary op left right cap
  | template items => templateOf items cap
  | union items => unionOf items
  | intersection items => intersectionOf items
  | s => s

/-- Computes the symbolic operations inside a schema from the leaves up, for instance after inputs
have been filled in. -/
def refold (cap : Nat) : Schema → Schema := transform (fun _ => none) (refoldStep cap)

end ValueSchema.Schema
