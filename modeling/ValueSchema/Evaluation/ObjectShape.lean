/-
# Objects under construction

An object literal may have several shapes, one for each combination of alternatives that are spread
into it.  A shape collects properties; spreading a schema adds the properties of its values.
-/
import ValueSchema.Evaluation.Reference
import ValueSchema.Schema.Union

namespace ValueSchema

/-- One shape of an object under construction. -/
structure ObjectShape where
  /-- The named properties. -/
  properties : Entries Schema := []
  /-- The values under open keys. -/
  indexKeys : List (Schema × Schema) := []
deriving Inhabited

namespace ObjectShape

/-- Sets a named property. -/
def set (o : ObjectShape) (name : String) (value : Schema) : ObjectShape :=
  { o with properties := Entries.insert name value o.properties }

/-- Adds values under an open key. -/
def setOpen (o : ObjectShape) (key value : Schema) : ObjectShape :=
  { o with indexKeys := o.indexKeys ++ [(key, value)] }

/-- Something has been spread whose properties are not known. -/
def unsupportedSpread (o : ObjectShape) : ObjectShape :=
  o.setOpen (.plain .string) (.failure "Unsupported spread")

/-- Adds an element of a tuple under its position. -/
def setElement (o : ObjectShape) (item : Schema) (flag : ElementFlag) (position : Nat) :
    ObjectShape :=
  match flag with
  | .rest => o.setOpen (.plain .number) item
  | .optional => o.set (toString position) (Schema.unionOf [item, .undefined])
  | .required => o.set (toString position) item

/-- Spreads a schema without alternatives.  Primitive values have no properties of their own. -/
def spread (o : ObjectShape) (source : Schema) : ObjectShape :=
  match source with
  | .object properties indexKeys =>
    let o := properties.foldl (fun o e => o.set e.1 e.2) o
    { o with indexKeys := o.indexKeys ++ indexKeys }
  | .tuple items flags =>
    (items.zip flags).zipIdx.foldl (fun o e => o.setElement e.1.1 e.1.2 e.2) o
  | .array item => o.setOpen (.plain .number) item
  | .primitive .any _ => o.setOpen .any .any
  | .primitive .unknown _ | .primitive .object _ => o.unsupportedSpread
  | .primitive _ _ | .literal _ | .template _ | .binary .. | .keys .. | .function .. => o
  | .access .. | .error .. | .reference .. | .union _ | .intersection _ => o.unsupportedSpread

/-- The finished object. -/
def build (o : ObjectShape) : Schema := .object o.properties o.indexKeys

end ObjectShape

namespace Evaluation

/-- How many shapes an object literal may have. -/
def maxShapes : Nat := 64

mutual

/-- Spreads a schema into several shapes.  Each member of a union makes a copy of all shapes, the
members of an intersection are spread one after the other, and references are left to
`atReference`. -/
def spreadWith (atReference : Schema → List ObjectShape → Eval (List ObjectShape)) (source : Schema)
    (shapes : List ObjectShape) : Eval (List ObjectShape) :=
  match source with
  | .union items =>
    if maxShapes < shapes.length * items.length then
      return shapes.map ObjectShape.unsupportedSpread
    else spreadEach atReference items shapes
  | .intersection items => spreadInTurn atReference items shapes
  | .reference name arguments id => atReference (.reference name arguments id) shapes
  | other => return shapes.map (·.spread other)
  termination_by structural source

/-- Spreads each of several schemas into its own copy of the shapes. -/
def spreadEach (atReference : Schema → List ObjectShape → Eval (List ObjectShape))
    (items : List Schema) (shapes : List ObjectShape) : Eval (List ObjectShape) :=
  match items with
  | [] => return []
  | s :: rest => do
    let first ← spreadWith atReference s shapes
    return first ++ (← spreadEach atReference rest shapes)
  termination_by structural items

/-- Spreads several schemas into the shapes, one after the other. -/
def spreadInTurn (atReference : Schema → List ObjectShape → Eval (List ObjectShape))
    (items : List Schema) (shapes : List ObjectShape) : Eval (List ObjectShape) :=
  match items with
  | [] => return shapes
  | s :: rest => do spreadInTurn atReference rest (← spreadWith atReference s shapes)
  termination_by structural items

end

/-- Spreads a schema into several shapes, following at most `fuel` references on one path. -/
def spreadWithin (resolve : Schema → Eval Schema) (fuel : Nat) (source : Schema)
    (shapes : List ObjectShape) : Eval (List ObjectShape) :=
  match fuel with
  | 0 => throw .diverged
  | fuel + 1 =>
    spreadWith (fun reference shapes => do
      match ← resolve reference with
      | .reference .. => return shapes.map ObjectShape.unsupportedSpread
      | resolved => spreadWithin resolve fuel resolved shapes) source shapes

/-- Spreads a schema into several shapes. -/
def spreadInto (host : Host) (e : Evaluator) (b : Branch) (source : Schema)
    (shapes : List ObjectShape) : Eval (List ObjectShape) := do
  spreadWithin (resolve e b) (← unfoldings host) source shapes

end Evaluation

end ValueSchema
