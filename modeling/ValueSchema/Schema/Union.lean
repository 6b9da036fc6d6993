/-
# Unions

`Schema.unionOf` builds a union in normal form.  Members of members come up one level, repeated
members and `never` go, `any` and then `unknown` swallow everything, the two truth values become the
type of both, and a literal goes if the type of its kind is there.

A primitive that stands for an input is not the type itself: once its value is known it may be
anything of that type.  So it swallows nothing, and two of them are the same member only if they
stand for the same inputs.
-/
import ValueSchema.Schema.Equality
import ValueSchema.Schema.Origin

namespace ValueSchema.Schema

/-- Whether two schemas are equal and stand for the same inputs. -/
def sameMember (s t : Schema) : Bool := equal s t && s.placeholders == t.placeholders

/-- Adds a schema at the end of a list if its like is not there. -/
def pushUnique (items : List Schema) (s : Schema) : List Schema :=
  if items.any fun t => sameMember t s then items else items ++ [s]

/-- The first of each group of like schemas, in order. -/
def dedupe (items : List Schema) : List Schema := items.foldl pushUnique []

/-- Whether a schema is one of the two truth values. -/
def isTruthValue : Schema → Bool
  | literal (.boolean _) => true
  | _ => false

/-- Replaces the two truth values, if both are there, by the type of both, in the place of the first
one; the type is not added if it is there already. -/
def joinTruthValues (items : List Schema) : List Schema :=
  if items.any (equal · (boolean true)) && items.any (equal · (boolean false)) then
    let others := items.filter fun s => !s.isTruthValue
    if others.any (equal · (plain .boolean)) then others
    else
      let place := items.findIdx isTruthValue
      others.take place ++ plain .boolean :: others.drop place
  else items

/-- The primitive type that a schema is, unless it stands for an input. -/
def plain? : Schema → Option Primitive
  | primitive kind none => some kind
  | _ => none

/-- Removes the literals whose primitive type is there. -/
def dropCovered (items : List Schema) : List Schema :=
  let kinds := items.filterMap plain?
  items.filter fun s => !((s.literal?.bind Literal.primitive?).any kinds.contains)

/-- The union of members in normal form: none is `never`, one is itself. -/
def ofMembers : List Schema → Schema
  | [] => never
  | [s] => s
  | items => union items

/-- The normal form of the union of several schemas. -/
def unionOf (items : List Schema) : Schema :=
  let flat := (dedupe (items.flatMap alternatives)).filter fun s => !s.isPrimitive .never
  match flat.find? (isPlain .any) <|> flat.find? (isPlain .unknown) with
  | some s => s
  | none => ofMembers (dropCovered (joinTruthValues flat))

end ValueSchema.Schema
