/-
# Origins and concreteness

A schema is *concrete* if nothing inside it is unresolved.  Its *inputs* are the origins of what
is unresolved, and its *placeholders* those of them that a later substitution can fill: errors are
final and do not count.

Stamping puts an origin on everything unresolved inside a schema, and substitution replaces what
stands for given origins by schemas.
-/
import ValueSchema.Schema.Traversal

namespace ValueSchema.Schema

/-- Whether nothing inside a schema is unresolved. -/
def isConcrete (s : Schema) : Bool := s.subterms.all fun t => !t.isUnresolved

/-- The origins inside a schema, each once, in the order of the subterms. -/
def inputs (s : Schema) : List NodeId := (s.subterms.filterMap origin?).eraseDups

/-- The origin of a schema that a substitution can replace. -/
def placeholder? (s : Schema) : Option NodeId := if s.isError then none else s.origin?

/-- The origins of the placeholders inside a schema, in the order of the subterms. -/
def placeholders (s : Schema) : List NodeId := s.subterms.filterMap placeholder?

/-- Whether an error occurs inside a schema. -/
def containsError (s : Schema) : Bool := s.subterms.any isError

/-- Applies a function to the origin of an unresolved schema. -/
def mapOrigin (f : Option NodeId → Option NodeId) : Schema → Schema
  | primitive kind o => primitive kind (f o)
  | error reason o => error reason (f o)
  | keys subject o => keys subject (f o)
  | access target key o => access target key (f o)
  | s => s

/-- Gives the origin `o` to everything unresolved inside a schema that has none. -/
def withOrigin (o : NodeId) : Schema → Schema :=
  transform (fun _ => none) (mapOrigin fun old => old.or (some o))

/-- Gives the origin `o` to everything unresolved inside a schema. -/
def overrideOrigin (o : NodeId) : Schema → Schema :=
  transform (fun _ => none) (mapOrigin fun _ => some o)

/-- Replaces everything unresolved whose origin is mapped to a schema. -/
def substitute (value? : NodeId → Option Schema) : Schema → Schema :=
  transform (fun s => s.origin?.bind value?) id

end ValueSchema.Schema
