/-
# Schemas

A schema describes the values that an expression or a type can take: a literal value, a primitive
type, or a composition of schemas.  Besides these there are *symbolic* schemas, operations that
cannot be computed yet (`binary`, `template`), and *unresolved* ones, which stand for something
unknown: primitives, errors, the keys of a schema and the access to an element.  An unresolved
schema may carry its *origin*, the node of the program it came from; once the value of that node
is known it can be put in place.
-/
import ValueSchema.Entries
import ValueSchema.Literal.Basic
import ValueSchema.Operator
import ValueSchema.Syntax.Id

namespace ValueSchema

/-- The role of an element of a tuple. -/
inductive ElementFlag where
  | required
  | optional
  /-- Any number of elements. -/
  | rest
deriving DecidableEq, Repr, Inhabited

namespace ElementFlag

/-- All flags. -/
def all : List ElementFlag := [required, optional, rest]

/-- The name of a flag. -/
def name : ElementFlag → String
  | required => "required"
  | optional => "optional"
  | rest => "rest"

/-- The flag with a given name. -/
def ofName? (s : String) : Option ElementFlag := all.find? fun f => f.name == s

end ElementFlag

/-- A schema. -/
inductive Schema where
  /-- Any value of a primitive type. -/
  | primitive (kind : Primitive) (origin : Option NodeId)
  /-- One value. -/
  | literal (value : Literal)
  /-- A value of one of the members. -/
  | union (items : List Schema)
  /-- A value of all of the members. -/
  | intersection (items : List Schema)
  /-- A list with one schema and one flag for each element. -/
  | tuple (items : List Schema) (flags : List ElementFlag)
  /-- A list of any length. -/
  | array (item : Schema)
  /-- An object with named properties, and with values under all keys that a key schema admits. -/
  | object (properties : List (String × Schema)) (indexKeys : List (Schema × Schema))
  /-- A function, by its named parameters and its result. -/
  | function (parameters : List (String × Schema)) (result : Schema)
  /-- A binary operation on operands that are not known yet. -/
  | binary (operator : BinaryOperator) (left right : Schema)
  /-- The texts put together from those of the items. -/
  | template (items : List Schema)
  /-- The keys of the values of a schema. -/
  | keys (subject : Schema) (origin : Option NodeId)
  /-- The element of an object under a key. -/
  | access (target key : Schema) (origin : Option NodeId)
  /-- A named definition, applied to arguments. -/
  | reference (name : String) (arguments : List Schema) (id : String)
  /-- Something that has no schema, with the reason why. -/
  | error (reason : String) (origin : Option NodeId)
deriving Inhabited

namespace Schema

/-! ## Constructors -/

/-- Any value of a primitive type, from nowhere in particular. -/
def plain (kind : Primitive) : Schema := primitive kind none

/-- Anything at all, about which nothing is known. -/
def unknown : Schema := plain .unknown

/-- Anything at all. -/
def any : Schema := plain .any

/-- No value. -/
def never : Schema := plain .never

/-- One text. -/
def string (value : String) : Schema := literal (.string value)

/-- One number. -/
def number (value : Float) : Schema := literal (.number value)

/-- One truth value. -/
def boolean (value : Bool) : Schema := literal (.boolean value)

/-- The value `null`. -/
def null : Schema := literal .null

/-- The value `undefined`. -/
def undefined : Schema := literal .undefined

/-- An error from nowhere in particular. -/
def failure (reason : String) : Schema := error reason none

/-- A tuple of required elements. -/
def tupleOf (items : List Schema) : Schema := tuple items (items.map fun _ => .required)

/-- An object with named properties only. -/
def objectOf (properties : List (String × Schema)) : Schema := object properties []

/-- A reference to a type of the library, which has no definition here. -/
def wellKnown (name : String) (arguments : List Schema) : Schema := reference name arguments name

/-! ## Queries -/

/-- The name of the kind of a schema. -/
def kindName : Schema → String
  | primitive .. => "primitive"
  | literal .. => "literal"
  | union .. => "union"
  | intersection .. => "intersection"
  | tuple .. => "tuple"
  | array .. => "array"
  | object .. => "object"
  | function .. => "function"
  | binary .. => "binary-expression"
  | template .. => "template-literal"
  | keys .. => "index"
  | access .. => "index-access"
  | reference .. => "reference"
  | error .. => "error"

/-- The value of a literal schema. -/
def literal? : Schema → Option Literal
  | literal value => some value
  | _ => none

/-- Whether a schema is a literal. -/
def isLiteral (s : Schema) : Bool := s.literal?.isSome

/-- Whether a schema is a given primitive type, from anywhere. -/
def isPrimitive (kind : Primitive) : Schema → Bool
  | primitive k _ => k == kind
  | _ => false

/-- Whether a schema is a given primitive type that does not stand for any input. -/
def isPlain (kind : Primitive) : Schema → Bool
  | primitive k none => k == kind
  | _ => false

/-- Whether a schema is an error. -/
def isError : Schema → Bool
  | error .. => true
  | _ => false

/-- Whether a schema is an object. -/
def isObject : Schema → Bool
  | object .. => true
  | _ => false

/-- Whether a schema is the value `undefined`. -/
def isUndefined : Schema → Bool
  | literal .undefined => true
  | _ => false

/-- The origin of an unresolved schema. -/
def origin? : Schema → Option NodeId
  | primitive _ o | keys _ o | access _ _ o | error _ o => o
  | _ => none

/-- Whether the kind of a schema leaves its value open: a primitive, an error, keys, an access, or
an object with values under open keys. -/
def isUnresolved : Schema → Bool
  | primitive .. | error .. | keys .. | access .. => true
  | object _ indexKeys => !indexKeys.isEmpty
  | _ => false

/-- The members of a union; any other schema is its own only alternative. -/
def alternatives : Schema → List Schema
  | union items => items
  | s => [s]

mutual

/-- Whether `undefined` is one of the values that a schema admits. -/
def acceptsUndefined (s : Schema) : Bool :=
  match s with
  | literal .undefined => true
  | primitive .any _ | primitive .unknown _ | primitive .void _ => true
  | union items => anyAcceptsUndefined items
  | _ => false
  termination_by structural s

/-- Whether one of several schemas admits `undefined`. -/
def anyAcceptsUndefined (items : List Schema) : Bool :=
  match items with
  | [] => false
  | s :: rest => s.acceptsUndefined || anyAcceptsUndefined rest
  termination_by structural items

end

/-! ## Children -/

/-- The schemas directly inside a schema, in order. -/
def children : Schema → List Schema
  | primitive .. | literal .. | error .. => []
  | union items | intersection items | tuple items _ | template items => items
  | array item => [item]
  | object properties indexKeys =>
    properties.map (·.2) ++ indexKeys.flatMap fun e => [e.1, e.2]
  | function parameters result => parameters.map (·.2) ++ [result]
  | binary _ left right => [left, right]
  | keys subject _ => [subject]
  | access target key _ => [target, key]
  | reference _ arguments _ => arguments

/-- Applies a function to every schema directly inside a schema. -/
def mapChildren (f : Schema → Schema) : Schema → Schema
  | primitive kind o => primitive kind o
  | literal value => literal value
  | error reason o => error reason o
  | union items => union (items.map f)
  | intersection items => intersection (items.map f)
  | tuple items flags => tuple (items.map f) flags
  | template items => template (items.map f)
  | array item => array (f item)
  | object properties indexKeys =>
    object (properties.map fun e => (e.1, f e.2)) (indexKeys.map fun e => (f e.1, f e.2))
  | function parameters result => function (parameters.map fun e => (e.1, f e.2)) (f result)
  | binary op left right => binary op (f left) (f right)
  | keys subject o => keys (f subject) o
  | access target key o => access (f target) (f key) o
  | reference name arguments id => reference name (arguments.map f) id

end Schema

/-- A schema with the definitions that its references name. -/
structure Bundle where
  /-- The schema itself. -/
  root : Schema
  /-- The bodies of the definitions, by their ids. -/
  definitions : Entries Schema := []
deriving Inhabited

end ValueSchema
