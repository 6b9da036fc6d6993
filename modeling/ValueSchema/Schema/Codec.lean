/-
# The stored form of schemas

A schema is stored as a JSON object with its kind under `kind` and its parts under fixed names.
Origins are not stored, and a number without a finite value is stored as `null`, which is not read
back.

Reading is a little wider than writing: unknown entries are ignored, a record may be given as the
list of its fields in order, and the name of a constant may be the only key of an object.  Inside
another schema the kind may be given by its number, and so may the type of a literal that is given
as a list.
-/
import ValueSchema.Json.Basic
import ValueSchema.Schema.Basic

namespace ValueSchema.Schema

/-! ## Writing -/

/-- The stored form of a literal. -/
def encodeLiteral : Literal → Json
  | .string s => .obj [("type", .str "string"), ("value", .str s)]
  | .number x =>
    .obj [("type", .str "number"), ("value", if Number.isFinite x then .float x else .null)]
  | .bigint digits => .obj [("type", .str "bigint"), ("value", .str digits)]
  | .boolean b => .obj [("type", .str "boolean"), ("value", .bool b)]
  | .null => .obj [("type", .str "null")]
  | .undefined => .obj [("type", .str "undefined")]

mutual

/-- The stored form of a schema. -/
def encode (s : Schema) : Json :=
  match s with
  | primitive kind _ => .obj [("kind", .str "primitive"), ("name", .str kind.name)]
  | literal value => .obj [("kind", .str "literal"), ("value", encodeLiteral value)]
  | union items => .obj [("kind", .str "union"), ("items", .arr (encodeAll items))]
  | intersection items => .obj [("kind", .str "intersection"), ("items", .arr (encodeAll items))]
  | tuple items flags =>
    .obj [("kind", .str "tuple"), ("items", .arr (encodeAll items)),
      ("elementFlags", .arr (flags.map fun f => .str f.name))]
  | array item => .obj [("kind", .str "array"), ("items", encode item)]
  | object properties indexKeys =>
    .obj [("kind", .str "object"), ("properties", .obj (encodeEntries properties)),
      ("abstractIndexKeys", .arr (encodePairs indexKeys))]
  | function parameters result =>
    .obj [("kind", .str "function"), ("parameters", .arr (encodeNamed parameters)),
      ("returnType", encode result)]
  | binary op left right =>
    .obj [("kind", .str "binary-expression"), ("operator", .str op.text), ("left", encode left),
      ("right", encode right)]
  | template items => .obj [("kind", .str "template-literal"), ("items", .arr (encodeAll items))]
  | keys subject _ => .obj [("kind", .str "index"), ("of", encode subject)]
  | access target key _ =>
    .obj [("kind", .str "index-access"), ("object", encode target), ("index", encode key)]
  | reference name arguments id =>
    .obj [("kind", .str "reference"), ("name", .str name),
      ("typeArgs", .arr (encodeAll arguments)), ("stableId", .str id)]
  | error reason _ => .obj [("kind", .str "error"), ("reason", .str reason)]
  termination_by structural s

/-- The stored forms of several schemas. -/
def encodeAll (items : List Schema) : List Json :=
  match items with
  | [] => []
  | s :: rest => encode s :: encodeAll rest
  termination_by structural items

/-- The stored forms of named schemas, as the entries of an object. -/
def encodeEntries (items : List (String × Schema)) : List (String × Json) :=
  match items with
  | [] => []
  | (name, s) :: rest => (name, encode s) :: encodeEntries rest
  termination_by structural items

/-- The stored forms of named schemas, as lists of two. -/
def encodeNamed (items : List (String × Schema)) : List Json :=
  match items with
  | [] => []
  | (name, s) :: rest => .arr [.str name, encode s] :: encodeNamed rest
  termination_by structural items

/-- The stored forms of pairs of schemas, as lists of two. -/
def encodePairs (items : List (Schema × Schema)) : List Json :=
  match items with
  | [] => []
  | (key, value) :: rest => .arr [encode key, encode value] :: encodePairs rest
  termination_by structural items

end

/-! ## Reading -/

/-- Reads a text. -/
def text? : Json → Option String
  | .str s => some s
  | _ => none

/-- Reads the items of a list. -/
def items? : Json → Option (List Json)
  | .arr items => some items
  | _ => none

/-- Reads the name of a constant. -/
def constantName? : Json → Option String
  | .str s => some s
  | .obj [(s, .null)] => some s
  | .obj [(s, .obj [])] => some s
  | _ => none

/-- Reads the fields of a record: by name from an object, or in order from a list. -/
def fields? (names : List String) : Json → Option (List Json)
  | .obj entries => names.mapM fun name => Entries.get? name entries
  | .arr items => if items.length = names.length then some items else none
  | _ => none

/-- Reads the value of a literal of a given type.  Only `null` and `undefined` may lack it. -/
def literalOf? (type : String) (value : Option Json) : Option Literal :=
  match type, value with
  | "string", some (.str s) => some (.string s)
  | "number", some (.int n) => some (.number (Number.ofInteger n))
  | "number", some (.float x) => some (.number x)
  | "bigint", some (.str s) => some (.bigint s)
  | "boolean", some (.bool b) => some (.boolean b)
  | "null", none => some .null
  | "null", some .null => some .null
  | "undefined", none => some .undefined
  | "undefined", some .null => some .undefined
  | _, _ => none

/-- The types of literals, in order. -/
def literalTypes : List String := ["string", "number", "bigint", "boolean", "null", "undefined"]

/-- The kinds of schemas, in order. -/
def kindNames : List String :=
  ["primitive", "literal", "union", "intersection", "tuple", "array", "object", "function",
    "binary-expression", "template-literal", "index", "index-access", "reference", "error"]

/-- Reads a tag: its name, or its number in the list of all names. -/
def tag? (names : List String) : Json → Option String
  | .str s => some s
  | .int n => if 0 ≤ n then names[n.toNat]? else none
  | _ => none

/-- Reads a literal.  In a list its type is a tag, and in an object a constant. -/
def decodeLiteral? : Json → Option Literal
  | .obj entries => do
    literalOf? (← constantName? (← Entries.get? "type" entries)) (Entries.get? "value" entries)
  | .arr [type, value] => do literalOf? (← tag? literalTypes type) (some value)
  | _ => none

/-- Reads a kind.  Its number is understood inside another schema only. -/
def kind? (inside : Bool) (j : Json) : Option String :=
  if inside then tag? kindNames j else text? j

/-- Reads a stored schema as its kind and the record of its parts. -/
def tagged? (inside : Bool) : Json → Option (String × Json)
  | .obj entries => do
    let kind ← kind? inside (← Entries.get? "kind" entries)
    return (kind, .obj (Entries.erase "kind" entries))
  | .arr (kind :: parts) => do return (← kind? inside kind, .arr parts)
  | _ => none

/-- Reads a list of two things. -/
def pair? : Json → Option (Json × Json)
  | .arr [a, b] => some (a, b)
  | _ => none

/-- Reads a schema from its kind and the record of its parts; `schema?` reads the schemas inside. -/
def decodeParts? (schema? : Json → Option Schema) (kind : String) (parts : Json) :
    Option Schema := do
  let all? (j : Json) : Option (List Schema) := do (← items? j).mapM schema?
  match kind with
  | "primitive" =>
    let [name] ← fields? ["name"] parts | none
    return plain (← Primitive.ofName? (← constantName? name))
  | "literal" =>
    let [value] ← fields? ["value"] parts | none
    return literal (← decodeLiteral? value)
  | "union" =>
    let [items] ← fields? ["items"] parts | none
    return union (← all? items)
  | "intersection" =>
    let [items] ← fields? ["items"] parts | none
    return intersection (← all? items)
  | "tuple" =>
    let [items, flags] ← fields? ["items", "elementFlags"] parts | none
    let flags ← (← items? flags).mapM fun j => (constantName? j).bind ElementFlag.ofName?
    return tuple (← all? items) flags
  | "array" =>
    let [item] ← fields? ["items"] parts | none
    return array (← schema? item)
  | "object" =>
    let [.obj properties, indexKeys] ← fields? ["properties", "abstractIndexKeys"] parts | none
    let properties ← properties.mapM fun e => return (e.1, ← schema? e.2)
    let indexKeys ← (← items? indexKeys).mapM fun j => do
      let (key, value) ← pair? j
      return (← schema? key, ← schema? value)
    return object properties indexKeys
  | "function" =>
    let [parameters, result] ← fields? ["parameters", "returnType"] parts | none
    let parameters ← (← items? parameters).mapM fun j => do
      let (name, value) ← pair? j
      return (← text? name, ← schema? value)
    return function parameters (← schema? result)
  | "binary-expression" =>
    let [op, left, right] ← fields? ["operator", "left", "right"] parts | none
    let op ← BinaryOperator.ofText? (← constantName? op)
    return binary op (← schema? left) (← schema? right)
  | "template-literal" =>
    let [items] ← fields? ["items"] parts | none
    return template (← all? items)
  | "index" =>
    let [subject] ← fields? ["of"] parts | none
    return keys (← schema? subject) none
  | "index-access" =>
    let [target, key] ← fields? ["object", "index"] parts | none
    return access (← schema? target) (← schema? key) none
  | "reference" =>
    let [name, arguments, id] ← fields? ["name", "typeArgs", "stableId"] parts | none
    return reference (← text? name) (← all? arguments) (← text? id)
  | "error" =>
    let [reason] ← fields? ["reason"] parts | none
    return failure (← text? reason)
  | _ => none

/-- Reads a stored schema whose schemas nest at most `depth` deep. -/
def decodeWithin? (depth : Nat) (inside : Bool) (j : Json) : Option Schema :=
  match depth with
  | 0 => none
  | depth + 1 => do
    let (kind, parts) ← tagged? inside j
    decodeParts? (decodeWithin? depth true) kind parts

end ValueSchema.Schema

namespace ValueSchema

/-- Reads a stored schema. -/
def Schema.decode? (j : Json) : Option Schema := Schema.decodeWithin? j.depth false j

/-- The stored form of a schema with its definitions. -/
def Bundle.encode (b : Bundle) : Json :=
  .obj [("root", b.root.encode), ("defs", .obj (Schema.encodeEntries b.definitions))]

/-- Reads a stored schema with its definitions. -/
def Bundle.decode? (j : Json) : Option Bundle := do
  let [root, .obj definitions] ← Schema.fields? ["root", "defs"] j | none
  let root ← Schema.decode? root
  let definitions ← definitions.mapM fun e => return (e.1, ← Schema.decode? e.2)
  return ⟨root, definitions⟩

end ValueSchema
