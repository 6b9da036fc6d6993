/-
# The lossless form of schemas

Unlike the stored form, it keeps origins, and every number: a number is written by its bits in
hexadecimal digits, all that are not a number alike.  Properties and definitions are lists of
pairs in order.
-/
import ValueSchema.Json.Decode
import ValueSchema.Literal.Integer
import ValueSchema.Schema.Basic
import ValueSchema.Text.Quoted

namespace ValueSchema

/-! ## Numbers and literals -/

namespace Number

/-- The bits of a number. -/
def toLossless (x : Float) : Json :=
  let bits := if x.isNaN then 0x7ff8000000000000 else x.toBits.toNat
  .str ("bits:" ++ String.ofList (Text.hexPadded 16 bits))

/-- Reads the bits of a number, or an integer. -/
def ofLossless : Json → Decode Float
  | .int n => return ofInteger n
  | .str text => do
    let digits ← Decode.need "bits" ("bits:".toList.isPrefixOf? text.toList)
    return Float.ofBits (UInt64.ofNat (← Decode.need "bits" (Integer.readDigits? 16 digits)))
  | _ => throw "expected a number"

end Number

namespace Json

mutual

/-- A document in which each double is marked and written by its bits. -/
def toLossless (j : Json) : Json :=
  match j with
  | float x => obj [("$float", Number.toLossless x)]
  | arr items => arr (losslessItems items)
  | obj entries => obj (losslessEntries entries)
  | other => other
  termination_by structural j

/-- Marks the doubles of several values. -/
def losslessItems (items : List Json) : List Json :=
  match items with
  | [] => []
  | j :: rest => j.toLossless :: losslessItems rest
  termination_by structural items

/-- Marks the doubles of the entries of an object. -/
def losslessEntries (entries : List (String × Json)) : List (String × Json) :=
  match entries with
  | [] => []
  | (key, j) :: rest => (key, j.toLossless) :: losslessEntries rest
  termination_by structural entries

end

end Json

namespace Literal

/-- A literal with its type. -/
def toLossless : Literal → Json
  | string s => .obj [("type", .str "string"), ("value", .str s)]
  | number x => .obj [("type", .str "number"), ("value", Number.toLossless x)]
  | bigint s => .obj [("type", .str "bigint"), ("value", .str s)]
  | boolean b => .obj [("type", .str "boolean"), ("value", .bool b)]
  | null => .obj [("type", .str "null")]
  | undefined => .obj [("type", .str "undefined")]

/-- Reads a literal. -/
def ofLossless (j : Json) : Decode Literal := do
  match ← j.field "type" Json.asString with
  | "string" => return string (← j.field "value" Json.asString)
  | "number" => return number (← j.field "value" Number.ofLossless)
  | "bigint" => return bigint (← j.field "value" Json.asString)
  | "boolean" => return boolean (← j.field "value" Json.asBool)
  | "null" => return null
  | "undefined" => return undefined
  | _ => throw "unknown literal"

end Literal

/-! ## Schemas -/

namespace Schema

/-- An object with the kind of a schema, its parts, and its origin if it has one. -/
def losslessObject (kind : String) (parts : List (String × Json)) (origin : Option NodeId) : Json :=
  .obj (("kind", .str kind) :: parts ++ (origin.map fun o => ("origin", .ofNat o.index)).toList)

mutual

/-- The lossless form of a schema. -/
def toLossless (s : Schema) : Json :=
  match s with
  | primitive kind o => losslessObject "primitive" [("name", .str kind.name)] o
  | literal value => losslessObject "literal" [("value", value.toLossless)] none
  | union items => losslessObject "union" [("items", .arr (losslessAll items))] none
  | intersection items => losslessObject "intersection" [("items", .arr (losslessAll items))] none
  | template items => losslessObject "template-literal" [("items", .arr (losslessAll items))] none
  | tuple items flags =>
    losslessObject "tuple"
      [("items", .arr (losslessAll items)),
        ("elementFlags", .arr (flags.map fun f => .str f.name))] none
  | array item => losslessObject "array" [("items", toLossless item)] none
  | object properties indexKeys =>
    losslessObject "object"
      [("properties", .arr (losslessNamed properties)),
        ("abstractIndexKeys", .arr (losslessPairs indexKeys))] none
  | function parameters result =>
    losslessObject "function"
      [("parameters", .arr (losslessNamed parameters)), ("returnType", toLossless result)] none
  | binary op left right =>
    losslessObject "binary-expression"
      [("operator", .str op.text), ("left", toLossless left), ("right", toLossless right)] none
  | keys subject o => losslessObject "index" [("of", toLossless subject)] o
  | access target key o =>
    losslessObject "index-access" [("object", toLossless target), ("index", toLossless key)] o
  | reference name arguments id =>
    losslessObject "reference"
      [("name", .str name), ("typeArgs", .arr (losslessAll arguments)), ("stableId", .str id)] none
  | error reason o => losslessObject "error" [("reason", .str reason)] o
  termination_by structural s

/-- The lossless forms of several schemas. -/
def losslessAll (items : List Schema) : List Json :=
  match items with
  | [] => []
  | s :: rest => toLossless s :: losslessAll rest
  termination_by structural items

/-- The lossless forms of named schemas. -/
def losslessNamed (items : List (String × Schema)) : List Json :=
  match items with
  | [] => []
  | (name, s) :: rest => .arr [.str name, toLossless s] :: losslessNamed rest
  termination_by structural items

/-- The lossless forms of pairs of schemas. -/
def losslessPairs (items : List (Schema × Schema)) : List Json :=
  match items with
  | [] => []
  | (key, value) :: rest => .arr [toLossless key, toLossless value] :: losslessPairs rest
  termination_by structural items

end

/-- Reads a schema from its parts; `schema` reads the schemas inside. -/
def ofLosslessWith (schema : Json → Decode Schema) (j : Json) : Decode Schema := do
  let items := Json.listOf schema
  let named := Json.listOf (Json.pairOf Json.asString schema)
  let origin := j.field? "origin" fun o => NodeId.mk <$> o.asNat
  match ← j.field "kind" Json.asString with
  | "primitive" =>
    let kind ← j.field "name" (Json.asNamed "a primitive type" Primitive.ofName?)
    return primitive kind (← origin)
  | "literal" => return literal (← j.field "value" Literal.ofLossless)
  | "union" => return union (← j.field "items" items)
  | "intersection" => return intersection (← j.field "items" items)
  | "template-literal" => return template (← j.field "items" items)
  | "tuple" =>
    let flag := Json.asNamed "an element flag" ElementFlag.ofName?
    return tuple (← j.field "items" items) (← j.field "elementFlags" (Json.listOf flag))
  | "array" => return array (← j.field "items" schema)
  | "object" =>
    let properties ← j.field "properties" named
    let indexKeys ← j.field "abstractIndexKeys" (Json.listOf (Json.pairOf schema schema))
    return object (Entries.ofList properties) indexKeys
  | "function" => return function (← j.field "parameters" named) (← j.field "returnType" schema)
  | "binary-expression" =>
    let op ← j.field "operator" (Json.asNamed "a binary operator" BinaryOperator.ofText?)
    return binary op (← j.field "left" schema) (← j.field "right" schema)
  | "index" => return keys (← j.field "of" schema) (← origin)
  | "index-access" =>
    return access (← j.field "object" schema) (← j.field "index" schema) (← origin)
  | "reference" =>
    return reference (← j.field "name" Json.asString) (← j.field "typeArgs" items)
      (← j.field "stableId" Json.asString)
  | "error" => return error (← j.field "reason" Json.asString) (← origin)
  | kind => throw ("unknown kind " ++ kind)

/-- Reads a schema that nests at most `depth` deep. -/
def ofLosslessWithin (depth : Nat) (j : Json) : Decode Schema :=
  match depth with
  | 0 => throw "a schema nests too deep"
  | depth + 1 => ofLosslessWith (ofLosslessWithin depth) j

/-- Reads a schema. -/
def ofLossless (j : Json) : Decode Schema := ofLosslessWithin j.depth j

end Schema

namespace Bundle

/-- The lossless form of a schema with its definitions. -/
def toLossless (b : Bundle) : Json :=
  .obj [("root", b.root.toLossless), ("defs", .arr (Schema.losslessNamed b.definitions))]

/-- Reads a schema with its definitions, which may be missing. -/
def ofLossless (j : Json) : Decode Bundle := do
  let definitions := Json.listOf (Json.pairOf Json.asString Schema.ofLossless)
  return ⟨← j.field "root" Schema.ofLossless,
    Entries.ofList (← j.fieldOr "defs" definitions [])⟩

end Bundle

end ValueSchema
