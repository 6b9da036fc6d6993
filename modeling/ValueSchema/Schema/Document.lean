/-
# Schemas as JSON Schema documents

A schema is written as a document of JSON Schema, draft 2020-12.  Definitions stand under `$defs`
and are referred to by `$ref`; types of the library have their usual JSON form.  What JSON cannot
express becomes a document that admits everything, with a remark.
-/
import ValueSchema.Json.Basic
import ValueSchema.Literal.Integer
import ValueSchema.Schema.Pattern
import ValueSchema.Schema.TypeText

namespace ValueSchema.Schema

/-- The document that admits nothing. -/
def nothing : Json := .obj [("not", .obj [])]

/-- The document that asks for a JSON type. -/
def ofType (name : String) : Json := .obj [("type", .str name)]

/-- The JSON value that a literal is, if it is one. -/
def constant? : Literal → Option Json
  | .string s => some (.str s)
  | .number x => if Number.isFinite x then some (.float x) else none
  | .bigint digits =>
    match Integer.read? digits with
    | some n => if -Int.pow 2 63 ≤ n ∧ n < Int.pow 2 63 then some (.int n) else none
    | none => none
  | .boolean b => some (.bool b)
  | .null => some .null
  | .undefined => none

/-- The document of a primitive type. -/
def primitiveDocument : Primitive → Json
  | .string => ofType "string"
  | .number => ofType "number"
  | .boolean => ofType "boolean"
  | .bigint => ofType "integer"
  | .object => ofType "object"
  | .never => nothing
  | .any | .unknown | .void | .symbol => .obj []

/-- The document of a literal. -/
def literalDocument (value : Literal) : Json :=
  match constant? value, value with
  | some c, _ => .obj [("const", c)]
  | none, .number _ => ofType "number"
  | none, .bigint _ => ofType "integer"
  | none, _ => nothing

/-- The document of a union, from its members and their documents: an enumeration if all of them are
values, else a choice. -/
def unionDocument (members : List (Schema × Json)) : Json :=
  match members.mapM fun m => m.1.literal?.bind constant? with
  | some values => .obj [("enum", .arr values)]
  | none => .obj [("anyOf", .arr (members.map (·.2)))]

/-- The document of a tuple, from the flags and documents of its elements.  Of several elements that
stand for the rest, the last one counts. -/
def tupleDocument (elements : List (ElementFlag × Json)) : Json :=
  let front := (elements.filter fun e => e.1 ≠ .rest).map (·.2)
  let least := (elements.filter fun e => e.1 = .required).length
  match (elements.filter fun e => e.1 = .rest).getLast? with
  | some rest =>
    .obj [("type", .str "array"), ("minItems", .int least), ("prefixItems", .arr front),
      ("items", rest.2)]
  | none =>
    .obj [("type", .str "array"), ("minItems", .int least), ("maxItems", .int front.length),
      ("prefixItems", .arr front), ("items", .bool false)]

/-- A property of an object as a document sees it. -/
structure PropertyDocument where
  /-- The name of the property. -/
  name : String
  /-- Whether it must be there. -/
  required : Bool
  /-- The document of its value. -/
  value : Json

/-- The document of a property whose value is a union: `undefined` among the members makes it
optional, and the other members stay. -/
def unionProperty (name : String) (members : List (Schema × Json)) : PropertyDocument :=
  let defined := members.filter fun m => !m.1.isUndefined
  { name := name
    required := defined.length == members.length
    value := match defined with
      | [] => nothing
      | [(_, d)] => d
      | _ => unionDocument defined }

/-- The keywords for the open keys of an object, from the keys and the documents of their values.
Numbers and templates become patterns, and all other keys share one document. -/
def indexKeywords (entries : List (Schema × Json)) : List (String × Json) :=
  let pattern? : Schema → Option String
    | primitive .number _ => some Pattern.number.anchored
    | template items => some (Pattern.sequence (patterns items)).anchored
    | _ => none
  let matched := Entries.ofList (entries.filterMap fun e => (pattern? e.1).map fun p => (p, e.2))
  let others := (entries.filter fun e => (pattern? e.1).isNone).map (·.2)
  (if matched.isEmpty then [] else [("patternProperties", .obj matched)]) ++
    match others with
    | [] => []
    | [d] => [("additionalProperties", d)]
    | ds => [("additionalProperties", .obj [("anyOf", .arr ds)])]

/-- The document of an object. -/
def objectDocument (properties : List PropertyDocument) (indexKeys : List (Schema × Json)) : Json :=
  let required := (properties.filter (·.required)).map fun p => Json.str p.name
  .obj ([("type", .str "object")] ++
    (if properties.isEmpty then []
      else [("properties", .obj (properties.map fun p => (p.name, p.value)))]) ++
    (if required.isEmpty then [] else [("required", .arr required)]) ++
    indexKeywords indexKeys)

/-- A definition id as a part of a JSON pointer. -/
def pointerEscape (id : String) : String :=
  String.ofList (id.toList.flatMap fun c =>
    if c = '~' then ['~', '0'] else if c = '/' then ['~', '1'] else [c])

/-- The pointer to a definition. -/
def pointer (id : String) : String := "#/$defs/" ++ pointerEscape id

/-- The document of a reference without definition, from its name and the documents of its
arguments. -/
def libraryDocument (name : String) (arguments : List Json) : Json :=
  let argument (i : Nat) : Json := arguments[i]?.getD (.obj [])
  match name with
  | "Date" => .obj [("type", .str "string"), ("format", .str "date-time")]
  | "RegExp" => .obj [("type", .str "string"), ("format", .str "regex")]
  | "Array" | "ReadonlyArray" => .obj [("type", .str "array"), ("items", argument 0)]
  | "Set" | "ReadonlySet" =>
    .obj [("type", .str "array"), ("items", argument 0), ("uniqueItems", .bool true)]
  | "Map" | "ReadonlyMap" =>
    .obj [("type", .str "object"), ("additionalProperties", argument 1)]
  | "Promise" | "PromiseLike" => argument 0
  | _ => .obj [("title", .str name)]

mutual

/-- The document of a schema; `defined` tells which ids have a definition. -/
def describe (defined : String → Bool) (s : Schema) : Json :=
  match s with
  | primitive kind _ => primitiveDocument kind
  | literal value => literalDocument value
  | union items => unionDocument (items.zip (describeAll defined items))
  | intersection items => .obj [("allOf", .arr (describeAll defined items))]
  | tuple items flags => tupleDocument (flags.zip (describeAll defined items))
  | array item =>
    if item.isPrimitive .never then .obj [("type", .str "array"), ("maxItems", .int 0)]
    else .obj [("type", .str "array"), ("items", describe defined item)]
  | object properties indexKeys =>
    objectDocument (describeProperties defined properties) (describeKeys defined indexKeys)
  | function parameters result =>
    .obj [("description", .str (typeText (function parameters result)))]
  | binary op left right =>
    match binaryKind op left right with
    | some kind => primitiveDocument kind
    | none => .obj [("anyOf", .arr [describe defined left, describe defined right])]
  | template items =>
    .obj [("type", .str "string"), ("pattern", .str (Pattern.sequence (patterns items)).anchored)]
  | keys .. => .obj [("type", .arr [.str "string", .str "number"])]
  | access target key o => .obj [("description", .str (typeText (access target key o)))]
  | reference name arguments id =>
    if defined id then .obj [("$ref", .str (pointer id))]
    else libraryDocument name (describeAll defined arguments)
  | error reason _ => .obj [("$comment", .str reason)]
  termination_by structural s

/-- The documents of several schemas. -/
def describeAll (defined : String → Bool) (items : List Schema) : List Json :=
  match items with
  | [] => []
  | s :: rest => describe defined s :: describeAll defined rest
  termination_by structural items

/-- The documents of the properties of an object. -/
def describeProperties (defined : String → Bool) (items : List (String × Schema)) :
    List PropertyDocument :=
  match items with
  | [] => []
  | (name, s) :: rest =>
    (match s with
      | union members => unionProperty name (members.zip (describeAll defined members))
      | literal .undefined => ⟨name, false, nothing⟩
      | other => ⟨name, true, describe defined other⟩) :: describeProperties defined rest
  termination_by structural items

/-- The documents of the values under the open keys of an object. -/
def describeKeys (defined : String → Bool) (items : List (Schema × Schema)) :
    List (Schema × Json) :=
  match items with
  | [] => []
  | (key, value) :: rest => (key, describe defined value) :: describeKeys defined rest
  termination_by structural items

end

end ValueSchema.Schema

namespace ValueSchema

/-- Adds an entry to a JSON object. -/
def Json.withEntry (j : Json) (key : String) (value : Json) : Json :=
  match j with
  | .obj entries => .obj (Entries.insert key value entries)
  | other => other

/-- The JSON Schema document of a schema with its definitions. -/
def Bundle.document (b : Bundle) : Json :=
  let defined (id : String) : Bool := Entries.contains id b.definitions
  let root := b.root.describe defined
  if b.definitions.isEmpty then root
  else root.withEntry "$defs" (.obj (b.definitions.map fun e => (e.1, e.2.describe defined)))

end ValueSchema
