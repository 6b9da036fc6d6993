/-
# Schemas of types

A type is converted by its structure.  A type inside itself is an error, instances of generic types
become references to definitions, and types of the library stay references.
-/
import ValueSchema.Evaluation.Collection
import ValueSchema.Schema.Fold

namespace ValueSchema.Evaluation

/-- The schema of an intrinsic type. -/
def intrinsicSchema : Intrinsic → Schema
  | .undefined => .undefined
  | .null => .null
  | .any => .any
  | .unknown => .unknown
  | .never => .never
  | .void => .plain .void
  | .boolean => .plain .boolean
  | .number => .plain .number
  | .string => .plain .string
  | .bigint => .plain .bigint
  | .symbol => .plain .symbol
  | .object => .plain .object

/-- A schema that may be missing. -/
def optional (isOptional : Bool) (s : Schema) : Schema :=
  if isOptional then Schema.unionOf [s, .undefined] else s

/-- A part of a template type. -/
def convertPart (e : Evaluator) (b : Branch) : TemplatePart → Eval Schema
  | .text s => return .string s
  | .type id => e.type b id none

/-- An element of a tuple type.  The type of the rest is an array, of which the element is kept. -/
def convertElement (e : Evaluator) (b : Branch) (x : TupleElement) :
    Eval (Schema × ElementFlag) := do
  let schema ← e.type b x.type none
  if x.isRest then
    match schema with
    | .array item => return (item, .rest)
    | other => return (other, .rest)
  else return (schema, if x.isOptional then .optional else .required)

/-- A parameter of a signature. -/
def convertParameter (e : Evaluator) (b : Branch) (p : Parameter) : Eval (String × Schema) :=
  return (p.name, optional p.isOptional (← e.type b p.type none))

/-- A signature. -/
def convertSignature (e : Evaluator) (b : Branch) (s : Signature) : Eval Schema := do
  let parameters ← s.parameters.mapM (convertParameter e b)
  return .function parameters (← e.type b s.result none)

/-- A property of an object type.  If the type comes from an object literal, the node that declares
the property is evaluated; else its declared type counts, unless that is a type parameter. -/
def convertProperty (host : Host) (e : Evaluator) (b : Branch) (fromLiteral : Bool) (p : Property) :
    Eval (String × Schema) := do
  let schema ← match fromLiteral, p.declaration with
    | true, some declaration => e.node b declaration
    | _, _ =>
      let type := if host.types.isParameter p.declaredType then p.type else p.declaredType
      e.type b type none
  return (p.name, optional p.isOptional schema)

/-- An index signature. -/
def convertIndex (e : Evaluator) (b : Branch) (i : IndexSignature) : Eval (Schema × Schema) := do
  let key ← e.type b i.key none
  return (key, ← e.type b i.value none)

/-- An object type: a reference if it is well known, functions if it can be called, and else an
object. -/
def convertObject (host : Host) (e : Evaluator) (b : Branch) (id : TypeId) (type : ObjectType) :
    Eval Schema := do
  let options ← Eval.options
  match type.name.filter options.isWellKnown with
  | some name => return .wellKnown name []
  | none =>
    match host.types.signatures id with
    | [] =>
      let properties ← (host.types.properties id).mapM
        (convertProperty host e b type.literal.isSome)
      let indexKeys ← (host.types.indexSignatures id).mapM (convertIndex e b)
      return .object (Entries.ofList properties) indexKeys
    | signatures => return Schema.unionOf (← signatures.mapM (convertSignature e b))

/-- An instance of a generic type: a reference to a definition, which is registered. -/
def convertApplication (host : Host) (e : Evaluator) (b : Branch) (id : TypeId) (name : String)
    (target : TypeId) (arguments : List TypeId) (body : TypeId) : Eval Schema := do
  let arguments ← arguments.mapM fun a => e.type b a none
  let session ← get
  if session.options.isWellKnown name then return .wellKnown name arguments
  else
    let (key, definitions) := session.definitions.register name (host.types.display id) target body
    set { session with definitions }
    return .reference name arguments key

/-- The schema of a type, by its structure.  The type of an array literal is converted by evaluating
the literal. -/
def convertForm (host : Host) (e : Evaluator) (b : Branch) (id : TypeId) (node : Option NodeId)
    (form : TypeForm) : Eval Schema := do
  match form with
  | .intrinsic kind => return intrinsicSchema kind
  | .literal value => return .literal value
  | .template parts =>
    let parts ← parts.mapM (convertPart e b)
    return Schema.templateOf parts (← Eval.cap)
  | .union members => return Schema.unionOf (← members.mapM fun m => e.type b m none)
  | .intersection members => return Schema.intersectionOf (← members.mapM fun m => e.type b m none)
  | .tuple elements =>
    let elements ← elements.mapM (convertElement e b)
    return .tuple (elements.map (·.1)) (elements.map (·.2))
  | .array element =>
    match node.bind host.tree.form? with
    | some (.arrayLiteral elements) => arrayLiteral host e b elements
    | _ => return .array (← e.type b element none)
  | .object type => convertObject host e b id type
  | .keyOf subject => return .keys (← e.type b subject none) node
  | .access target key =>
    let target ← e.type b target none
    return .access target (← e.type b key none) node
  | .parameter _ (some constraint) => e.type b constraint none
  | .parameter _ none => return .unknown
  | .application name target arguments body =>
    convertApplication host e b id name target arguments body

/-- The schema of a type with a structure of its own, from memory if it is there.  It is
remembered if it depends neither on a node nor on the branch, and if nothing went wrong on the
way. -/
def convertCompound (host : Host) (e : Evaluator) (b : Branch) (id : TypeId) (node : Option NodeId)
    (form : TypeForm) : Eval Schema := do
  if b.isHandlingType id then return .failure "Circular type"
  else
    let isGeneral := node.isNone && !b.hasBindings
    let known ← if isGeneral then Eval.cachedType? id else pure none
    match known with
    | some schema => return schema
    | none =>
      let before := (← get).degraded
      let schema ← convertForm host e (b.withType id) id node form
      if isGeneral && (← get).degraded == before && !schema.containsError then
        Eval.cacheType id schema
      return schema

/-- The schema of a type. -/
def convert (host : Host) (e : Evaluator) (b : Branch) (id : TypeId) (node : Option NodeId) :
    Eval Schema := do
  match host.types.get? id with
  | none => return .unknown
  | some (.intrinsic kind) => return intrinsicSchema kind
  | some (.literal value) => return .literal value
  | some form => convertCompound host e b id node form

end ValueSchema.Evaluation
