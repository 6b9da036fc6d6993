/-
# Types

The types of a program, by number.  Twelve intrinsic types stand at the beginning of every table;
the others are added, and may refer to each other in any way.
-/
import ValueSchema.Literal.Basic
import ValueSchema.Syntax.Id
import ValueSchema.Text.Quoted

namespace ValueSchema

/-- The intrinsic types. -/
inductive Intrinsic where
  | any
  | unknown
  | never
  | void
  | undefined
  | null
  | boolean
  | number
  | string
  | bigint
  | symbol
  | object
deriving DecidableEq, Repr, Inhabited

namespace Intrinsic

/-- All intrinsic types, in the order of their numbers. -/
def all : List Intrinsic :=
  [any, unknown, never, void, undefined, null, boolean, number, string, bigint, symbol, object]

/-- The name of an intrinsic type. -/
def name : Intrinsic → String
  | any => "any"
  | unknown => "unknown"
  | never => "never"
  | void => "void"
  | undefined => "undefined"
  | null => "null"
  | boolean => "boolean"
  | number => "number"
  | string => "string"
  | bigint => "bigint"
  | symbol => "symbol"
  | object => "object"

/-- The number of an intrinsic type. -/
def id (k : Intrinsic) : TypeId := ⟨all.idxOf k⟩

/-- The intrinsic type with a given name. -/
def ofName? (text : String) : Option Intrinsic := all.find? fun k => k.name == text

end Intrinsic

/-- An element of a tuple type. -/
structure TupleElement where
  /-- The type of the element, or the array type of the rest. -/
  type : TypeId
  /-- Whether it may be missing. -/
  isOptional : Bool
  /-- Whether it stands for all further elements. -/
  isRest : Bool
deriving DecidableEq, Repr, Inhabited

/-- A part of a template type. -/
inductive TemplatePart where
  | text (value : String)
  | type (id : TypeId)
deriving DecidableEq, Repr, Inhabited

/-- A property of an object type. -/
structure Property where
  /-- The name of the property. -/
  name : String
  /-- Its type, seen from the object type. -/
  type : TypeId
  /-- Its type as it was declared. -/
  declaredType : TypeId
  /-- Whether it may be missing. -/
  isOptional : Bool
  /-- The node that declares it. -/
  declaration : Option NodeId
deriving DecidableEq, Repr, Inhabited

/-- The type of the values under all keys of a type. -/
structure IndexSignature where
  /-- The type of the keys. -/
  key : TypeId
  /-- The type of the values. -/
  value : TypeId
deriving DecidableEq, Repr, Inhabited

/-- A parameter of a signature. -/
structure Parameter where
  /-- The name of the parameter. -/
  name : String
  /-- Its type. -/
  type : TypeId
  /-- Whether it may be missing. -/
  isOptional : Bool
  /-- Whether it takes all further arguments. -/
  isRest : Bool
deriving DecidableEq, Repr, Inhabited

/-- A way to call something. -/
structure Signature where
  /-- The parameters. -/
  parameters : List Parameter
  /-- The type of the result. -/
  result : TypeId
  /-- The node that declares it. -/
  declaration : Option NodeId
deriving DecidableEq, Repr, Inhabited

/-- The structure of an object type. -/
structure ObjectType where
  /-- The name of an interface, a class or a type of the library. -/
  name : Option String := none
  /-- The named properties. -/
  properties : List Property := []
  /-- The properties under keys of a type. -/
  indexSignatures : List IndexSignature := []
  /-- The ways to call it. -/
  signatures : List Signature := []
  /-- The object literal that the type was inferred from. -/
  literal : Option NodeId := none
deriving DecidableEq, Repr, Inhabited

/-- The structure of a type. -/
inductive TypeForm where
  | intrinsic (kind : Intrinsic)
  | literal (value : Literal)
  | union (members : List TypeId)
  | intersection (members : List TypeId)
  | array (element : TypeId)
  | tuple (elements : List TupleElement)
  | object (type : ObjectType)
  | template (parts : List TemplatePart)
  /-- The keys of a type. -/
  | keyOf (subject : TypeId)
  /-- The type of the elements of a type under a key. -/
  | access (target key : TypeId)
  | parameter (name : String) (constraint : Option TypeId)
  /-- The instance `body` of the generic type `target`. -/
  | application (name : String) (target : TypeId) (arguments : List TypeId) (body : TypeId)
deriving Inhabited

/-- The types of a program. -/
structure TypeTable where
  /-- The structures of the types, in the order in which they were added. -/
  types : Array TypeForm := (Intrinsic.all.map TypeForm.intrinsic).toArray
deriving Inhabited

namespace TypeTable

/-- The number of types. -/
def size (t : TypeTable) : Nat := t.types.size

/-- The structure of a type. -/
def get? (t : TypeTable) (id : TypeId) : Option TypeForm := t.types[id.index]?

/-- Adds a type. -/
def add (t : TypeTable) (form : TypeForm) : TypeId × TypeTable := (⟨t.size⟩, ⟨t.types.push form⟩)

/-- Adds a type whose structure is given later. -/
def reserve (t : TypeTable) : TypeId × TypeTable := t.add (.intrinsic .unknown)

/-- Gives a type another structure; without effect if the type is not there. -/
def define (t : TypeTable) (id : TypeId) (form : TypeForm) : TypeTable :=
  ⟨t.types.setIfInBounds id.index form⟩

/-! ## Display -/

/-- The text of a literal type. -/
def literalDisplay : Literal → String
  | .string s => Text.display s
  | .number x => Number.toPlain x
  | .bigint digits => digits ++ "n"
  | other => other.toText

/-- The text of a type, down to `depth` types inside one another; what lies deeper is left out. -/
def displayWithin (t : TypeTable) (depth : Nat) (id : TypeId) : String :=
  match depth with
  | 0 => "..."
  | depth + 1 =>
    let inner := t.displayWithin depth
    match t.get? id with
    | none => "error"
    | some (.intrinsic kind) => kind.name
    | some (.literal value) => literalDisplay value
    | some (.union members) => String.intercalate " | " (members.map inner)
    | some (.intersection members) => String.intercalate " & " (members.map inner)
    | some (.array element) => inner element ++ "[]"
    | some (.tuple elements) =>
      let texts := elements.map fun e =>
        (if e.isRest then "..." else "") ++ inner e.type ++ (if e.isOptional then "?" else "")
      "[" ++ String.intercalate ", " texts ++ "]"
    | some (.object type) =>
      match type.name, type.signatures, type.properties with
      | some name, _, _ => name
      | none, [signature], [] =>
        let parameters := signature.parameters.map fun p => p.name ++ ": " ++ inner p.type
        "(" ++ String.intercalate ", " parameters ++ ") => " ++ inner signature.result
      | none, _, properties =>
        let texts := properties.map fun p =>
          p.name ++ (if p.isOptional then "?" else "") ++ ": " ++ inner p.type ++ "; "
        "\x7b " ++ String.join texts ++ "\x7d"
    | some (.template parts) =>
      let texts := parts.map fun
        | .text s => s
        | .type id => "$\x7b" ++ inner id ++ "\x7d"
      "\x60" ++ String.join texts ++ "\x60"
    | some (.keyOf subject) => "keyof " ++ inner subject
    | some (.access target key) => inner target ++ "[" ++ inner key ++ "]"
    | some (.parameter name _) => name
    | some (.application name _ arguments _) =>
      name ++ "<" ++ String.intercalate ", " (arguments.map inner) ++ ">"

/-- The text of a type.  It shows nine types inside one another at most. -/
def display (t : TypeTable) (id : TypeId) : String := t.displayWithin 9 id

/-! ## Members -/

/-- The object types that a type consists of, through instances of generic types and, for
properties, through intersections; looking through at most `fuel` types. -/
def objectsWithin (t : TypeTable) (throughIntersections : Bool) (fuel : Nat) (id : TypeId) :
    List ObjectType :=
  match fuel with
  | 0 => []
  | fuel + 1 =>
    match t.get? id with
    | some (.object type) => [type]
    | some (.application _ _ _ body) => t.objectsWithin throughIntersections fuel body
    | some (.intersection members) =>
      if throughIntersections then members.flatMap (t.objectsWithin throughIntersections fuel)
      else []
    | _ => []

/-- The properties of a type. -/
def properties (t : TypeTable) (id : TypeId) : List Property :=
  (t.objectsWithin true (t.size + 1) id).flatMap (·.properties)

/-- The index signatures of a type. -/
def indexSignatures (t : TypeTable) (id : TypeId) : List IndexSignature :=
  (t.objectsWithin false (t.size + 1) id).flatMap (·.indexSignatures)

/-- The ways to call a type. -/
def signatures (t : TypeTable) (id : TypeId) : List Signature :=
  (t.objectsWithin false (t.size + 1) id).flatMap (·.signatures)

/-- The constraint of a type parameter, through at most `fuel` type parameters. -/
def apparentWithin (t : TypeTable) (fuel : Nat) (id : TypeId) : TypeId :=
  match fuel with
  | 0 => id
  | fuel + 1 =>
    match t.get? id with
    | some (.parameter _ (some constraint)) => t.apparentWithin fuel constraint
    | some (.parameter _ none) => Intrinsic.unknown.id
    | _ => id

/-- The type whose members a type shows: for a type parameter, its constraint. -/
def apparent (t : TypeTable) (id : TypeId) : TypeId := t.apparentWithin (t.size + 1) id

/-- Whether a type is an array. -/
def isArray (t : TypeTable) (id : TypeId) : Bool :=
  match t.get? id with
  | some (.array _) => true
  | _ => false

/-- Whether a type is a tuple. -/
def isTuple (t : TypeTable) (id : TypeId) : Bool :=
  match t.get? id with
  | some (.tuple _) => true
  | _ => false

/-- Whether a type is a type parameter. -/
def isParameter (t : TypeTable) (id : TypeId) : Bool :=
  match t.get? id with
  | some (.parameter ..) => true
  | _ => false

end TypeTable

end ValueSchema
