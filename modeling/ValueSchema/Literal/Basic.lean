/-
# Literal values

The values that an expression can be narrowed to: texts, numbers, big integers, booleans, `null`
and `undefined`.  A big integer is kept as its decimal digits; what does not fit into 128 bits is
carried along as text and never computed with.
-/
import ValueSchema.Number.Decimal

namespace ValueSchema

/-- The primitive types. -/
inductive Primitive where
  | any
  | unknown
  | never
  | void
  | string
  | number
  | boolean
  | bigint
  | symbol
  | object
deriving DecidableEq, Repr, Inhabited

namespace Primitive

/-- All primitive types. -/
def all : List Primitive :=
  [any, unknown, never, void, string, number, boolean, bigint, symbol, object]

/-- The name of a primitive type. -/
def name : Primitive → String
  | any => "any"
  | unknown => "unknown"
  | never => "never"
  | void => "void"
  | string => "string"
  | number => "number"
  | boolean => "boolean"
  | bigint => "bigint"
  | symbol => "symbol"
  | object => "object"

/-- The primitive type with a given name. -/
def ofName? (s : String) : Option Primitive := all.find? fun p => p.name == s

theorem ofName?_name (p : Primitive) : ofName? p.name = some p := by cases p <;> decide

end Primitive

/-- A literal value. -/
inductive Literal where
  | string (value : String)
  | number (value : Float)
  /-- A big integer, by its digits. -/
  | bigint (digits : String)
  | boolean (value : Bool)
  | null
  | undefined
deriving Inhabited

namespace Literal

/-- The primitive type that a literal belongs to; `null` and `undefined` have none. -/
def primitive? : Literal → Option Primitive
  | string _ => some .string
  | number _ => some .number
  | bigint _ => some .bigint
  | boolean _ => some .boolean
  | null | undefined => none

/-- Whether a literal is `null` or `undefined`. -/
def isNullish : Literal → Bool
  | null | undefined => true
  | _ => false

/-- Sameness of literals: every value that is not a number is the same, the two zeros are the same,
and big integers are compared by their digits. -/
def same : Literal → Literal → Bool
  | string x, string y => x == y
  | number x, number y => (x.isNaN && y.isNaN) || x == y
  | bigint x, bigint y => x == y
  | boolean x, boolean y => x == y
  | null, null => true
  | undefined, undefined => true
  | _, _ => false

/-- What `typeof` answers for a literal. -/
def typeName : Literal → String
  | string _ => "string"
  | number _ => "number"
  | bigint _ => "bigint"
  | boolean _ => "boolean"
  | null => "object"
  | undefined => "undefined"

/-- A literal converted to a string. -/
def toText : Literal → String
  | string s => s
  | number x => Number.toText x
  | bigint digits => digits
  | boolean true => "true"
  | boolean false => "false"
  | null => "null"
  | undefined => "undefined"

end Literal

end ValueSchema
