/-
# Schemas as type texts

The text of a schema in the notation of types.  A union, an intersection or a function inside
another type stands in parentheses.  A symbolic operation is written as the type of its result,
and an error as the unknown type with the reason in a comment.
-/
import ValueSchema.Schema.Basic
import ValueSchema.Text.Letter
import ValueSchema.Text.Quoted

namespace ValueSchema.Schema

/-! ## Types of operations -/

/-- Which of the types that decide about an operation an operand has. -/
structure Leaning where
  /-- It may be a text. -/
  text : Bool
  /-- It can only be a big integer. -/
  integer : Bool
deriving DecidableEq, Repr

/-- The type of the result of a binary operator, by the leanings of its operands.  The operators
that select an operand have none. -/
def resultKind (op : BinaryOperator) (left right : Leaning) : Option Primitive :=
  if op.isRelational then some .boolean
  else if op.isLogical then none
  else if op = .add ∧ (left.text || right.text) then some .string
  else if op ≠ .unsignedRightShift ∧ (left.integer || right.integer) then some .bigint
  else some .number

mutual

/-- The leaning of a schema. -/
def leaning (s : Schema) : Leaning :=
  match s with
  | primitive kind _ => ⟨kind == .string, kind == .bigint⟩
  | literal (.string _) => ⟨true, false⟩
  | literal (.bigint _) => ⟨false, true⟩
  | template _ => ⟨true, false⟩
  | union items => leaningAll items
  | binary op left right =>
    let kind := resultKind op (leaning left) (leaning right)
    ⟨kind == some .string, kind == some .bigint⟩
  | _ => ⟨false, false⟩
  termination_by structural s

/-- The leaning of a union: it may be a text if one member may, and it can only be a big integer if
all members can. -/
def leaningAll (items : List Schema) : Leaning :=
  match items with
  | [] => ⟨false, true⟩
  | s :: rest =>
    let first := leaning s
    let others := leaningAll rest
    ⟨first.text || others.text, first.integer && others.integer⟩
  termination_by structural items

end

/-- The type of the result of a binary operation. -/
def binaryKind (op : BinaryOperator) (left right : Schema) : Option Primitive :=
  resultKind op (leaning left) (leaning right)

/-! ## Texts -/

/-- Whether the text of a schema needs parentheses inside another type. -/
def bindsLoosely : Schema → Bool
  | union .. | intersection .. | function .. => true
  | _ => false

/-- The text of a schema as a part of another type. -/
def operandText (s : Schema) (text : String) : String :=
  if s.bindsLoosely then "(" ++ text ++ ")" else text

/-- The text of a literal.  A number without a finite value is written as the type of numbers. -/
def literalText : Literal → String
  | .string s => Text.quote s
  | .number x => if Number.isFinite x then Number.toText x else "number"
  | .bigint digits => digits ++ "n"
  | .boolean true => "true"
  | .boolean false => "false"
  | .null => "null"
  | .undefined => "undefined"

/-- A property name, in quotes if it is not an identifier. -/
def propertyText (name : String) : String :=
  if Text.isIdentifier name then name else Text.quote name

/-- A text between the quotes of a template. -/
def templateChars (text : String) : String :=
  String.ofList (text.toList.flatMap fun c =>
    if c = '\x60' ∨ c = '\\' ∨ c = '$' then ['\\', c] else [c])

/-- One item of a template: a text as it is, anything else in braces. -/
def templateItemText (s : Schema) (text : String) : String :=
  match s with
  | literal (.string chars) => templateChars chars
  | _ => "$\x7b" ++ text ++ "\x7d"

/-- One element of a tuple. -/
def elementText (s : Schema) (flag : ElementFlag) (text : String) : String :=
  match flag with
  | .required => text
  | .optional => operandText s text ++ "?"
  | .rest => "..." ++ operandText s text ++ "[]"

/-- Breaks up the end marks of comments in the text of a comment. -/
def commentChars : List Char → List Char
  | '*' :: '/' :: rest => '*' :: ' ' :: '/' :: commentChars rest
  | c :: rest => c :: commentChars rest
  | [] => []

mutual

/-- The text of a schema in the notation of types. -/
def typeText (s : Schema) : String :=
  match s with
  | primitive kind _ => kind.name
  | literal value => literalText value
  | union items => String.intercalate " | " (items.zipWith operandText (typeTexts items))
  | intersection items => String.intercalate " & " (items.zipWith operandText (typeTexts items))
  | tuple items flags =>
    let elements := (items.zip flags).zipWith (fun e text => elementText e.1 e.2 text)
      (typeTexts items)
    "[" ++ String.intercalate ", " elements ++ "]"
  | array item => operandText item (typeText item) ++ "[]"
  | object properties indexKeys =>
    if properties.isEmpty && indexKeys.isEmpty then "\x7b\x7d"
    else
      let entries := propertyTexts properties ++ indexTexts indexKeys
      "\x7b " ++ String.intercalate "; " entries ++ " \x7d"
  | function parameters result =>
    "(" ++ String.intercalate ", " (parameterTexts parameters) ++ ") => " ++ typeText result
  | binary op left right =>
    match binaryKind op left right with
    | some kind => kind.name
    | none =>
      if op = .comma then typeText right
      else operandText left (typeText left) ++ " | " ++ operandText right (typeText right)
  | template items =>
    "\x60" ++ String.join (items.zipWith templateItemText (typeTexts items)) ++ "\x60"
  | keys subject _ => "keyof " ++ operandText subject (typeText subject)
  | access target key _ => operandText target (typeText target) ++ "[" ++ typeText key ++ "]"
  | reference name arguments _ =>
    if arguments.isEmpty then name
    else name ++ "<" ++ String.intercalate ", " (typeTexts arguments) ++ ">"
  | error reason _ => "unknown /* " ++ String.ofList (commentChars reason.toList) ++ " */"
  termination_by structural s

/-- The texts of several schemas. -/
def typeTexts (items : List Schema) : List String :=
  match items with
  | [] => []
  | s :: rest => typeText s :: typeTexts rest
  termination_by structural items

/-- The texts of the properties of an object. -/
def propertyTexts (items : List (String × Schema)) : List String :=
  match items with
  | [] => []
  | (name, s) :: rest => (propertyText name ++ ": " ++ typeText s) :: propertyTexts rest
  termination_by structural items

/-- The texts of the parameters of a function. -/
def parameterTexts (items : List (String × Schema)) : List String :=
  match items with
  | [] => []
  | (name, s) :: rest => (name ++ ": " ++ typeText s) :: parameterTexts rest
  termination_by structural items

/-- The texts of the open keys of an object. -/
def indexTexts (items : List (Schema × Schema)) : List String :=
  match items with
  | [] => []
  | (key, value) :: rest =>
    ("[key: " ++ typeText key ++ "]: " ++ typeText value) :: indexTexts rest
  termination_by structural items

end

end ValueSchema.Schema

namespace ValueSchema

/-- The text of a schema with its definitions: a line for each definition, and then the schema. -/
def Bundle.typeText (b : Bundle) : String :=
  String.join (b.definitions.map fun e => "type " ++ e.1 ++ " = " ++ e.2.typeText ++ ";\n") ++
    b.root.typeText

end ValueSchema
